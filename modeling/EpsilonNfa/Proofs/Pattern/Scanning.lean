import EpsilonNfa.Proofs.Pattern.Lexing

/-!
Where a pattern stops being one. A pattern is read up to its first character outside the alphabet,
and there the fault splits it. The place can be told by counting the bytes that are left, although
characters take different numbers of them:

    characters     a  |  é  b
    bytes          1  1  2  1
    read           a  |              the front of 5 - 3 bytes
    left                 é  b

`scan` reads in this way, one token after the other; it always cuts where a character begins, and its
outcome is that of `tokenize`.
-/

namespace EpsilonNfa

/-- An ASCII letter or digit, or one of the five operators. -/
def Token.InAlphabet (c : Char) : Prop :=
  c.isAlphanum = true ∨ c ∈ ['*', '.', '|', '(', ')']

theorem Token.admits_iff {c : Char} : admits c = true ↔ InAlphabet c := by
  rw [← Bool.not_eq_false, admits_eq_false_iff, InAlphabet, not_and_or, not_not,
    Bool.not_eq_false]

/-! ### The split -/

variable {pattern : String} {fault : PatternFault}

theorem exists_tokenize_eq_ok_iff :
    (∃ tokens, tokenize pattern = .ok tokens) ↔ ∀ c ∈ pattern.toList, Token.InAlphabet c := by
  simp only [← Token.admits_iff]
  constructor
  · rintro ⟨tokens, h⟩ c hc
    by_contra hout
    obtain ⟨consumed, rest, herror⟩ := exists_tokenize_eq_error hc (Bool.eq_false_iff.2 hout)
    rw [herror] at h
    cases h
  · exact exists_tokenize_eq_ok

/-- A pattern is refused by splitting it before its first character outside the alphabet. -/
theorem tokenize_eq_error_iff : tokenize pattern = .error fault ↔
    ∃ front c back, pattern.toList = front ++ c :: back ∧ (∀ d ∈ front, Token.InAlphabet d) ∧
      ¬ Token.InAlphabet c ∧
      fault = .unexpectedCharacter (String.ofList front) (String.ofList (c :: back)) := by
  simp only [← Token.admits_iff]
  constructor
  · intro h
    have hsplit := List.takeWhile_append_dropWhile (p := Token.admits) (l := pattern.toList)
    have hhead := List.head?_dropWhile_not Token.admits pattern.toList
    rw [tokenize] at h
    split at h
    · cases h
    · next rest hne =>
      cases h
      cases hrest : pattern.toList.dropWhile Token.admits with
      | nil => exact absurd hrest hne
      | cons c back =>
        rw [hrest] at hsplit hhead
        exact ⟨_, c, back, hsplit.symm, fun d hd => List.mem_takeWhile_imp hd,
          Bool.eq_false_iff.1 hhead, rfl⟩
  · rintro ⟨front, c, back, hsplit, hfront, hc, rfl⟩
    rw [tokenize, hsplit, List.takeWhile_append_of_pos hfront, List.dropWhile_append_of_pos hfront,
      List.takeWhile_cons_of_neg hc, List.dropWhile_cons_of_neg hc, List.append_nil]

/-! ### Cutting by bytes -/

/-- The front of a text that takes `n` bytes; none when it would end inside a character. -/
def frontBytes? (text : String) (n : Nat) : Option String :=
  String.fromUTF8? (text.toByteArray.extract 0 n)

/-- The bytes of what follows tell where a text is to be cut. -/
theorem frontBytes?_append (front back : String) :
    frontBytes? (front ++ back) ((front ++ back).utf8ByteSize - back.utf8ByteSize) = some front := by
  have hsize : (front ++ back).utf8ByteSize - back.utf8ByteSize = front.toByteArray.size := by
    rw [String.utf8ByteSize_append, Nat.add_sub_cancel]
    rfl
  rw [frontBytes?, String.toByteArray_append, ByteArray.extract_append_eq_left hsize,
    String.fromUTF8?, dif_pos front.isValidUTF8]
  rfl

/-- Takes the tokens of `rest`, one after the other, behind those that have been taken already. At a
    character that writes none, the text before it is cut off the pattern by the bytes that are left;
    the outcome is none when that would divide a character. -/
def scan (pattern : String) (tokens : List Token) :
    List Char → Option (Except PatternFault (List Token))
  | [] => some (.ok tokens)
  | c :: rest =>
    match Token.ofChar? c with
    | some token => scan pattern (tokens ++ [token]) rest
    | none =>
      let left := String.ofList (c :: rest)
      (frontBytes? pattern (pattern.utf8ByteSize - left.utf8ByteSize)).map fun consumed =>
        .error (.unexpectedCharacter consumed left)

/-- From any place of a pattern that is reached, the rest of it is read to the outcome of the whole. -/
theorem scan_of_front {front rest : List Char} (hfront : ∀ c ∈ front, Token.admits c = true)
    (hpattern : pattern = String.ofList (front ++ rest)) :
    scan pattern (front.filterMap Token.ofChar?) rest = some (tokenize pattern) := by
  induction rest generalizing front with
  | nil =>
    rw [scan, tokenize, hpattern, List.append_nil, String.toList_ofList,
      List.dropWhile_eq_nil_iff.2 hfront]
  | cons c rest ih =>
    rw [scan]
    cases hc : Token.ofChar? c with
    | some token =>
      have hadmits : Token.admits c = true := by rw [Token.admits, hc]; rfl
      have hnext := @ih (front ++ [c]) (by simpa [or_imp, forall_and] using
        ⟨hfront, hadmits⟩) (by rw [hpattern, List.append_assoc, List.singleton_append])
      rwa [List.filterMap_append, List.filterMap_cons_some hc] at hnext
    | none =>
      have hout : ¬ Token.InAlphabet c := by
        rw [← Token.admits_iff, Token.admits, hc]
        exact Bool.false_ne_true
      have herror : tokenize pattern = .error (.unexpectedCharacter (String.ofList front)
          (String.ofList (c :: rest))) :=
        tokenize_eq_error_iff.2 ⟨front, c, rest, by rw [hpattern, String.toList_ofList],
          fun d hd => Token.admits_iff.1 (hfront d hd), hout, rfl⟩
      have hcut := frontBytes?_append (String.ofList front) (String.ofList (c :: rest))
      rw [← String.ofList_append, ← hpattern] at hcut
      simp only [hcut, herror, Option.map_some]

/-- Reading by bytes gives the tokens of a pattern or its fault, and never divides a character. -/
theorem scan_eq_tokenize (pattern : String) :
    scan pattern [] pattern.toList = some (tokenize pattern) :=
  @scan_of_front pattern [] pattern.toList (by simp) (by simp)

/-- A pattern is read exactly when all its characters are of the alphabet. Its tokens are written as
    the pattern, and lexical tokens are read from what is written for them; any other pattern is split
    before its first character outside the alphabet, which the bytes of the remainder tell. -/
theorem tokenize_reads_or_splits (pattern : String) :
    ((∃ tokens, tokenize pattern = .ok tokens) ↔ ∀ c ∈ pattern.toList, Token.InAlphabet c) ∧
    (∀ tokens, tokenize pattern = .ok tokens → Token.display tokens = pattern) ∧
    (∀ tokens : List Token, (∀ token ∈ tokens, token.Lexical) →
      tokenize (Token.display tokens) = .ok tokens) ∧
    ∀ fault, tokenize pattern = .error fault → ∃ consumed remainder,
      fault = .unexpectedCharacter consumed remainder ∧ consumed ++ remainder = pattern ∧
        (∀ c ∈ consumed.toList, Token.InAlphabet c) ∧
        (∃ c, remainder.toList.head? = some c ∧ ¬ Token.InAlphabet c) ∧
        frontBytes? pattern (pattern.utf8ByteSize - remainder.utf8ByteSize) = some consumed := by
  refine ⟨exists_tokenize_eq_ok_iff, fun tokens h => (tokenize_eq_ok_iff.1 h).2,
    fun tokens h => tokenize_eq_ok_iff.2 ⟨h, rfl⟩, fun fault h => ?_⟩
  obtain ⟨front, c, back, hsplit, hfront, hc, rfl⟩ := tokenize_eq_error_iff.1 h
  have hpattern : String.ofList front ++ String.ofList (c :: back) = pattern := by
    rw [← String.ofList_append, ← hsplit, String.ofList_toList]
  refine ⟨_, _, rfl, hpattern, ?_, ⟨c, by rw [String.toList_ofList]; rfl, hc⟩, ?_⟩
  · rwa [String.toList_ofList]
  · rw [← hpattern, frontBytes?_append]

-- the remainder takes four bytes and three characters
example : tokenize "a|éb$" = .error (.unexpectedCharacter "a|" "éb$") := by rfl

end EpsilonNfa
