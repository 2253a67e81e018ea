import EpsilonNfa.Json.Reader
import EpsilonNfa.Proofs.Json.Printing

/-!
The reader's tables are those of JSON. Each table is a partial function on characters, and its entries
are what the grammar allows:

    isBlank         blanks            shortEscape?    a backslash and one character
    hexValue?       digits            ofPunctuation?  lexemes of one character

A number of four digits is the number of a character or of half of a pair, so it becomes a piece in
one way, and the reader's pass over the pieces of a string makes of them the content that they stand
for.
-/

namespace EpsilonNfa.Json

variable {c d : Char} {n code : Nat}

/-! ### Tables -/

theorem isBlank_iff : isBlank c = true ↔ IsBlank c := by
  simp [isBlank, IsBlank, or_assoc]

theorem shortEscape?_eq_some_iff : shortEscape? d = some c ↔ ShortEscape d c := by
  constructor
  · intro h
    unfold shortEscape? at h
    split at h
    · cases h
      exact .quote
    · cases h
      exact .backslash
    · cases h
      exact .slash
    · cases h
      exact .backspace
    · cases h
      exact .formFeed
    · cases h
      exact .lineFeed
    · cases h
      exact .carriageReturn
    · cases h
      exact .tab
    · cases h
  · intro h
    cases h <;> rfl

/-- A character between two others has the number of the first and some more, which are few. -/
theorem exists_ofNat_of_le {first last : Char} (hfirst : first ≤ d) (hlast : d ≤ last) :
    d.toNat - first.toNat ≤ last.toNat - first.toNat ∧
      d = Char.ofNat (d.toNat - first.toNat + first.toNat) := by
  have hle : first.toNat ≤ d.toNat := UInt32.le_iff_toNat_le.1 hfirst
  have hle' : d.toNat ≤ last.toNat := UInt32.le_iff_toNat_le.1 hlast
  rw [Nat.sub_add_cancel hle, Char.ofNat_toNat]
  exact ⟨Nat.sub_le_sub_right hle' _, rfl⟩

theorem hexDigit_ofNat : ∀ n ≤ 9, HexDigit n (Char.ofNat (n + '0'.toNat)) := by
  unfold HexDigit
  decide

theorem hexDigit_ofNat_of_letter : ∀ n ≤ 5,
    HexDigit (n + 10) (Char.ofNat (n + 'a'.toNat)) ∧
      HexDigit (n + 10) (Char.ofNat (n + 'A'.toNat)) := by
  unfold HexDigit
  decide

theorem hexValue?_eq_some_iff : hexValue? d = some n ↔ HexDigit n d := by
  constructor
  · intro h
    unfold hexValue? at h
    split at h
    · next hdigit =>
      cases h
      have hrange : '0' ≤ d ∧ d ≤ '9' := by
        rwa [Char.isDigit, Bool.and_eq_true, decide_eq_true_eq, decide_eq_true_eq] at hdigit
      obtain ⟨hn, hd⟩ := exists_ofNat_of_le hrange.1 hrange.2
      have := hexDigit_ofNat _ hn
      rwa [← hd] at this
    · split at h
      · next hrange =>
        cases h
        obtain ⟨hn, hd⟩ := exists_ofNat_of_le hrange.1 hrange.2
        have := (hexDigit_ofNat_of_letter _ hn).1
        rwa [← hd] at this
      · split at h
        · next hrange =>
          cases h
          obtain ⟨hn, hd⟩ := exists_ofNat_of_le hrange.1 hrange.2
          have := (hexDigit_ofNat_of_letter _ hn).2
          rwa [← hd] at this
        · cases h
  · intro h
    have hlower : ∀ n < 16, hexValue? ("0123456789abcdef".toList[n]?.getD ' ') = some n := by
      decide
    have hupper : ∀ n < 16, hexValue? ("0123456789ABCDEF".toList[n]?.getD ' ') = some n := by
      decide
    rcases h with h | h
    · have hn : n < 16 := (List.getElem?_eq_some_iff.1 h).1
      have := hlower n hn
      rwa [h] at this
    · have hn : n < 16 := (List.getElem?_eq_some_iff.1 h).1
      have := hupper n hn
      rwa [h] at this

/-- The lexemes of one character are those of the table, but for the digits, which are words. -/
theorem Lexeme.ofPunctuation?_eq_some_iff {l : Lexeme} :
    Lexeme.ofPunctuation? c = some l ↔ l.Spelled [c] ∧ ∀ v, l ≠ .word v := by
  constructor
  · intro h
    unfold Lexeme.ofPunctuation? at h
    split at h
    · cases h
      exact ⟨.openArray, nofun⟩
    · cases h
      exact ⟨.closeArray, nofun⟩
    · cases h
      exact ⟨.openObject, nofun⟩
    · cases h
      exact ⟨.closeObject, nofun⟩
    · cases h
      exact ⟨.comma, nofun⟩
    · cases h
      exact ⟨.colon, nofun⟩
    · cases h
  · rintro ⟨h, hword⟩
    generalize hxs : [c] = xs at h
    cases h with
    | string => simp at hxs
    | null => exact absurd rfl (hword _)
    | true => exact absurd rfl (hword _)
    | false => exact absurd rfl (hword _)
    | number => exact absurd rfl (hword _)
    | _ =>
      cases hxs
      rfl

/-! ### Numbers of characters and halves -/

theorem HexDigit.lt (h : HexDigit n d) : n < 16 := by
  rcases h with h | h <;> exact (List.getElem?_eq_some_iff.1 h).1

theorem NumberEscape.lt {cs : List Char} (h : NumberEscape code cs) : code < 0x10000 := by
  cases h with
  | digits h₁ h₂ h₃ h₄ =>
    have := h₁.lt
    have := h₂.lt
    have := h₃.lt
    have := h₄.lt
    omega

theorem Piece.ofCode_of_half (h : IsFirstHalf code ∨ IsSecondHalf code) :
    Piece.ofCode code = .half code := by
  rw [ofCode, if_pos]
  rcases h with ⟨h₁, h₂⟩ | ⟨h₁, h₂⟩ <;> omega

/-- No character has the number of a half. -/
theorem Piece.ofCode_toNat (c : Char) : Piece.ofCode c.toNat = .char c := by
  have hvalid : c.toNat < 0xd800 ∨ 0xdfff < c.toNat ∧ c.toNat < 0x110000 := c.valid
  rw [ofCode, if_neg (by omega), Char.ofNat_toNat]

theorem toNat_ofNat_of_isValidChar (h : n.isValidChar) : (Char.ofNat n).toNat = n := by
  rw [Char.ofNat, dif_pos h]
  rfl

/-- Four digits stand for the piece that the reader makes of their number. -/
theorem NumberEscape.spelled_ofCode {cs : List Char} (h : NumberEscape code cs) :
    (Piece.ofCode code).Spelled cs := by
  rw [Piece.ofCode]
  split
  · next hhalf =>
    refine .half ?_ h
    rw [IsFirstHalf, IsSecondHalf]
    omega
  · next hchar =>
    have hvalid : code.isValidChar := by
      have := h.lt
      rw [Nat.isValidChar]
      omega
    refine .numbered ?_
    rwa [toNat_ofNat_of_isValidChar hvalid]

/-! ### Pairs -/

variable {ps : List Piece} {text : Text} {cs : List Char}

theorem SpelledOut.isHalf (h : SpelledOut ps cs) :
    ∀ code, .half code ∈ ps → IsFirstHalf code ∨ IsSecondHalf code := by
  induction h with
  | nil => exact nofun
  | cons hp _ ih =>
    intro code hcode
    rcases List.mem_cons.1 hcode with rfl | hcode
    · cases hp with
      | half hhalf => exact hhalf
    · exact ih code hcode

theorem Joined.joinPairs_eq (h : Joined ps text)
    (hps : ∀ code, .half code ∈ ps → IsFirstHalf code ∨ IsSecondHalf code) :
    Piece.joinPairs ps = text := by
  induction h with
  | nil => rfl
  | @char c ps text _ ih =>
    have hrest := ih fun code hcode => hps code (List.mem_cons_of_mem _ hcode)
    simp only [Piece.joinPairs, hrest]
  | @pair high low c ps text hhigh hlow hc _ ih =>
    have hrest := ih fun code hcode =>
      hps code (List.mem_cons_of_mem _ (List.mem_cons_of_mem _ hcode))
    rw [Piece.joinPairs, if_pos ⟨hhigh.2, hlow.1⟩, hrest, ← hc, Char.ofNat_toNat]
  | @half code ps text hno _ ih =>
    have hrest := ih fun code hcode => hps code (List.mem_cons_of_mem _ hcode)
    cases ps with
    | nil => rw [← hrest]; rfl
    | cons p ps =>
      cases p with
      | char c => simp only [Piece.joinPairs, ← hrest]
      | half low =>
        have hpair : ¬ (code < 0xdc00 ∧ 0xdc00 ≤ low) := by
          rintro ⟨hhigh, hlow⟩
          have h₁ := hps code List.mem_cons_self
          have h₂ := hps low (List.mem_cons_of_mem _ List.mem_cons_self)
          simp only [IsFirstHalf, IsSecondHalf] at h₁ h₂ hno
          exact hno (by omega) low (by omega) rfl
        rw [Piece.joinPairs, if_neg hpair, hrest]

theorem joined_joinPairs (hps : ∀ code, .half code ∈ ps → IsFirstHalf code ∨ IsSecondHalf code) :
    Joined ps (Piece.joinPairs ps) := by
  induction ps using Piece.joinPairs.induct with
  | case1 high low rest hpair ih =>
    have hrest := ih fun code hcode =>
      hps code (List.mem_cons_of_mem _ (List.mem_cons_of_mem _ hcode))
    have h₁ := hps high List.mem_cons_self
    have h₂ := hps low (List.mem_cons_of_mem _ List.mem_cons_self)
    simp only [IsFirstHalf, IsSecondHalf] at h₁ h₂
    rw [Piece.joinPairs, if_pos hpair]
    have hvalid : (0x10000 + (high - 0xd800) * 0x400 + (low - 0xdc00)).isValidChar := by
      rw [Nat.isValidChar]
      omega
    exact .pair ⟨by omega, by omega⟩ ⟨by omega, by omega⟩ (toNat_ofNat_of_isValidChar hvalid) hrest
  | case2 high low rest hpair ih =>
    have hrest := ih fun code hcode => hps code (List.mem_cons_of_mem _ hcode)
    rw [Piece.joinPairs, if_neg hpair]
    refine .half ?_ hrest
    rintro hhigh low' hlow ⟨⟩
    exact hpair ⟨hhigh.2, hlow.1⟩
  | case3 piece rest hno ih =>
    have hrest := ih fun code hcode => hps code (List.mem_cons_of_mem _ hcode)
    have hjoin : Piece.joinPairs (piece :: rest) = piece :: Piece.joinPairs rest := by
      rw [Piece.joinPairs]
      exact hno
    rw [hjoin]
    cases piece with
    | char c => exact .char hrest
    | half code =>
      refine .half (fun _ low _ hlow => ?_) hrest
      obtain ⟨tail, rfl⟩ := List.head?_eq_some_iff.1 hlow
      exact hno code low tail rfl rfl
  | case4 => exact .nil

/-- Characters stand for themselves. -/
theorem joined_ofString (s : String) : Joined (Text.ofString s) (.ofString s) := by
  rw [Text.ofString]
  induction s.toList with
  | nil => exact .nil
  | cons c cs ih => exact .char ih

/-- The reader's pass over the pieces of a string gives the content that they stand for. -/
theorem SpelledOut.joined_iff (h : SpelledOut ps cs) : Joined ps text ↔ Piece.joinPairs ps = text := by
  constructor
  · exact fun hjoined => hjoined.joinPairs_eq h.isHalf
  · rintro rfl
    exact joined_joinPairs h.isHalf

end EpsilonNfa.Json
