import EpsilonNfa.Failure
import EpsilonNfa.Proofs.Compile.Faults
import EpsilonNfa.Proofs.Grammar.OperatorLast
import EpsilonNfa.Proofs.Pattern.Scanning
import Mathlib.Data.List.DropRight

/-!
Where the caret of a message points. A fault that has a place is told in a headline, the text in which
it was found, and a caret on a line of its own. Text and caret stand behind the same gutter, so the
caret is under the character that has as many before it:

    [002] unmatched closing parenthesis:
     | a.b)
     |    ^

The text may break lines of its own, since a pattern may; but not before the character that is
pointed at, and neither headline nor caret line has a break, so both can be told from the message.
-/

namespace EpsilonNfa

/-! ### The lines of a message -/

/-- The line that a text ends with. -/
def lastLine (text : List Char) : List Char :=
  text.rtakeWhile (· ≠ '\n')

/-- What stands between the first line of a text and the last one. -/
def innerLines (text : List Char) : List Char :=
  ((text.dropWhile (· ≠ '\n')).tail.rdropWhile (· ≠ '\n')).dropLast

section

variable {first inner last : List Char}

theorem forall_ne_of_notMem {line : List Char} (h : '\n' ∉ line) :
    ∀ c ∈ line, decide (c ≠ '\n') = true := by
  rintro c hc
  refine decide_eq_true ?_
  rintro rfl
  exact h hc

theorem lastLine_append (hlast : '\n' ∉ last) : lastLine (first ++ '\n' :: last) = last := by
  have hreverse := @forall_ne_of_notMem last.reverse (by simpa using hlast)
  rw [lastLine, List.rtakeWhile, List.reverse_append, List.reverse_cons, List.append_assoc,
    List.takeWhile_append_of_pos hreverse, List.singleton_append,
    List.takeWhile_cons_of_neg (by simp), List.append_nil, List.reverse_reverse]

/-- The first and the last line have no break, so all other breaks are between them. -/
theorem innerLines_append (hfirst : '\n' ∉ first) (hlast : '\n' ∉ last) :
    innerLines (first ++ '\n' :: (inner ++ '\n' :: last)) = inner := by
  have hreverse := @forall_ne_of_notMem last.reverse (by simpa using hlast)
  rw [innerLines, List.dropWhile_append_of_pos (forall_ne_of_notMem hfirst),
    List.dropWhile_cons_of_neg (by simp), List.tail_cons, List.rdropWhile, List.reverse_append,
    List.reverse_cons, List.append_assoc, List.dropWhile_append_of_pos hreverse,
    List.singleton_append, List.dropWhile_cons_of_neg (by simp), List.reverse_cons,
    List.reverse_reverse, List.dropLast_concat]

end

/-! ### The caret -/

/-- What stands before an echoed text, and before the blanks under it. -/
def gutter : List Char :=
  [' ', '|', ' ']

/-- `PointsAt message front c back`: the message echoes the text `front ++ c :: back`, and its caret
    is the first one on the last line and stands under `c`. -/
structure PointsAt (message : String) (front : List Char) (c : Char) (back : List Char) : Prop where
  echo : innerLines message.toList = gutter ++ front ++ c :: back
  caret : ∃ before, lastLine message.toList = before ++ ['^'] ∧ '^' ∉ before ∧ gutter <+: before ∧
    before.length = (gutter ++ front).length

namespace Text

/-- A character between quotes stays on its line. -/
theorem notMem_quotedChar (c : Char) : '\n' ∉ (quotedChar c).toList := by
  rw [quotedChar, String.toList_ofList]
  simp only [List.cons_append, List.mem_cons, List.mem_append, List.not_mem_nil, or_false, not_or]
  refine ⟨by decide, fun hmem => ?_, by decide⟩
  exact absurd (le_toNat_of_mem_escape (by decide) hmem) (by decide)

end Text

namespace PatternFault

variable {front back : List Char} {c : Char}

/-- A pointer below a headline points at the character that stands at its column. -/
theorem pointsAt_pointer {headline text : String} (hheadline : '\n' ∉ headline.toList)
    (htext : text.toList = front ++ c :: back) :
    PointsAt (headline ++ pointer .plain text front.length) front c back := by
  have hlines : (headline ++ pointer .plain text front.length).toList =
      headline.toList ++ '\n' :: (gutter ++ front ++ c :: back ++
        '\n' :: (gutter ++ List.replicate front.length ' ' ++ ['^'])) := by
    simp [pointer, padding, Style.caret, Style.paint, gutter, htext]
  have hlast : '\n' ∉ gutter ++ List.replicate front.length ' ' ++ ['^'] := by
    simp [gutter]
  constructor
  · rw [hlines, innerLines_append hheadline hlast]
  · refine ⟨gutter ++ List.replicate front.length ' ', ?_, by simp [gutter],
      List.prefix_append .., by simp⟩
    rw [hlines, ← List.cons_append, ← List.append_assoc, lastLine_append hlast]

theorem notMem_code (fault : PatternFault) : '\n' ∉ fault.code.toList := by
  cases fault <;> simp [code, number, Nat.repr, Nat.toDigits, Nat.toDigitsCore, Nat.digitChar]

/-- A fault that is told in one line and a pointer points where the pointer does, also when something
    is announced before it in that line. -/
theorem pointsAt_message {fault : PatternFault} {announced told text : String}
    (hannounced : '\n' ∉ announced.toList) (htold : '\n' ∉ told.toList)
    (haccount : fault.account .plain = told ++ pointer .plain text front.length)
    (htext : text.toList = front ++ c :: back) :
    PointsAt (announced ++ fault.message .plain) front c back := by
  have hmessage : announced ++ fault.message .plain =
      announced ++ fault.code ++ " " ++ told ++ pointer .plain text front.length := by
    rw [message, haccount, Style.alarm, Style.paint]
    simp only [String.append_assoc]
  rw [hmessage]
  refine pointsAt_pointer ?_ htext
  simp [hannounced, htold, fault.notMem_code]

theorem pointsAt_unexpectedCharacter {announced : String} (hannounced : '\n' ∉ announced.toList)
    (front : List Char) (c : Char) (back : List Char) :
    PointsAt (announced ++ (unexpectedCharacter (String.ofList front)
      (String.ofList (c :: back))).message .plain) front c back := by
  have haccount : (unexpectedCharacter (String.ofList front) (String.ofList (c :: back))).account
      .plain = "character outside the alphabet " ++
        Text.quotedChar (found (String.ofList (c :: back))) ++ ":" ++
        pointer .plain (String.ofList front ++ String.ofList (c :: back))
          (String.ofList front).length := rfl
  rw [String.length_ofList] at haccount
  refine pointsAt_message hannounced ?_ haccount (by simp)
  simp [Text.notMem_quotedChar]

theorem pointsAt_unmatchedClose {announced : String} (hannounced : '\n' ∉ announced.toList)
    (front : List Token) :
    PointsAt (announced ++ (unmatchedClose (Token.display (front ++ [.operator .closeParen]))).message
      .plain) (front.map Token.toChar) ')' [] := by
  have htext : (Token.display (front ++ [.operator .closeParen])).toList =
      front.map Token.toChar ++ [')'] := by
    simp [Token.display, Token.toChar, Operator.toChar]
  have hlength : (Token.display (front ++ [.operator .closeParen])).length - 1 =
      (front.map Token.toChar).length := by
    rw [← String.length_toList, htext, List.length_append, List.length_singleton,
      Nat.add_sub_cancel]
  have haccount : (unmatchedClose (Token.display (front ++ [.operator .closeParen]))).account .plain =
      "unmatched closing parenthesis:" ++
        pointer .plain (Token.display (front ++ [.operator .closeParen]))
          ((Token.display (front ++ [.operator .closeParen])).length - 1) := rfl
  rw [hlength] at haccount
  exact pointsAt_message hannounced (by decide) haccount htext

end PatternFault

/-! ### Faults of a compilation -/

variable {pattern : String}

/-- A pattern is refused for a character only by the split before the first one outside the
    alphabet. -/
theorem exists_of_validate_unexpectedCharacter {consumed rest : String}
    (h : validate pattern = .error (.unexpectedCharacter consumed rest)) :
    ∃ front c back, pattern.toList = front ++ c :: back ∧ (∀ d ∈ front, Token.InAlphabet d) ∧
      ¬ Token.InAlphabet c ∧ consumed = String.ofList front ∧
      rest = String.ofList (c :: back) := by
  obtain ⟨c, hc, hforeign⟩ := (diagnosis_validate pattern).unexpectedCharacter_iff.1 ⟨_, _, h⟩
  obtain ⟨consumed', rest', herror⟩ :=
    exists_tokenize_eq_error hc (Token.admits_eq_false_iff.2 hforeign)
  rw [validate, herror] at h
  cases h
  obtain ⟨front, d, back, hsplit, hfront, hd, hfault⟩ := tokenize_eq_error_iff.1 herror
  cases hfault
  exact ⟨front, d, back, hsplit, hfront, hd, rfl, rfl⟩

/-- A pattern is refused for a closing parenthesis only by the first excess of its expanded
    tokens. -/
theorem exists_of_validate_unmatchedClose {consumed : String}
    (h : validate pattern = .error (.unmatchedClose consumed)) :
    ∃ tokens front, tokenize pattern = .ok tokens ∧
      FirstExcess (front ++ [.operator .closeParen]) (expandConcatenation tokens) ∧
      consumed = Token.display (front ++ [.operator .closeParen]) := by
  obtain ⟨hread, hover⟩ := (diagnosis_validate pattern).unmatchedClose_iff.1 ⟨_, h⟩
  obtain ⟨tokens, htokens⟩ := exists_tokenize_eq_ok fun c hc =>
    Bool.of_not_eq_false fun hout => hread ⟨c, hc, Token.admits_eq_false_iff.1 hout⟩
  have hnesting := (Pattern.overcloses_iff htokens).1 hover
  have hne : tokens ≠ [] := by
    rintro rfl
    cases hnesting
  rw [← nesting_expandConcatenation] at hnesting
  obtain ⟨front, hexcess, hfault⟩ := exists_firstExcess hnesting
  rw [validate_of_tokenize htokens hne, arrange, hfault] at h
  cases h
  exact ⟨tokens, front, htokens, hexcess, rfl⟩

/-- The caret of a message points at the fault, in the message by itself and when a failure reports it.
    In a pattern with a foreign character it points at the first one of these; in one that closes too
    much, at the first closing parenthesis without a partner, which is the last character of the
    expanded text that is echoed. -/
theorem caret_points_at_fault (flags : Flags) (pattern : String) :
    (∀ consumed rest,
      compile flags pattern = .error (.pattern (.unexpectedCharacter consumed rest)) →
      ∃ front c back, pattern.toList = front ++ c :: back ∧ (∀ d ∈ front, Token.InAlphabet d) ∧
        ¬ Token.InAlphabet c ∧
        PointsAt ((PatternFault.unexpectedCharacter consumed rest).message .plain) front c back ∧
        PointsAt ((Failure.invalidPattern
          (.pattern (.unexpectedCharacter consumed rest))).message .plain) front c back) ∧
    ∀ consumed, compile flags pattern = .error (.pattern (.unmatchedClose consumed)) →
      ∃ tokens front, tokenize pattern = .ok tokens ∧
        FirstExcess (front ++ [.operator .closeParen]) (expandConcatenation tokens) ∧
        PointsAt ((PatternFault.unmatchedClose consumed).message .plain)
          (front.map Token.toChar) ')' [] ∧
        PointsAt ((Failure.invalidPattern (.pattern (.unmatchedClose consumed))).message .plain)
          (front.map Token.toChar) ')' [] := by
  have hempty : '\n' ∉ "".toList := by decide
  have hregex : '\n' ∉ "invalid regex: ".toList := by decide
  simp only [compile_eq_error_pattern_iff]
  constructor
  · intro consumed rest h
    obtain ⟨front, c, back, hsplit, hfront, hc, rfl, rfl⟩ :=
      exists_of_validate_unexpectedCharacter h
    have hplain := PatternFault.pointsAt_unexpectedCharacter hempty front c back
    rw [String.empty_append] at hplain
    exact ⟨front, c, back, hsplit, hfront, hc, hplain,
      PatternFault.pointsAt_unexpectedCharacter hregex front c back⟩
  · intro consumed h
    obtain ⟨tokens, front, htokens, hexcess, rfl⟩ := exists_of_validate_unmatchedClose h
    have hplain := PatternFault.pointsAt_unmatchedClose hempty front
    rw [String.empty_append] at hplain
    exact ⟨tokens, front, htokens, hexcess, hplain,
      PatternFault.pointsAt_unmatchedClose hregex front⟩

-- the dot that is put in moves the caret
example : compile .none "ab)c" = .error (.pattern (.unmatchedClose "a.b)")) ∧
    (PatternFault.unmatchedClose "a.b)").message .plain =
      "[002] unmatched closing parenthesis:\n | a.b)\n |    ^" :=
  ⟨by rfl, by decide +kernel⟩

end EpsilonNfa
