import EpsilonNfa.Json.Writer
import EpsilonNfa.Proofs.Json.Reading
import Mathlib.Tactic.SplitIfs

/-!
What is written of a value is read as the value (`parse?_eq`). The writer puts line breaks and
blanks only where a text may have them, and of the spellings of a character it takes one; so its text
prints the value, and the reader gives back whatever a text prints.

Not every value of the model can come from a text: its numbers have to be spelled as numbers, and in
its strings no two halves may stand side by side that make a pair, since they would be read as one
character. A value without such numbers and halves is `Writable`.
-/

namespace EpsilonNfa.Json

/-! ### Strings -/

theorem hexDigit_spelled : ∀ n < 16, HexDigit n (hexDigit n) := by
  unfold HexDigit
  decide

/-- A number may be written by its four digits. -/
theorem numberEscape_fourDigits {n : Nat} (h : n < 0x10000) :
    NumberEscape n ('\\' :: 'u' :: fourDigits n) := by
  have hdigit (m : Nat) : HexDigit (m % 16) (hexDigit (m % 16)) :=
    hexDigit_spelled _ (Nat.mod_lt m (by decide))
  have hn : n / 0x1000 % 16 * 0x1000 + n / 0x100 % 16 * 0x100 + n / 0x10 % 16 * 0x10 + n % 16 =
      n := by omega
  have := NumberEscape.digits (hdigit (n / 0x1000)) (hdigit (n / 0x100)) (hdigit (n / 0x10))
    (hdigit n)
  rwa [hn] at this

theorem spelled_escapeChar (c : Char) : (Piece.char c).Spelled (escapeChar c) := by
  unfold escapeChar
  split_ifs with hquote hbackslash hb ht hn hf hr hcontrol
  · exact .short (by rw [hquote]; exact .quote)
  · exact .short (by rw [hbackslash]; exact .backslash)
  · exact .short (by rw [hb]; exact .backspace)
  · exact .short (by rw [ht]; exact .tab)
  · exact .short (by rw [hn]; exact .lineFeed)
  · exact .short (by rw [hf]; exact .formFeed)
  · exact .short (by rw [hr]; exact .carriageReturn)
  · exact .numbered (numberEscape_fourDigits (by omega))
  · exact .raw hquote hbackslash (Nat.le_of_not_lt hcontrol)

/-- The content of a string that can be written so that it is read again: its halves are halves, and
    no two of them make a pair. -/
structure Text.Writable (text : Text) : Prop where
  isHalf : ∀ code, Piece.half code ∈ text → IsFirstHalf code ∨ IsSecondHalf code
  joinPairs_eq : Piece.joinPairs text = text

/-- Characters alone can be written. -/
theorem Text.writable_ofString (s : String) : (Text.ofString s).Writable where
  isHalf code h := by
    obtain ⟨c, -, hc⟩ := List.mem_map.1 h
    cases hc
  joinPairs_eq := Text.joinPairs_map_char s.toList

theorem spelledOut_flatMap {text : Text}
    (h : ∀ code, Piece.half code ∈ text → IsFirstHalf code ∨ IsSecondHalf code) :
    SpelledOut text (text.flatMap escapePiece) := by
  induction text with
  | nil => exact .nil
  | cons p text ih =>
    rw [List.flatMap_cons]
    refine .cons ?_ (ih fun code hcode => h code (List.mem_cons_of_mem p hcode))
    cases p with
    | char c => exact spelled_escapeChar c
    | half code =>
      have hcode := h code List.mem_cons_self
      have hlt : code < 0x10000 := by
        rcases hcode with ⟨h₁, h₂⟩ | ⟨h₁, h₂⟩ <;> omega
      exact .half hcode (numberEscape_fourDigits hlt)

theorem spelled_writeText {text : Text} (h : text.Writable) :
    (Lexeme.string text).Spelled (writeText text) := by
  have hjoined := joined_joinPairs h.isHalf
  rw [h.joinPairs_eq] at hjoined
  exact .string (spelledOut_flatMap h.isHalf) hjoined

/-! ### Layout -/

namespace Printed

variable {ls : List Lexeme} {cs : List Char}

/-- A blank between lexemes. -/
theorem space (h : Printed ls cs) : Printed ls (' ' :: cs) :=
  .blank (by simp [IsBlank]) h

theorem replicate_blank (n : Nat) (h : Printed ls cs) :
    Printed ls (List.replicate n ' ' ++ cs) := by
  induction n with
  | zero => exact h
  | succ n ih => exact ih.space

/-- A line break separates lexemes. -/
theorem newline (depth : Nat) (h : Printed ls cs) : Printed ls (newline depth ++ cs) :=
  .blank (by simp [IsBlank]) (h.replicate_blank _)

/-- The name of a member with the colon and the blank behind it. -/
theorem name {text : Text} (htext : text.Writable) (h : Printed ls cs) :
    Printed (.string text :: .colon :: ls) (writeText text ++ ':' :: ' ' :: cs) :=
  .cons (spelled_writeText htext) (.cons .colon h.space)

end Printed

/-! ### Values -/

/-- A value whose numbers are spelled as numbers and whose strings can be written. -/
inductive Value.Writable : Value → Prop where
  | null : Writable .null
  | bool (b : Bool) : Writable (.bool b)
  | number {spelling : String} : IsNumber spelling.toList → Writable (.number spelling)
  | string {text : Text} : text.Writable → Writable (.string text)
  | array {items : List Value} : (∀ item ∈ items, item.Writable) → Writable (.array items)
  | object {members : List (Text × Value)} : (∀ member ∈ members, member.1.Writable) →
      (∀ member ∈ members, member.2.Writable) → Writable (.object members)

/-- At every depth and before every text, what is written of a value spells its lexemes. -/
def Value.Written (v : Value) : Prop :=
  ∀ (depth : Nat) (ls : List Lexeme) (cs : List Char), Printed ls cs →
    Printed (v.lexemes ++ ls) (v.write depth ++ cs)

theorem printed_writeItems {items : List Value} (hitems : ∀ item ∈ items, item.Written)
    (depth : Nat) {ls : List Lexeme} {cs : List Char} (h : Printed ls cs) :
    Printed (itemLexemes items ++ ls) (writeItems depth items ++ cs) := by
  induction items with
  | nil => exact h
  | cons item items ih =>
    have hrest := ih fun i hi => hitems i (List.mem_cons_of_mem item hi)
    simp only [itemLexemes, writeItems, List.cons_append, List.append_assoc]
    exact .cons .comma (.newline depth (hitems item List.mem_cons_self depth _ _ hrest))

theorem printed_writeMembers {members : List (Text × Value)}
    (hnames : ∀ member ∈ members, member.1.Writable)
    (hvalues : ∀ member ∈ members, member.2.Written) (depth : Nat) {ls : List Lexeme}
    {cs : List Char} (h : Printed ls cs) :
    Printed (memberLexemes members ++ ls) (writeMembers depth members ++ cs) := by
  induction members with
  | nil => exact h
  | cons member members ih =>
    have hrest := ih (fun m hm => hnames m (List.mem_cons_of_mem member hm))
      fun m hm => hvalues m (List.mem_cons_of_mem member hm)
    have hvalue := hvalues member List.mem_cons_self depth _ _ hrest
    simp only [memberLexemes, writeMembers, List.cons_append, List.append_assoc, List.nil_append]
    exact .cons .comma (.newline depth (.name (hnames member List.mem_cons_self) hvalue))

theorem Value.Writable.written {v : Value} (h : v.Writable) : v.Written := by
  induction h with
  | null => exact fun _ _ _ => .cons .null
  | bool b =>
    cases b with
    | true => exact fun _ _ _ => .cons .true
    | false => exact fun _ _ _ => .cons .false
  | @number spelling hspelling =>
    intro depth ls cs hcs
    have hnumber := Lexeme.Spelled.number hspelling
    rw [String.ofList_toList] at hnumber
    exact .cons hnumber hcs
  | string htext => exact fun _ _ _ => .cons (spelled_writeText htext)
  | @array items _ ih =>
    intro depth ls cs hcs
    cases items with
    | nil =>
      simp only [lexemes, write, List.cons_append, List.nil_append]
      exact .cons .openArray (.cons .closeArray hcs)
    | cons item items =>
      have hclose : Printed (.closeArray :: ls) (newline depth ++ (']' :: cs)) :=
        .newline depth (.cons .closeArray hcs)
      have hrest := printed_writeItems (fun i hi => ih i (List.mem_cons_of_mem item hi))
        (depth + 1) hclose
      simp only [lexemes, write, List.cons_append, List.append_assoc, List.nil_append]
      exact .cons .openArray (.newline _ (ih item List.mem_cons_self _ _ _ hrest))
  | @object members hnames _ ih =>
    intro depth ls cs hcs
    cases members with
    | nil =>
      simp only [lexemes, write, List.cons_append, List.nil_append]
      exact .cons .openObject (.cons .closeObject hcs)
    | cons member members =>
      have hclose : Printed (.closeObject :: ls) (newline depth ++ ('}' :: cs)) :=
        .newline depth (.cons .closeObject hcs)
      have hrest := printed_writeMembers (fun m hm => hnames m (List.mem_cons_of_mem member hm))
        (fun m hm => ih m (List.mem_cons_of_mem member hm)) (depth + 1) hclose
      have hvalue := ih member List.mem_cons_self (depth + 1) _ _ hrest
      simp only [lexemes, write, List.cons_append, List.append_assoc, List.nil_append]
      exact .cons .openObject (.newline _ (.name (hnames member List.mem_cons_self) hvalue))

/-- A value is printed by its text. -/
theorem Value.Writable.prints_render {v : Value} (h : v.Writable) : v.Prints v.render := by
  have hprinted := h.written 0 [] ['\n'] (.blank (by simp [IsBlank]) .nil)
  rw [List.append_nil] at hprinted
  rwa [Prints, render, String.toList_ofList]

/-- The text of a value is read as the value. -/
theorem Value.Writable.parse?_eq {v : Value} (h : v.Writable) :
    Value.parse? v.render = some v :=
  Value.parse?_of_prints h.prints_render

end EpsilonNfa.Json
