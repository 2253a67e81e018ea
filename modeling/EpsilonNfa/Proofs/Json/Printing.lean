import EpsilonNfa.Json.Context

/-!
The texts that print a JSON value. A value has its lexemes in one order, whatever the text; the text
spells them one after the other, with blanks between them as it likes:

    value      lexemes               text
    ["a", 0]   [  "a"  ,  0  ]       [ "\u0061",\n0]

A number has one spelling for each value here, since a value keeps it; a character of a string has
several. Between two lexemes no blank is needed, not even behind a number: what follows a number in
a value never continues it.

All of this is said by the grammar of JSON alone, without the tables of any reader.
-/

namespace EpsilonNfa.Json

/-! ### Characters of a string -/

/-- The four characters that may stand between lexemes. -/
def IsBlank (c : Char) : Prop :=
  c ∈ [' ', '\t', '\n', '\r']

/-- `ShortEscape d c`: a backslash and `d` stand for `c`. -/
inductive ShortEscape : Char → Char → Prop where
  | quote : ShortEscape '"' '"'
  | backslash : ShortEscape '\\' '\\'
  | slash : ShortEscape '/' '/'
  | backspace : ShortEscape 'b' '\x08'
  | formFeed : ShortEscape 'f' '\x0c'
  | lineFeed : ShortEscape 'n' '\n'
  | carriageReturn : ShortEscape 'r' '\r'
  | tab : ShortEscape 't' '\t'

/-- `HexDigit n d`: the character `d` is the hexadecimal digit `n`, in either case. -/
def HexDigit (n : Nat) (d : Char) : Prop :=
  "0123456789abcdef".toList[n]? = some d ∨ "0123456789ABCDEF".toList[n]? = some d

/-- `NumberEscape code cs`: inside a string, `cs` names the number `code` by four digits. -/
inductive NumberEscape : Nat → List Char → Prop where
  | digits {n₁ n₂ n₃ n₄ : Nat} {d₁ d₂ d₃ d₄ : Char} :
      HexDigit n₁ d₁ → HexDigit n₂ d₂ → HexDigit n₃ d₃ → HexDigit n₄ d₄ →
      NumberEscape (n₁ * 0x1000 + n₂ * 0x100 + n₃ * 0x10 + n₄) ['\\', 'u', d₁, d₂, d₃, d₄]

/-- The number of a first half of a surrogate pair. -/
def IsFirstHalf (code : Nat) : Prop :=
  0xd800 ≤ code ∧ code < 0xdc00

/-- The number of a second half of a surrogate pair. -/
def IsSecondHalf (code : Nat) : Prop :=
  0xdc00 ≤ code ∧ code < 0xe000

/-- `Piece.Spelled p cs`: inside a string, `cs` stands for the piece `p`. -/
inductive Piece.Spelled : Piece → List Char → Prop where
  /-- A character stands for itself, unless it is the quote, the backslash or a control. -/
  | raw {c : Char} : c ≠ '"' → c ≠ '\\' → 0x20 ≤ c.toNat → Spelled (.char c) [c]
  | short {c d : Char} : ShortEscape d c → Spelled (.char c) ['\\', d]
  | numbered {c : Char} {cs : List Char} : NumberEscape c.toNat cs → Spelled (.char c) cs
  /-- Half of a pair has no other spelling. -/
  | half {code : Nat} {cs : List Char} :
      IsFirstHalf code ∨ IsSecondHalf code → NumberEscape code cs → Spelled (.half code) cs

/-- `SpelledOut ps cs`: inside a string, `cs` stands for the pieces `ps`, one after the other. -/
inductive SpelledOut : List Piece → List Char → Prop where
  | nil : SpelledOut [] []
  | cons {p : Piece} {ps : List Piece} {xs ys : List Char} :
      p.Spelled xs → SpelledOut ps ys → SpelledOut (p :: ps) (xs ++ ys)

/-- `Joined ps text`: the pieces `ps` make the content `text`. A first half and a second half right
    behind it are one character there, and every other piece stays what it is. -/
inductive Joined : List Piece → Text → Prop where
  | nil : Joined [] []
  | char {c : Char} {ps : List Piece} {text : Text} :
      Joined ps text → Joined (.char c :: ps) (.char c :: text)
  | pair {high low : Nat} {c : Char} {ps : List Piece} {text : Text} :
      IsFirstHalf high → IsSecondHalf low →
      c.toNat = 0x10000 + (high - 0xd800) * 0x400 + (low - 0xdc00) →
      Joined ps text → Joined (.half high :: .half low :: ps) (.char c :: text)
  | half {code : Nat} {ps : List Piece} {text : Text} :
      (IsFirstHalf code → ∀ low, IsSecondHalf low → ps.head? ≠ some (.half low)) →
      Joined ps text → Joined (.half code :: ps) (.half code :: text)

/-! ### Spelling a lexeme -/

/-- One digit or more. -/
def IsDigits (cs : List Char) : Prop :=
  cs ≠ [] ∧ ∀ c ∈ cs, c.isDigit = true

/-- A whole number does not begin with a zero, but for zero itself. -/
def IsWhole (cs : List Char) : Prop :=
  cs = ['0'] ∨ IsDigits cs ∧ cs.head? ≠ some '0'

/-- A point and digits, or nothing. -/
def IsFraction (cs : List Char) : Prop :=
  cs = [] ∨ ∃ digits, IsDigits digits ∧ cs = '.' :: digits

/-- The letter of the exponent, a sign if there is one, and digits; or nothing. -/
def IsExponent (cs : List Char) : Prop :=
  cs = [] ∨ ∃ mark sign digits, mark ∈ ['e', 'E'] ∧ sign ∈ [[], ['+'], ['-']] ∧ IsDigits digits ∧
    cs = mark :: (sign ++ digits)

/-- The spelling of a number. -/
def IsNumber (cs : List Char) : Prop :=
  ∃ sign whole fraction exponent, sign ∈ [[], ['-']] ∧ IsWhole whole ∧ IsFraction fraction ∧
    IsExponent exponent ∧ cs = sign ++ (whole ++ (fraction ++ exponent))

/-- `Lexeme.Spelled l cs`: the characters `cs` spell the lexeme `l`. -/
inductive Lexeme.Spelled : Lexeme → List Char → Prop where
  | openArray : Spelled .openArray ['[']
  | closeArray : Spelled .closeArray [']']
  | openObject : Spelled .openObject ['{']
  | closeObject : Spelled .closeObject ['}']
  | comma : Spelled .comma [',']
  | colon : Spelled .colon [':']
  | string {ps : List Piece} {text : Text} {cs : List Char} :
      SpelledOut ps cs → Joined ps text → Spelled (.string text) ('"' :: (cs ++ ['"']))
  | null : Spelled (.word .null) ['n', 'u', 'l', 'l']
  | true : Spelled (.word (.bool true)) ['t', 'r', 'u', 'e']
  | false : Spelled (.word (.bool false)) ['f', 'a', 'l', 's', 'e']
  | number {cs : List Char} : IsNumber cs → Spelled (.word (.number (String.ofList cs))) cs

/-- `Printed ls cs`: the text `cs` spells the lexemes `ls`, with any blanks around them. -/
inductive Printed : List Lexeme → List Char → Prop where
  | nil : Printed [] []
  | blank {c : Char} {ls : List Lexeme} {cs : List Char} :
      IsBlank c → Printed ls cs → Printed ls (c :: cs)
  | cons {l : Lexeme} {ls : List Lexeme} {xs ys : List Char} :
      l.Spelled xs → Printed ls ys → Printed (l :: ls) (xs ++ ys)

/-! ### The lexemes of a value -/

mutual

/-- The lexemes of a value. -/
def Value.lexemes : Value → List Lexeme
  | .null => [.word .null]
  | .bool b => [.word (.bool b)]
  | .number spelling => [.word (.number spelling)]
  | .string text => [.string text]
  | .array [] => [.openArray, .closeArray]
  | .array (item :: items) =>
    .openArray :: (item.lexemes ++ (itemLexemes items ++ [.closeArray]))
  | .object [] => [.openObject, .closeObject]
  | .object ((name, value) :: members) =>
    .openObject :: .string name :: .colon ::
      (value.lexemes ++ (memberLexemes members ++ [.closeObject]))

/-- The lexemes of the items of an array after its first one. -/
def itemLexemes : List Value → List Lexeme
  | [] => []
  | item :: items => .comma :: (item.lexemes ++ itemLexemes items)

/-- The lexemes of the members of an object after its first one. -/
def memberLexemes : List (Text × Value) → List Lexeme
  | [] => []
  | (name, value) :: members =>
    .comma :: .string name :: .colon :: (value.lexemes ++ memberLexemes members)

end

/-- A text prints a value. -/
def Value.Prints (value : Value) (text : String) : Prop :=
  Printed value.lexemes text.toList

end EpsilonNfa.Json
