import EpsilonNfa.Json.Value

/-!
Writing a JSON value over several lines. Items and members stand on lines of their own, indented by
two blanks for each container around them; an empty container is written without a line break.
Inside a string only the quote, the backslash and the controls below U+0020 are escaped.
-/

namespace EpsilonNfa.Json

/-- The digit of a number below 16 in lower case. -/
def hexDigit (n : Nat) : Char :=
  Nat.digitChar n

/-- Four hexadecimal digits. -/
def fourDigits (n : Nat) : List Char :=
  [hexDigit (n / 0x1000 % 16), hexDigit (n / 0x100 % 16), hexDigit (n / 0x10 % 16),
    hexDigit (n % 16)]

/-- A character inside a string. -/
def escapeChar (c : Char) : List Char :=
  if c = '"' then ['\\', '"']
  else if c = '\\' then ['\\', '\\']
  else if c = '\x08' then ['\\', 'b']
  else if c = '\t' then ['\\', 't']
  else if c = '\n' then ['\\', 'n']
  else if c = '\x0c' then ['\\', 'f']
  else if c = '\r' then ['\\', 'r']
  else if c.toNat < 0x20 then '\\' :: 'u' :: fourDigits c.toNat
  else [c]

/-- A piece inside a string; half of a pair is always written by its number. -/
def escapePiece : Piece → List Char
  | .char c => escapeChar c
  | .half code => '\\' :: 'u' :: fourDigits code

/-- A string between quotes. -/
def writeText (text : Text) : List Char :=
  '"' :: text.flatMap escapePiece ++ ['"']

/-- The line break before something inside `depth` containers. -/
def newline (depth : Nat) : List Char :=
  '\n' :: List.replicate (2 * depth) ' '

mutual

/-- A value inside `depth` containers. -/
def Value.write (depth : Nat) : Value → List Char
  | .null => ['n', 'u', 'l', 'l']
  | .bool true => ['t', 'r', 'u', 'e']
  | .bool false => ['f', 'a', 'l', 's', 'e']
  | .number spelling => spelling.toList
  | .string text => writeText text
  | .array [] => ['[', ']']
  | .array (item :: items) =>
    '[' :: newline (depth + 1) ++ item.write (depth + 1) ++ writeItems (depth + 1) items
      ++ newline depth ++ [']']
  | .object [] => ['{', '}']
  | .object ((name, value) :: members) =>
    '{' :: newline (depth + 1) ++ writeText name ++ [':', ' '] ++ value.write (depth + 1)
      ++ writeMembers (depth + 1) members ++ newline depth ++ ['}']

/-- The items of an array after its first one. -/
def writeItems (depth : Nat) : List Value → List Char
  | [] => []
  | item :: items => ',' :: newline depth ++ item.write depth ++ writeItems depth items

/-- The members of an object after its first one. -/
def writeMembers (depth : Nat) : List (Text × Value) → List Char
  | [] => []
  | (name, value) :: members =>
    ',' :: newline depth ++ writeText name ++ [':', ' '] ++ value.write depth
      ++ writeMembers depth members

end

/-- The text of a value, ended by a line break. -/
def Value.render (value : Value) : String :=
  String.ofList (value.write 0 ++ ['\n'])

end EpsilonNfa.Json
