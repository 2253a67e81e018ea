import EpsilonNfa.Json.Context

/-!
Reading a JSON text. The reader takes one character at a time: between lexemes, inside a string,
inside a number or inside one of the literal names. A lexeme that is complete is passed to the
context. A number ends at the first character that does not continue it, and that character is then
read between lexemes.
-/

namespace EpsilonNfa.Json

/-- The four characters that may stand between lexemes. -/
def isBlank (c : Char) : Bool :=
  c = ' ' || c = '\t' || c = '\n' || c = '\r'

/-- The value of a hexadecimal digit in either case. -/
def hexValue? (c : Char) : Option Nat :=
  if c.isDigit then some (c.toNat - '0'.toNat)
  else if 'a' ≤ c ∧ c ≤ 'f' then some (c.toNat - 'a'.toNat + 10)
  else if 'A' ≤ c ∧ c ≤ 'F' then some (c.toNat - 'A'.toNat + 10)
  else none

/-- The character that a backslash and one character stand for. -/
def shortEscape? : Char → Option Char
  | '"' => some '"'
  | '\\' => some '\\'
  | '/' => some '/'
  | 'b' => some '\x08'
  | 'f' => some '\x0c'
  | 'n' => some '\n'
  | 'r' => some '\r'
  | 't' => some '\t'
  | _ => none

/-- How far a number has been read. -/
inductive NumberPhase where
  /-- The minus sign. -/
  | sign
  /-- A leading zero, which no digit may follow. -/
  | zero
  /-- Digits that do not begin with a zero. -/
  | integer
  /-- The decimal point. -/
  | point
  /-- Digits after the point. -/
  | fraction
  /-- The letter of the exponent. -/
  | mark
  /-- The sign of the exponent. -/
  | markSign
  /-- Digits of the exponent. -/
  | exponent
  deriving DecidableEq, Repr

namespace NumberPhase

/-- The phase of a number's first character. -/
def first? (c : Char) : Option NumberPhase :=
  if c = '-' then some sign
  else if c = '0' then some zero
  else if c.isDigit then some integer
  else none

/-- The phase after one character more, when the character continues the number. -/
def next? (phase : NumberPhase) (c : Char) : Option NumberPhase :=
  match phase with
  | sign => if c = '0' then some zero else if c.isDigit then some integer else none
  | zero => if c = '.' then some point else if c = 'e' ∨ c = 'E' then some mark else none
  | integer =>
    if c.isDigit then some integer
    else if c = '.' then some point
    else if c = 'e' ∨ c = 'E' then some mark
    else none
  | point => if c.isDigit then some fraction else none
  | fraction =>
    if c.isDigit then some fraction
    else if c = 'e' ∨ c = 'E' then some mark
    else none
  | mark =>
    if c = '+' ∨ c = '-' then some markSign
    else if c.isDigit then some exponent
    else none
  | markSign => if c.isDigit then some exponent else none
  | exponent => if c.isDigit then some exponent else none

/-- A number may end here. -/
def isEnd : NumberPhase → Bool
  | zero | integer | fraction | exponent => true
  | sign | point | mark | markSign => false

end NumberPhase

/-- Where in a text the reader is. Contents of lexemes come latest first. -/
inductive Reader where
  /-- Between lexemes. -/
  | between (context : Context)
  /-- Inside a string. -/
  | string (context : Context) (pieces : List Piece)
  /-- After a backslash. -/
  | escape (context : Context) (pieces : List Piece)
  /-- Among the digits of a numbered escape; `left` of them follow the next one. -/
  | numbered (context : Context) (pieces : List Piece) (left code : Nat)
  /-- Inside a number. -/
  | number (context : Context) (digits : List Char) (phase : NumberPhase)
  /-- Inside a literal name, of which `rest` is left. -/
  | name (context : Context) (rest : List Char) (value : Value)

namespace Reader

/-- The reader before the first character. -/
def start : Reader := between (.ready [])

/-- Passes a lexeme that is complete. -/
def pass (context : Context) (lexeme : Lexeme) : Option Reader :=
  (context.step lexeme).map between

/-- One character between lexemes. -/
def stepBetween (context : Context) (c : Char) : Option Reader :=
  if isBlank c then some (between context)
  else if c = '"' then some (string context [])
  else if c = 'n' then some (name context ['u', 'l', 'l'] .null)
  else if c = 't' then some (name context ['r', 'u', 'e'] (.bool true))
  else if c = 'f' then some (name context ['a', 'l', 's', 'e'] (.bool false))
  else
    match NumberPhase.first? c with
    | some phase => some (number context [c] phase)
    | none => (Lexeme.ofPunctuation? c).bind (pass context)

/-- The context after a number that has been read up to `phase`. -/
def finishNumber (context : Context) (digits : List Char) (phase : NumberPhase) :
    Option Context :=
  if phase.isEnd then context.step (.word (.number (String.ofList digits.reverse))) else none

/-- One character. -/
def step : Reader → Char → Option Reader
  | between context, c => stepBetween context c
  | string context pieces, c =>
    if c = '"' then pass context (.string (Piece.joinPairs pieces.reverse))
    else if c = '\\' then some (escape context pieces)
    else if c.toNat < 0x20 then none
    else some (string context (.char c :: pieces))
  | escape context pieces, c =>
    if c = 'u' then some (numbered context pieces 3 0)
    else (shortEscape? c).map fun d => string context (.char d :: pieces)
  | numbered context pieces left code, c =>
    (hexValue? c).map fun digit =>
      match left with
      | 0 => string context (Piece.ofCode (code * 16 + digit) :: pieces)
      | left + 1 => numbered context pieces left (code * 16 + digit)
  | number context digits phase, c =>
    match phase.next? c with
    | some phase => some (number context (c :: digits) phase)
    | none => (finishNumber context digits phase).bind (stepBetween · c)
  | name context rest value, c =>
    match rest with
    | [d] => if c = d then pass context (.word value) else none
    | d :: rest => if c = d then some (name context rest value) else none
    | [] => none

/-- The characters of a text, one by one. -/
def run (reader : Reader) : List Char → Option Reader
  | [] => some reader
  | c :: rest =>
    match reader.step c with
    | some reader => run reader rest
    | none => none

/-- The value that is complete when the text ends. -/
def finish : Reader → Option Value
  | between context => context.value?
  | number context digits phase => (finishNumber context digits phase).bind Context.value?
  | _ => none

end Reader

/-- The value of a JSON text; `none` when the text is no JSON. -/
def Value.parse? (text : String) : Option Value :=
  (Reader.start.run text.toList).bind Reader.finish

end EpsilonNfa.Json
