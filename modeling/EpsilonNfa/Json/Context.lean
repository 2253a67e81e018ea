import EpsilonNfa.Json.Value

/-!
The grammar of JSON on lexemes. A context says what has been read of the outermost value and what
may come next. The containers that are open are kept in a stack, the innermost first, so a context
takes one lexeme at a time and values may nest to any depth.
-/

namespace EpsilonNfa.Json

/-- The smallest units of a JSON text that are not blank. -/
inductive Lexeme where
  | openArray
  | closeArray
  | openObject
  | closeObject
  | comma
  | colon
  | string (text : Text)
  /-- A value that is a single word: a literal name or a number. -/
  | word (value : Value)

/-- The lexeme of a punctuation character. -/
def Lexeme.ofPunctuation? : Char → Option Lexeme
  | '[' => some openArray
  | ']' => some closeArray
  | '{' => some openObject
  | '}' => some closeObject
  | ',' => some comma
  | ':' => some colon
  | _ => none

/-- A container that waits for the value that is being read; its content comes latest first. -/
inductive Frame where
  | array (items : List Value)
  | object (members : List (Text × Value)) (name : Text)

/-- What may come next, within the open containers. -/
inductive Context where
  /-- A value. -/
  | ready (stack : List Frame)
  /-- The first item of an array, or its end. -/
  | firstItem (stack : List Frame)
  /-- A comma before a further item, or the end of the array. -/
  | nextItem (items : List Value) (stack : List Frame)
  /-- The first name of an object, or its end. -/
  | firstName (stack : List Frame)
  /-- A further name. -/
  | nextName (members : List (Text × Value)) (stack : List Frame)
  /-- The colon after a name. -/
  | colon (members : List (Text × Value)) (name : Text) (stack : List Frame)
  /-- A comma before a further member, or the end of the object. -/
  | nextMember (members : List (Text × Value)) (stack : List Frame)
  /-- Nothing: the outermost value is complete. -/
  | complete (value : Value)

namespace Context

/-- The context after a value that is complete. -/
def close (value : Value) : List Frame → Context
  | [] => complete value
  | .array items :: stack => nextItem (value :: items) stack
  | .object members name :: stack => nextMember ((name, value) :: members) stack

/-- The context after the lexeme that a value begins with. -/
def begin (stack : List Frame) : Lexeme → Option Context
  | .openArray => some (firstItem stack)
  | .openObject => some (firstName stack)
  | .string text => some (close (.string text) stack)
  | .word value => some (close value stack)
  | _ => none

/-- The context after a lexeme; `none` when the lexeme may not come here. -/
def step : Context → Lexeme → Option Context
  | ready stack, lexeme => begin stack lexeme
  | firstItem stack, .closeArray => some (close (.array []) stack)
  | firstItem stack, lexeme => begin (.array [] :: stack) lexeme
  | nextItem items stack, .comma => some (ready (.array items :: stack))
  | nextItem items stack, .closeArray => some (close (.array items.reverse) stack)
  | firstName stack, .closeObject => some (close (.object []) stack)
  | firstName stack, .string name => some (colon [] name stack)
  | nextName members stack, .string name => some (colon members name stack)
  | colon members name stack, .colon => some (ready (.object members name :: stack))
  | nextMember members stack, .comma => some (nextName members stack)
  | nextMember members stack, .closeObject => some (close (.object members.reverse) stack)
  | _, _ => none

/-- The value of a context in which the outermost value is complete. -/
def value? : Context → Option Value
  | complete value => some value
  | _ => none

end Context

end EpsilonNfa.Json
