import EpsilonNfa.Json.Decode
import EpsilonNfa.Json.Reader

/-!
The request that an input file holds: the pattern to compile. It is an object with a member `regex`,
or an array of at most one item; a request that gives no pattern, or null, asks for the empty one.
-/

namespace EpsilonNfa

open Json

/-- What is asked for. -/
structure Request where
  pattern? : Option String
  deriving DecidableEq, Repr

namespace Request

/-- The pattern to compile. -/
def pattern (request : Request) : String :=
  request.pattern?.getD ""

/-- The request with the pattern that a value gives: a string, or null for none. -/
def ofPattern? : Value → Option Request
  | .null => some ⟨none⟩
  | value => value.text?.map fun pattern => ⟨some pattern⟩

/-- The request of a list that holds its pattern or nothing. -/
def ofValues? : List Value → Option Request
  | [] => some ⟨none⟩
  | [value] => ofPattern? value
  | _ => none

/-- The request that a JSON value is. Members with other names do not matter. -/
def ofValue? : Value → Option Request
  | .array items => ofValues? items
  | .object members => (namedMembers? members).bind fun members =>
    ofValues? (valuesOf "regex" members)
  | _ => none

/-- The request that a text holds. -/
def parse? (text : String) : Option Request :=
  (Value.parse? text).bind ofValue?

end Request

end EpsilonNfa
