import EpsilonNfa.Json.Value

/-!
Looking into a JSON value: the string, the items or the members that it holds.
-/

namespace EpsilonNfa.Json

namespace Value

/-- The string that a value is, if it spells one. -/
def text? : Value → Option String
  | string text => text.toString?
  | _ => none

theorem text?_string_ofString (s : String) : (string (.ofString s)).text? = some s :=
  Text.toString?_ofString s

/-- The items of an array. -/
def items? : Value → Option (List Value)
  | array items => some items
  | _ => none

/-- The strings of an array of strings. -/
def strings? (value : Value) : Option (List String) :=
  value.items?.bind (·.mapM text?)

/-- The array of some strings. -/
def ofStrings (strings : List String) : Value :=
  array (strings.map fun s => string (.ofString s))

theorem mapM_text? (strings : List String) :
    (strings.map fun s => string (.ofString s)).mapM text? = some strings :=
  mapM_map_of_forall fun s _ => text?_string_ofString s

@[simp]
theorem strings?_ofStrings (strings : List String) :
    (ofStrings strings).strings? = some strings :=
  mapM_text? strings

end Value

/-- Members with their names as strings; `none` when a name spells none. -/
def namedMembers? (members : List (Text × Value)) : Option (List (String × Value)) :=
  members.mapM fun member => return (← member.1.toString?, member.2)

/-- The values of the members with one name, in order. -/
def valuesOf (name : String) (members : List (String × Value)) : List Value :=
  (members.filter (·.1 = name)).map Prod.snd

/-- The value of the only member with a name. -/
def only? (members : List (String × Value)) (name : String) : Option Value :=
  match valuesOf name members with
  | [value] => some value
  | _ => none

end EpsilonNfa.Json
