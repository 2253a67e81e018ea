import EpsilonNfa.Automaton.Basic
import EpsilonNfa.Json.Decode
import EpsilonNfa.Json.Reader
import EpsilonNfa.Json.Writer

/-!
The table of an automaton: the names of its states, its letters, its moves and which states it
starts and accepts in. Only what can be reached from the start is listed. A table is written as a
JSON object with five members and read from one, or from an array of the five values.
-/

namespace EpsilonNfa

open Json

/-- A move between named states. -/
structure Move where
  source : String
  label : String
  target : String
  deriving DecidableEq, Repr

/-- An automaton over names. -/
structure Table where
  states : List String
  letters : OrderedSet String
  moves : List Move
  starts : List String
  finals : List String
  deriving DecidableEq

/-- What a silent move is labelled with. No pattern has this letter. -/
def silentLabel : String := "$"

/-- The label of a move. -/
def Symbol.label : Symbol → String
  | letter c => String.singleton c
  | epsilon => silentLabel

namespace Table

/-- The table of an automaton. -/
def ofAutomaton (a : Automaton) : Table where
  states := a.orderedStates.filterMap State.name
  letters := .ofList (a.alphabet.toList.map String.singleton)
  moves := a.visitedTransitions.map fun t => ⟨a.label t.source, t.symbol.label, a.label t.target⟩
  starts := [a.startName]
  finals := a.finalNames

/-! ### Writing -/

/-- A move as an array of its source, its label and its target. -/
def moveValue (move : Move) : Value :=
  .ofStrings [move.source, move.label, move.target]

/-- The names of the members, in the order in which they are written. -/
def memberNames : List String :=
  ["states", "letters", "transition_function", "start_states", "final_states"]

/-- The values of the members, in the same order. -/
def memberValues (table : Table) : List Value :=
  [.ofStrings table.states, .ofStrings table.letters.toList,
    .array (table.moves.map moveValue), .ofStrings table.starts, .ofStrings table.finals]

/-- The table as a JSON object. -/
def toValue (table : Table) : Value :=
  .object ((memberNames.map Text.ofString).zip table.memberValues)

/-- The text of a table. -/
def render (table : Table) : String :=
  table.toValue.render

/-! ### Reading -/

/-- The move of an array of three strings. -/
def move? (value : Value) : Option Move :=
  match value.strings? with
  | some [source, label, target] => some ⟨source, label, target⟩
  | _ => none

/-- The table of the five values, in the order of the member names. -/
def ofMemberValues? : List Value → Option Table
  | [states, letters, moves, starts, finals] => do
    return {
      states := ← states.strings?
      letters := .ofList (← letters.strings?)
      moves := ← (← moves.items?).mapM move?
      starts := ← starts.strings?
      finals := ← finals.strings?
    }
  | _ => none

/-- The table that a JSON value is. Members with other names do not matter. -/
def ofValue? : Value → Option Table
  | .array items => ofMemberValues? items
  | .object members => do
    let members ← namedMembers? members
    ofMemberValues? (← memberNames.mapM (only? members))
  | _ => none

/-- The table that a text holds. -/
def parse? (text : String) : Option Table :=
  (Value.parse? text).bind ofValue?

end Table

end EpsilonNfa
