import EpsilonNfa.Automaton.Search
import EpsilonNfa.OrderedSet

/-!
The finished automaton of a fragment. It keeps the states and transitions as they are listed, and
names the states that can be reached: `q0` is the start, and the others follow in the order in which
they are discovered. A number that is listed twice is looked up at its last place.
-/

namespace EpsilonNfa

/-- An automaton with silent moves, one start and any number of accepting states. `order` lists the
    states that can be reached from the start as they are discovered. -/
structure Automaton where
  start : Nat
  accept : List Nat
  states : List State
  transitions : List Transition
  order : List Nat
  deriving DecidableEq, Repr

/-- The name of the state that is discovered at `position`. -/
def stateName (position : Nat) : String :=
  "q" ++ position.repr

/-- The name of a state number by its place in the order of discovery. -/
def nameIn (order : List Nat) (id : Nat) : Option String :=
  (order.idxOf? id).map stateName

namespace Automaton

/-- The automaton of a fragment, its states named. -/
def ofFragment (f : Fragment) : Automaton :=
  let order := f.discovery
  { start := f.start
    accept := f.accept
    states := f.states.map fun state => ⟨state.id, nameIn order state.id⟩
    transitions := f.transitions
    order }

/-- The state with a number. -/
def state? (a : Automaton) (id : Nat) : Option State :=
  a.states.reverse.find? (·.id = id)

/-- The name of the state with a number. -/
def name? (a : Automaton) (id : Nat) : Option String :=
  (a.state? id).bind State.name

/-- The name of a state number as it is written, empty when there is none. -/
def label (a : Automaton) (id : Nat) : String :=
  (a.name? id).getD ""

/-- The states that can be reached, as they are discovered. -/
def orderedStates (a : Automaton) : List State :=
  a.order.filterMap a.state?

/-- The transitions of the states that can be reached, grouped by their source as it is discovered
    and in recorded order within a group. -/
def visitedTransitions (a : Automaton) : List Transition :=
  a.order.flatMap fun id => a.transitions.filter (·.source = id)

/-- The name of the start state as it is written. -/
def startName (a : Automaton) : String :=
  a.label a.start

/-- The names of the accepting states that have one, in the order of their listing. -/
def finalNames (a : Automaton) : List String :=
  a.accept.filterMap a.name?

/-- The letters on the transitions. -/
def alphabet (a : Automaton) : OrderedSet Char :=
  .ofList (a.transitions.filterMap fun t => t.symbol.letter?)

/-- A state number is accepting. -/
def isFinal (a : Automaton) (id : Nat) : Bool :=
  a.accept.contains id

/-- How many listed states are left when each discovered number takes one of them. -/
def surplus (a : Automaton) : Nat :=
  a.states.length - a.order.length

end Automaton

end EpsilonNfa
