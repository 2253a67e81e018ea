import EpsilonNfa.Pattern.Token

/-!
Fragments of an automaton: numbered states, transitions between them, one start and any number of
accepting exits. A fragment is closed when it lists every state it mentions. The second half links
fragments that share no state:

    concatenate   left's exits ──ε──▶ right's start
    alternate     new start ──ε──▶ both starts,  all exits ──ε──▶ new exit
    iterate       new start ──ε──▶ inner's start, exits ──ε──▶ inner's start and the exit
-/

namespace EpsilonNfa

/-- A state: its number, and a name once it has one. -/
structure State where
  id : Nat
  name : Option String
  deriving DecidableEq, Repr

/-- A state without a name. -/
def State.unnamed (id : Nat) : State := ⟨id, none⟩

/-- A move from `source` to `target` that reads `symbol`. -/
structure Transition where
  source : Nat
  symbol : Symbol
  target : Nat
  deriving DecidableEq, Repr

/-- A silent move. -/
def Transition.silent (source target : Nat) : Transition := ⟨source, .epsilon, target⟩

/-- A piece of an automaton with one entry and any number of exits. -/
structure Fragment where
  start : Nat
  accept : List Nat
  states : List State
  transitions : List Transition
  deriving DecidableEq, Repr

namespace Fragment

/-- The numbers of the listed states, in order. -/
def ids (f : Fragment) : List Nat :=
  f.states.map State.id

/-- Every state that is mentioned is listed. -/
structure Closed (f : Fragment) : Prop where
  start_mem : f.start ∈ f.ids
  accept_mem : ∀ i ∈ f.accept, i ∈ f.ids
  source_mem : ∀ t ∈ f.transitions, t.source ∈ f.ids
  target_mem : ∀ t ∈ f.transitions, t.target ∈ f.ids

/-! ### Linking -/

/-- One state that is start and exit: it reads nothing. -/
def point (id : Nat) : Fragment :=
  ⟨id, [id], [.unnamed id], []⟩

/-- One state and no exit: it reads no word at all. -/
def blind (id : Nat) : Fragment :=
  ⟨id, [], [.unnamed id], []⟩

/-- Two states and the move between them. -/
def arrow (start exit : Nat) (symbol : Symbol) : Fragment :=
  ⟨start, [exit], [.unnamed start, .unnamed exit], [⟨start, symbol, exit⟩]⟩

/-- `left`, then `right`. -/
def concatenate (left right : Fragment) : Fragment where
  start := left.start
  accept := right.accept
  states := left.states ++ right.states
  transitions := left.transitions ++ right.transitions
    ++ left.accept.map fun exit => .silent exit right.start

/-- Either of two fragments, between a new start and a new exit. -/
def alternate (start exit : Nat) (upper lower : Fragment) : Fragment where
  start := start
  accept := [exit]
  states := .unnamed start :: .unnamed exit :: (upper.states ++ lower.states)
  transitions := .silent start upper.start :: .silent start lower.start
    :: (upper.transitions ++ lower.transitions
      ++ (upper.accept ++ lower.accept).map fun id => .silent id exit)

/-- Any number of rounds through `inner`, between a new start and a new exit. -/
def iterate (start exit : Nat) (inner : Fragment) : Fragment where
  start := start
  accept := [exit]
  states := .unnamed start :: .unnamed exit :: inner.states
  transitions := .silent start inner.start :: .silent start exit
    :: (inner.accept.flatMap (fun id => [.silent id inner.start, .silent id exit])
      ++ inner.transitions)

/-- Any number of rounds through `inner`, with one new state that is start and exit. -/
def iterateShared (start : Nat) (inner : Fragment) : Fragment where
  start := start
  accept := [start]
  states := .unnamed start :: inner.states
  transitions := .silent start inner.start
    :: (inner.accept.flatMap (fun id => [.silent id inner.start, .silent id start])
      ++ inner.transitions)

@[simp]
theorem ids_concatenate (left right : Fragment) :
    (left.concatenate right).ids = left.ids ++ right.ids := by
  simp [ids, concatenate]

@[simp]
theorem ids_alternate (start exit : Nat) (upper lower : Fragment) :
    (alternate start exit upper lower).ids = start :: exit :: (upper.ids ++ lower.ids) := by
  simp [ids, alternate, State.unnamed]

@[simp]
theorem ids_iterate (start exit : Nat) (inner : Fragment) :
    (iterate start exit inner).ids = start :: exit :: inner.ids := by
  simp [ids, iterate, State.unnamed]

@[simp]
theorem ids_iterateShared (start : Nat) (inner : Fragment) :
    (iterateShared start inner).ids = start :: inner.ids := by
  simp [ids, iterateShared, State.unnamed]

end Fragment

end EpsilonNfa
