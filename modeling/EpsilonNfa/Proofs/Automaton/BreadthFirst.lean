import EpsilonNfa.Proofs.Automaton.Naming
import Mathlib.Data.Prod.Lex
import Mathlib.Order.Lattice.Nat

/-!
The order of discovery, told without the search. Following the states of the order one after the
other, the search meets the targets of their transitions; behind the start, everything stands in the
order in which it is met first:

    order     s₀             s₁             s₂             …
    targets   t₀₀ t₀₁ …   │  t₁₀ t₁₁ …   │  t₂₀ t₂₁ …   │  …
              └ origin (0, 0)            └ origin (2, 0)

A state of the order and one of its transitions say where another state is met, its `origin`, and
origins are compared by the state first. Near states come before far ones, because the state that
a walk of one transition less leads to is met before.
-/

namespace EpsilonNfa

/-! ### Distances -/

/-- A walk of `n` transitions leads from `p` to `q`. -/
inductive ReachesIn (ts : List Transition) (p : Nat) : Nat → Nat → Prop where
  | zero : ReachesIn ts p 0 p
  | succ {n : Nat} {t : Transition} :
      ReachesIn ts p n t.source → t ∈ ts → ReachesIn ts p (n + 1) t.target

/-- The least number of transitions on a walk, for states that a walk leads to. -/
noncomputable def distance (ts : List Transition) (p q : Nat) : Nat :=
  sInf {n | ReachesIn ts p n q}

variable {ts : List Transition} {p q n : Nat}

theorem ReachesIn.reaches (h : ReachesIn ts p n q) : Reaches ts p q := by
  induction h with
  | zero => exact .refl ts p
  | succ _ ht ih => exact ih.trans (.single ht)

/-- The first of some states that has a transition to `id`. -/
def parent? (ts : List Transition) (order : List Nat) (id : Nat) : Option Nat :=
  order.find? fun p => id ∈ successors ts p

/-- The place of the first of some states that has a transition to `id`. -/
def parentPlace (ts : List Transition) (order : List Nat) (id : Nat) : Nat :=
  order.findIdx fun p => id ∈ successors ts p

/-- The place of the first transition to `id` among the transitions of its parent. -/
def slot (ts : List Transition) (order : List Nat) (id : Nat) : Nat :=
  ((parent? ts order id).map fun parent => (successors ts parent).idxOf id).getD 0

/-- Where a state is met first: the place of its parent, and then the slot there. -/
def origin (ts : List Transition) (order : List Nat) (id : Nat) : Nat ×ₗ Nat :=
  toLex (parentPlace ts order id, slot ts order id)

variable {order : List Nat} {i j : Nat}

variable {new : List Nat} {start cursor : Nat}

/-- An order of the states that walks from `start` lead to: near ones first, and those that are
    equally near in the order in which they are met. -/
structure BreadthFirst (ts : List Transition) (start : Nat) (order : List Nat) : Prop where
  begins : ∃ rest, order = start :: rest
  nodup : order.Nodup
  mem_iff : ∀ i, i ∈ order ↔ Reaches ts start i
  nearest_first : order.Pairwise fun p q => distance ts start p ≤ distance ts start q
  parent_before : ∀ i ∈ order, i ≠ start → parentPlace ts order i < order.idxOf i
  by_origin : ∀ i ∈ order, ∀ j ∈ order, i ≠ start → j ≠ start →
    (order.idxOf i < order.idxOf j ↔ origin ts order i < origin ts order j)

namespace BreadthFirst

variable {known rest rest' : List Nat}

theorem parentPlace_known (h : parentPlace ts (known ++ rest) i < known.length) :
    parentPlace ts known i < known.length := by
  rw [parentPlace, List.findIdx_append] at h
  split at h
  · exact h
  · omega

/-- The parent of a state among the first ones stays its parent. -/
theorem origin_append (h : parentPlace ts known i < known.length) :
    origin ts (known ++ rest) i = origin ts known i := by
  have hplace : parentPlace ts (known ++ rest) i = parentPlace ts known i := by
    rw [parentPlace, List.findIdx_append]
    exact if_pos h
  have hparent : parent? ts (known ++ rest) i = parent? ts known i := by
    have hsome : (parent? ts known i).isSome := List.find?_isSome.2 (List.findIdx_lt_length.1 h)
    rw [parent?, List.find?_append, ← parent?, Option.or_of_isSome hsome]
  rw [origin, origin, hplace, slot, slot, hparent]

/-- What comes next has its parent among the states before it, and the least origin of all that
    have. -/
theorem next (h : BreadthFirst ts start (known ++ i :: rest)) (hstart : start ∈ known) :
    parentPlace ts known i < known.length ∧
      ∀ j ∈ known ++ i :: rest, j ∉ known → i ≠ j → parentPlace ts known j < known.length →
        origin ts known i < origin ts known j := by
  have hi : i ∉ known := fun hmem => List.disjoint_of_nodup_append h.nodup hmem List.mem_cons_self
  have hmem : i ∈ known ++ i :: rest := List.mem_append_right _ List.mem_cons_self
  have hne {j : Nat} (hj : j ∉ known) : j ≠ start := fun heq => hj (heq ▸ hstart)
  have hplace : (known ++ i :: rest).idxOf i = known.length := by
    rw [List.idxOf_append_of_notMem hi, List.idxOf_cons_self, Nat.add_zero]
  have hparent : parentPlace ts known i < known.length :=
    parentPlace_known (hplace ▸ h.parent_before i hmem (hne hi))
  refine ⟨hparent, fun j hmemj hj hij hparentj => ?_⟩
  have hlater : (known ++ i :: rest).idxOf i < (known ++ i :: rest).idxOf j := by
    rw [hplace, List.idxOf_append_of_notMem hj, List.idxOf_cons_ne _ hij]
    omega
  rwa [h.by_origin i hmem j hmemj (hne hi) (hne hj), origin_append hparent,
    origin_append hparentj] at hlater

end BreadthFirst

namespace Fragment

variable (f : Fragment)

variable {f}

end Fragment

/-- Of the states that two transitions away are met, 5 comes first because its parent does. -/
example :
    Fragment.discovery ⟨0, [], [],
      [⟨1, .epsilon, 3⟩, ⟨0, .epsilon, 2⟩, ⟨0, .letter 'a', 1⟩, ⟨2, .epsilon, 0⟩,
        ⟨2, .letter 'b', 5⟩, ⟨1, .letter 'c', 5⟩]⟩ = [0, 2, 1, 5, 3] := by
  decide +kernel

end EpsilonNfa
