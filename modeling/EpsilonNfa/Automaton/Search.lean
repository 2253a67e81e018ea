import EpsilonNfa.Fragment.Basic

/-!
The order in which the states of a fragment are discovered from its start, breadth first. The order
is one list that grows at its end while a cursor moves over it: the state under the cursor adds the
targets of its transitions, in recorded order, that are not yet listed. The search ends because
every number that is added is the target of a transition and no longer waits to be added.
-/

namespace EpsilonNfa

/-- The targets of the transitions that leave `id`, in recorded order. -/
def successors (transitions : List Transition) (id : Nat) : List Nat :=
  (transitions.filter (·.source = id)).map Transition.target

/-- Lists the numbers, one after the other, that are not yet listed. -/
def enlist (order : List Nat) : List Nat → List Nat
  | [] => order
  | id :: rest => enlist (if id ∈ order then order else order ++ [id]) rest

/-- How many transitions lead to a number that is not yet listed. -/
def unlisted (transitions : List Transition) (order : List Nat) : Nat :=
  transitions.countP fun t => t.target ∉ order

theorem length_le_enlist (order new : List Nat) : order.length ≤ (enlist order new).length := by
  induction new generalizing order with
  | nil => simp [enlist]
  | cons id rest ih =>
    rw [enlist]
    refine Nat.le_trans ?_ (ih _)
    split <;> simp

theorem unlisted_append_le (transitions : List Transition) (order : List Nat) (id : Nat) :
    unlisted transitions (order ++ [id]) ≤ unlisted transitions order := by
  refine List.countP_mono_left fun t _ ht => ?_
  simp only [List.mem_append, not_or, decide_eq_true_eq] at ht ⊢
  exact ht.1

/-- A target that is added to the list is no longer waited for. -/
theorem unlisted_append_lt {transitions : List Transition} {order : List Nat} {t : Transition}
    (ht : t ∈ transitions) (hnew : t.target ∉ order) :
    unlisted transitions (order ++ [t.target]) < unlisted transitions order := by
  obtain ⟨before, after, rfl⟩ := List.append_of_mem ht
  have h1 := unlisted_append_le before order t.target
  have h2 := unlisted_append_le after order t.target
  simp only [unlisted, List.countP_append, List.countP_cons, hnew, not_false_eq_true,
    decide_true, if_true, List.mem_append, List.mem_singleton, or_true, not_true_eq_false,
    decide_false, Bool.false_eq_true, if_false] at h1 h2 ⊢
  omega

theorem unlisted_enlist_le {transitions : List Transition} (order new : List Nat)
    (hnew : ∀ id ∈ new, ∃ t ∈ transitions, t.target = id) :
    unlisted transitions (enlist order new) + (enlist order new).length
      ≤ unlisted transitions order + order.length := by
  induction new generalizing order with
  | nil => simp [enlist]
  | cons id rest ih =>
    rw [enlist]
    refine Nat.le_trans (ih _ fun i hi => hnew i (List.mem_cons_of_mem _ hi)) ?_
    split
    · exact Nat.le_refl _
    · next hid =>
      obtain ⟨t, ht, rfl⟩ := hnew id List.mem_cons_self
      have := unlisted_append_lt ht hid
      simp only [List.length_append, List.length_cons, List.length_nil]
      omega

theorem exists_of_mem_successors {transitions : List Transition} {id target : Nat}
    (h : target ∈ successors transitions id) : ∃ t ∈ transitions, t.target = target := by
  obtain ⟨t, ht, rfl⟩ := List.mem_map.1 h
  exact ⟨t, (List.mem_filter.1 ht).1, rfl⟩

/-- The order as the search leaves it, from the cursor on. -/
def explore (transitions : List Transition) (order : List Nat) (cursor : Nat) : List Nat :=
  if h : cursor < order.length then
    explore transitions (enlist order (successors transitions order[cursor])) (cursor + 1)
  else order
termination_by 2 * unlisted transitions order + (order.length - cursor)
decreasing_by
  have h1 := unlisted_enlist_le order
    (successors transitions order[cursor]) fun _ hid => exists_of_mem_successors hid
  have h2 := length_le_enlist order (successors transitions order[cursor])
  omega

/-- The states that can be reached from the start, in the order in which they are discovered. -/
def Fragment.discovery (f : Fragment) : List Nat :=
  explore f.transitions [f.start] 0

end EpsilonNfa
