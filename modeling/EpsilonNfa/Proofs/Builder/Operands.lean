import EpsilonNfa.Proofs.Builder.Combinators

/-!
Combinators on operands of any shape: with states listed twice, and with mentions of states that are
not listed. What is moved is looked up state by state, so a move succeeds on closed operands and on
no others; but all its numbers are handed out before the first look-up, so the counter goes on by as
many in either case. Each combinator has one equation for all operands:

    concatenation   moves `right`; `left` is never looked at
    star            takes its own states, then moves `inner`
    alternation     takes its own states, then moves `upper`, and `lower` if `upper` could be moved

Where a state is listed twice, its last place counts.
-/

namespace EpsilonNfa

/-! ### Fresh numbers by place -/

/-- The last place where `i` is listed is `k`. -/
def LastAt (l : List Nat) (k i : Nat) : Prop :=
  l[k]? = some i ∧ ∀ j, k < j → l[j]? ≠ some i

theorem LastAt.cons {l : List Nat} {k i : Nat} (h : LastAt l k i) (a : Nat) :
    LastAt (a :: l) (k + 1) i := by
  refine ⟨by rw [List.getElem?_cons_succ, h.1], fun j hj => ?_⟩
  obtain ⟨j, rfl⟩ := Nat.exists_eq_add_of_lt hj
  rw [List.getElem?_cons_succ]
  exact h.2 _ (by omega)

theorem lastAt_zero {l : List Nat} {i : Nat} (h : i ∉ l) : LastAt (i :: l) 0 i := by
  refine ⟨rfl, fun j hj hmem => ?_⟩
  obtain ⟨j, rfl⟩ := Nat.exists_eq_add_of_lt hj
  rw [List.getElem?_cons_succ] at hmem
  exact h (List.mem_of_getElem? hmem)

theorem LastAt.eq {l : List Nat} {k k' i : Nat} (h : LastAt l k i) (h' : LastAt l k' i) :
    k = k' := by
  rcases lt_trichotomy k k' with hlt | heq | hgt
  · exact absurd h'.1 (h.2 k' hlt)
  · exact heq
  · exact absurd h.1 (h'.2 k hgt)

/-- The fresh number of a state counts from its last place in the list. -/
theorem exists_lastAt_of_freshId? {base : Nat} {ids : List Nat} {i fresh : Nat}
    (h : freshId? base ids i = some fresh) : ∃ k, LastAt ids k i ∧ fresh = base + k := by
  induction ids generalizing base with
  | nil => cases h
  | cons listed rest ih =>
    rw [freshId?] at h
    split at h
    · next later hlater =>
      cases h
      obtain ⟨k, hk, rfl⟩ := ih hlater
      exact ⟨k + 1, hk.cons listed, by omega⟩
    · next hnone =>
      have hrest : i ∉ rest := by
        rw [← @freshId?_isSome_iff (base + 1), hnone]
        exact Bool.false_ne_true
      split at h
      · next hlisted =>
        cases h
        subst hlisted
        exact ⟨0, lastAt_zero hrest, rfl⟩
      · cases h

namespace Fragment

/-! ### Moving a fragment, closed or not -/

instance decidableClosed (f : Fragment) : Decidable f.Closed :=
  decidable_of_iff
    (f.start ∈ f.ids ∧ (∀ i ∈ f.accept, i ∈ f.ids) ∧
      (∀ t ∈ f.transitions, t.source ∈ f.ids) ∧ ∀ t ∈ f.transitions, t.target ∈ f.ids)
    ⟨fun ⟨hstart, haccept, hsource, htarget⟩ => ⟨hstart, haccept, hsource, htarget⟩,
      fun ⟨hstart, haccept, hsource, htarget⟩ => ⟨hstart, haccept, hsource, htarget⟩⟩

variable {f : Fragment} {base : Nat}

/-- Where every look-up succeeds and only listed states have a number, every mention is listed. -/
theorem closed_of_translate? {fresh? : Nat → Option Nat} {g : Fragment}
    (hlisted : ∀ i, (fresh? i).isSome → i ∈ f.ids) (h : f.translate? fresh? = some g) :
    f.Closed := by
  obtain ⟨start, hstart, h⟩ := Option.bind_eq_some_iff.1 h
  obtain ⟨accept, haccept, h⟩ := Option.bind_eq_some_iff.1 h
  obtain ⟨states, -, h⟩ := Option.bind_eq_some_iff.1 h
  obtain ⟨transitions, hmoves, -⟩ := Option.bind_eq_some_iff.1 h
  have hends : ∀ t ∈ f.transitions, (fresh? t.source).isSome ∧ (fresh? t.target).isSome := by
    intro t ht
    obtain ⟨u, hu⟩ := Option.isSome_iff_exists.1 (isSome_of_mapM_eq_some hmoves t ht)
    obtain ⟨source, hsource, hu⟩ := Option.bind_eq_some_iff.1 hu
    obtain ⟨target, htarget, -⟩ := Option.bind_eq_some_iff.1 hu
    rw [hsource, htarget]
    exact ⟨rfl, rfl⟩
  exact {
    start_mem := hlisted f.start (by rw [hstart]; rfl)
    accept_mem := fun i hi => hlisted i (isSome_of_mapM_eq_some haccept i hi)
    source_mem := fun t ht => hlisted t.source (hends t ht).1
    target_mem := fun t ht => hlisted t.target (hends t ht).2 }

theorem relabel?_eq_ite : f.relabel? base = if f.Closed then some (f.moved base) else none := by
  split
  · next hf => exact relabel?_eq_moved hf
  · next hf =>
    rw [relabel?_eq, Option.eq_none_iff_forall_ne_some]
    intro g hg
    exact hf (closed_of_translate? (fun i => freshId?_isSome_iff.1) hg)

end Fragment

/-- The states that a star takes for itself. -/
def Flags.starStates (flags : Flags) : Nat :=
  if flags.sharedStar then 1 else 2

namespace Builder

/-! ### Equations for all operands -/

variable (b : Builder)

theorem relabel_eq_ite (f : Fragment) : b.relabel f =
    (if f.Closed then some (f.moved b.next) else none, b.advance f.states.length) := by
  rw [relabel, Fragment.relabel?_eq_ite]
  rfl

theorem concatenation_eq_ite (left right : Fragment) : b.concatenation left right =
    (if right.Closed then some (left.concatenate (right.moved b.next)) else none,
      b.advance right.states.length) := by
  rw [concatenation, relabel_eq_ite]
  split_ifs
  · rfl
  · rfl

theorem alternation_eq_ite (upper lower : Fragment) : b.alternation upper lower =
    (if upper.Closed ∧ lower.Closed then
        some (.alternate b.next (b.next + 1) (upper.moved (b.next + 2))
          (lower.moved (b.next + 2 + upper.states.length)))
      else none,
      b.advance (2 + upper.states.length + if upper.Closed then lower.states.length else 0)) := by
  by_cases hu : upper.Closed
  · by_cases hl : lower.Closed
    · rw [alternation_eq b hu hl, if_pos hu, if_pos ⟨hu, hl⟩]
    · simp only [alternation, fresh_eq, advance_advance, relabel_eq_ite, hu, hl, and_false, if_true,
        if_false]
  · simp only [alternation, fresh_eq, advance_advance, relabel_eq_ite, hu, false_and, if_false,
      Nat.add_zero]

/-- The rounds that a star makes of a closed operand. -/
def rounds (inner : Fragment) : Fragment :=
  if b.flags.sharedStar then .iterateShared b.next (inner.moved (b.next + 1))
  else .iterate b.next (b.next + 1) (inner.moved (b.next + 2))

theorem kleeneStar_eq_ite (inner : Fragment) : b.kleeneStar inner =
    (if inner.Closed then some (b.rounds inner) else none,
      b.advance (b.flags.starStates + inner.states.length)) := by
  cases hs : b.flags.sharedStar with
  | false =>
    by_cases hi : inner.Closed
    · simp [kleeneStar_eq b hs hi, hi, rounds, hs, Flags.starStates]
    · simp [kleeneStar, fresh_eq, advance_advance, relabel_eq_ite, hi, hs, Flags.starStates]
  | true =>
    by_cases hi : inner.Closed
    · simp [kleeneStar_eq_of_shared b hs hi, hi, rounds, hs, Flags.starStates]
    · simp [kleeneStar, fresh_eq, advance_advance, relabel_eq_ite, hi, hs, Flags.starStates]

/-! ### Failure and numbers -/

/-- Which operands make a combinator fail, and how many numbers it takes whether it fails or not.
    What is moved is renamed state by state, each to the fresh number of its last place in the list,
    so that different states stay different. -/
theorem combinators_on_any_operands (b : Builder) :
    (∀ left right, ((b.concatenation left right).1 = none ↔ ¬ right.Closed) ∧
      (b.concatenation left right).2 = b.advance right.states.length) ∧
    (∀ inner, ((b.kleeneStar inner).1 = none ↔ ¬ inner.Closed) ∧
      (b.kleeneStar inner).2 =
        b.advance ((if b.flags.sharedStar then 1 else 2) + inner.states.length)) ∧
    (∀ upper lower, ((b.alternation upper lower).1 = none ↔ ¬ upper.Closed ∨ ¬ lower.Closed) ∧
      (b.alternation upper lower).2 =
        b.advance (2 + upper.states.length + if upper.Closed then lower.states.length else 0)) ∧
    ∀ f g, (b.relabel f).1 = some g → ∃ σ : Nat → Nat, g = f.map σ ∧
      (∀ i ∈ f.ids, ∃ k, LastAt f.ids k i ∧ σ i = b.next + k) ∧
      ∀ p ∈ f.ids, ∀ q ∈ f.ids, σ p = σ q → p = q := by
  refine ⟨fun left right => ?_, fun inner => ?_, fun upper lower => ?_, fun f g h => ?_⟩
  · rw [concatenation_eq_ite]
    simp
  · rw [kleeneStar_eq_ite]
    simp [Flags.starStates]
  · rw [alternation_eq_ite]
    simp only [ite_eq_right_iff, reduceCtorEq, imp_false, not_and_or, true_and]
  · rw [relabel_eq_ite, Option.ite_none_right_eq_some] at h
    obtain ⟨-, h⟩ := h
    cases h
    refine ⟨freshId b.next f.ids, rfl, fun i hi => ?_, freshId_injective⟩
    exact exists_lastAt_of_freshId? (freshId?_eq_some b.next hi)

/-- An operand with an exit that it does not list can stand on the left of a concatenation and
    nowhere else; one that lists its start twice can be moved. -/
theorem combinators_on_any_operands_dangling :
    let b : Builder := ⟨{ sharedStar := true }, 6⟩
    let dangling : Fragment := { tangled with accept := [3, 9] }
    (b.concatenation dangling tangled).1 ≠ none ∧
    b.concatenation tangled dangling = (none, b.advance 3) ∧
    b.kleeneStar dangling = (none, b.advance 4) ∧
    b.alternation dangling tangled = (none, b.advance 5) ∧
    b.alternation tangled dangling = (none, b.advance 8) ∧
    ∃ g, (b.relabel tangled).1 = some g ∧ ∃ σ, g = tangled.map σ ∧ σ 3 = 8 ∧ σ 5 = 7 := by
  intro b dangling
  have hclosed : tangled.Closed := by decide
  have hopen : ¬ dangling.Closed := by decide
  obtain ⟨hconcatenation, hkleeneStar, halternation, hrelabel⟩ := combinators_on_any_operands b
  obtain ⟨g, hg⟩ : ∃ g, (b.relabel tangled).1 = some g := ⟨_, rfl⟩
  obtain ⟨σ, hmap, hfresh, -⟩ := hrelabel tangled g hg
  obtain ⟨k, hk, hthree⟩ := hfresh 3 (by decide)
  obtain ⟨j, hj, hfive⟩ := hfresh 5 (by decide)
  -- the fragment lists 3, 5, 3
  obtain rfl : k = 2 := hk.eq (((lastAt_zero List.not_mem_nil).cons 5).cons 3)
  obtain rfl : j = 1 := hj.eq ((lastAt_zero (by decide)).cons 3)
  refine ⟨fun h => ?_, ?_, ?_, ?_, ?_, g, hg, σ, hmap, hthree, hfive⟩
  · exact (hconcatenation dangling tangled).1.1 h hclosed
  · exact Prod.ext ((hconcatenation tangled dangling).1.2 hopen) (hconcatenation tangled dangling).2
  · exact Prod.ext ((hkleeneStar dangling).1.2 hopen) (hkleeneStar dangling).2
  · exact Prod.ext ((halternation dangling tangled).1.2 (.inl hopen))
      (halternation dangling tangled).2
  · exact Prod.ext ((halternation tangled dangling).1.2 (.inr hopen))
      (halternation tangled dangling).2

end Builder

end EpsilonNfa
