import EpsilonNfa.Fragment.Builder
import EpsilonNfa.Proofs.Fragment.WellFormed

/-!
What each combinator of a builder gives. On closed operands it succeeds, and its result is a link of
the operands moved to fresh numbers; how far the counter goes depends on the number of listed states
alone. From that follow, one statement for each combinator, the numbers and the language of the
result.

For the language it does not matter whether the operands list states twice or share them: what is
moved lies on numbers from the counter on,

    concatenation   left | right'
    alternation     start, exit | upper' | lower'
    star            start, exit | inner'

and only the left operand of a concatenation, which stays, has to lie below them.
-/

namespace EpsilonNfa

open Computability

namespace Fragment

variable {left right upper lower inner : Fragment} {base i : Nat}

/-! ### Languages of links of moved operands -/

theorem notMem_ids_moved {f : Fragment} (h : i < base) : i ∉ (f.moved base).ids := by
  intro hi
  have := (bounds_of_mem_moved hi).1
  omega

theorem disjoint_ids_moved (h : ∀ i ∈ left.ids, i < base) :
    left.ids.Disjoint (right.moved base).ids :=
  fun i hleft hright => notMem_ids_moved (h i hleft) hright

theorem language_concatenate_moved (hl : left.Closed) (hr : right.Closed)
    (h : ∀ i ∈ left.ids, i < base) :
    (left.concatenate (right.moved base)).language = left.language * right.language := by
  rw [language_concatenate hl hr.moved (disjoint_ids_moved h), language_moved hr]

theorem language_alternate_moved (hu : upper.Closed) (hl : lower.Closed) :
    (alternate base (base + 1) (upper.moved (base + 2))
      (lower.moved (base + 2 + upper.states.length))).language
        = upper.language + lower.language := by
  have hnew {i : Nat} (hi : i < base + 2) : i ∉ (upper.moved (base + 2)).ids
      ++ (lower.moved (base + 2 + upper.states.length)).ids := by
    rw [List.mem_append, not_or]
    exact ⟨notMem_ids_moved hi, notMem_ids_moved (by omega)⟩
  rw [language_alternate hu.moved hl.moved
    (disjoint_ids_moved fun i hi => (bounds_of_mem_moved hi).2) (by omega) (hnew (by omega))
    (hnew (by omega)), language_moved hu, language_moved hl]

theorem language_iterate_moved (hi : inner.Closed) :
    (iterate base (base + 1) (inner.moved (base + 2))).language = inner.language∗ := by
  rw [language_iterate hi.moved (notMem_ids_moved (by omega)) (notMem_ids_moved (by omega)),
    language_moved hi]

theorem language_iterateShared_moved (hi : inner.Closed) :
    (iterateShared base (inner.moved (base + 1))).language = inner.language∗ := by
  rw [language_iterateShared hi.moved (notMem_ids_moved (by omega)), language_moved hi]

end Fragment

namespace Builder

/-- A builder that has handed out `n` more numbers. -/
def advance (b : Builder) (n : Nat) : Builder :=
  { b with next := b.next + n }

variable (b : Builder) {left right upper lower inner : Fragment}

@[simp]
theorem next_advance (n : Nat) : (b.advance n).next = b.next + n := rfl

@[simp]
theorem flags_advance (n : Nat) : (b.advance n).flags = b.flags := rfl

theorem advance_advance (m n : Nat) : (b.advance m).advance n = b.advance (m + n) := by
  simp [advance, Nat.add_assoc]

theorem fresh_eq : b.fresh = (b.next, b.advance 1) := rfl

theorem relabel_eq {f : Fragment} (hf : f.Closed) :
    b.relabel f = (some (f.moved b.next), b.advance f.states.length) := by
  rw [relabel, Fragment.relabel?_eq_moved hf]
  rfl

/-! ### Equations -/

theorem empty_eq : b.empty =
    (if b.flags.emptyLanguage then .blind b.next else .point b.next, b.advance 1) := rfl

theorem literal_epsilon : b.literal .epsilon = (.point b.next, b.advance 1) := rfl

theorem literal_letter (c : Char) :
    b.literal (.letter c) = (.arrow b.next (b.next + 1) (.letter c), b.advance 2) := rfl

theorem concatenation_eq (hr : right.Closed) : b.concatenation left right =
    (some (left.concatenate (right.moved b.next)), b.advance right.states.length) := by
  rw [concatenation, relabel_eq b hr]

theorem alternation_eq (hu : upper.Closed) (hl : lower.Closed) : b.alternation upper lower =
    (some (.alternate b.next (b.next + 1) (upper.moved (b.next + 2))
      (lower.moved (b.next + 2 + upper.states.length))),
      b.advance (2 + upper.states.length + lower.states.length)) := by
  simp only [alternation, fresh_eq, advance_advance, relabel_eq _ hu, relabel_eq _ hl, next_advance]
  rw [← Nat.add_assoc b.next 2]

theorem kleeneStar_eq (hs : b.flags.sharedStar = false) (hi : inner.Closed) : b.kleeneStar inner =
    (some (.iterate b.next (b.next + 1) (inner.moved (b.next + 2))),
      b.advance (2 + inner.states.length)) := by
  simp [kleeneStar, fresh_eq, advance_advance, relabel_eq _ hi, hs]

theorem kleeneStar_eq_of_shared (hs : b.flags.sharedStar = true) (hi : inner.Closed) :
    b.kleeneStar inner =
      (some (.iterateShared b.next (inner.moved (b.next + 1))),
        b.advance (1 + inner.states.length)) := by
  simp [kleeneStar, fresh_eq, advance_advance, relabel_eq _ hi, hs]

/-! ### Numbers and languages

A result lies on fresh numbers, except for the left operand of a concatenation. -/

theorem literal_spec (s : Symbol) : ∃ f n, b.literal s = (f, b.advance n) ∧
    f.Within b.next (b.next + n) ∧ f.language = {s.word} := by
  cases s with
  | letter c =>
    refine ⟨_, _, b.literal_letter c, Fragment.within_arrow b.next _, ?_⟩
    exact Fragment.language_arrow (by omega) _
  | epsilon =>
    exact ⟨_, _, b.literal_epsilon, Fragment.within_point b.next, Fragment.language_point b.next⟩

theorem empty_spec : ∃ f n, b.empty = (f, b.advance n) ∧ f.Within b.next (b.next + n) ∧
    f.language = if b.flags.emptyLanguage then 0 else 1 := by
  refine ⟨_, _, b.empty_eq, ?_⟩
  split
  · exact ⟨Fragment.within_blind b.next, Fragment.language_blind b.next⟩
  · exact ⟨Fragment.within_point b.next, Fragment.language_point b.next⟩

theorem concatenation_spec {low : Nat} (hl : left.Within low b.next)
    (hr : right.WellFormed b.next) :
    ∃ f n, b.concatenation left right = (some f, b.advance n) ∧ f.Within low (b.next + n) ∧
      (∃ new, f.ids = left.ids ++ new ∧ ∀ i ∈ new, b.next ≤ i) ∧
      f.language = left.language * right.language := by
  have hmoved := Fragment.within_moved b.next hr.toClosed hr.nodup
  refine ⟨_, _, b.concatenation_eq hr.toClosed, hl.concatenate hmoved, ?_, ?_⟩
  · exact ⟨_, Fragment.ids_concatenate _ _, fun i hi => (hmoved.numbered.bounds i hi).1⟩
  · exact Fragment.language_concatenate_moved hl.toClosed hr.toClosed
      fun i hi => (hl.numbered.bounds i hi).2

theorem alternation_spec (hu : upper.WellFormed b.next) (hl : lower.WellFormed b.next) :
    ∃ f n, b.alternation upper lower = (some f, b.advance n) ∧ f.Within b.next (b.next + n) ∧
      f.language = upper.language + lower.language := by
  have hupper := Fragment.within_moved (b.next + 2) hu.toClosed hu.nodup
  have hlower := Fragment.within_moved (b.next + 2 + upper.states.length) hl.toClosed hl.nodup
  have hwithin := hupper.alternate hlower
  refine ⟨_, _, b.alternation_eq hu.toClosed hl.toClosed, ?_, ?_⟩
  · simpa only [Nat.add_assoc] using hwithin
  · exact Fragment.language_alternate_moved hu.toClosed hl.toClosed

theorem kleeneStar_spec (hi : inner.WellFormed b.next) :
    ∃ f n, b.kleeneStar inner = (some f, b.advance n) ∧ f.Within b.next (b.next + n) ∧
      f.language = inner.language∗ := by
  cases hs : b.flags.sharedStar with
  | false =>
    have hmoved := Fragment.within_moved (b.next + 2) hi.toClosed hi.nodup
    refine ⟨_, _, b.kleeneStar_eq hs hi.toClosed, ?_, ?_⟩
    · simpa only [Nat.add_assoc] using hmoved.iterate
    · exact Fragment.language_iterate_moved hi.toClosed
  | true =>
    have hmoved := Fragment.within_moved (b.next + 1) hi.toClosed hi.nodup
    refine ⟨_, _, b.kleeneStar_eq_of_shared hs hi.toClosed, ?_, ?_⟩
    · simpa only [Nat.add_assoc] using hmoved.iterateShared
    · exact Fragment.language_iterateShared_moved hi.toClosed

/-! ### Operands of any shape -/

theorem exists_alternation (hu : upper.Closed) (hl : lower.Closed) :
    ∃ f, (b.alternation upper lower).1 = some f ∧
      f.language = upper.language + lower.language := by
  rw [b.alternation_eq hu hl]
  exact ⟨_, rfl, Fragment.language_alternate_moved hu hl⟩

theorem exists_kleeneStar (hi : inner.Closed) :
    ∃ f, (b.kleeneStar inner).1 = some f ∧ f.language = inner.language∗ := by
  cases hs : b.flags.sharedStar with
  | false =>
    rw [b.kleeneStar_eq hs hi]
    exact ⟨_, rfl, Fragment.language_iterate_moved hi⟩
  | true =>
    rw [b.kleeneStar_eq_of_shared hs hi]
    exact ⟨_, rfl, Fragment.language_iterateShared_moved hi⟩

theorem exists_concatenation (hl : left.Closed) (hr : right.Closed)
    (hlt : ∀ i ∈ left.ids, i < b.next) :
    ∃ f, (b.concatenation left right).1 = some f ∧
      f.language = left.language * right.language := by
  rw [b.concatenation_eq hr]
  exact ⟨_, rfl, Fragment.language_concatenate_moved hl hr hlt⟩

/-- The combinators are union, star and product of languages, on all closed operands: these may
    list states twice, share states, have any number of exits, and be entered at the start or left
    at an exit. The left operand of a concatenation stays in place, so its numbers have to be taken
    already. -/
theorem language_of_combinators (b : Builder) :
    (∀ upper lower : Fragment, upper.Closed → lower.Closed →
      ∃ f, (b.alternation upper lower).1 = some f ∧
        f.language = upper.language + lower.language) ∧
    (∀ inner : Fragment, inner.Closed →
      ∃ f, (b.kleeneStar inner).1 = some f ∧ f.language = inner.language∗) ∧
    ∀ left right : Fragment, left.Closed → right.Closed → (∀ i ∈ left.ids, i < b.next) →
      ∃ f, (b.concatenation left right).1 = some f ∧
        f.language = left.language * right.language := by
  refine ⟨fun upper lower hu hl => ?_, fun inner hi => ?_, fun left right hl hr hlt => ?_⟩
  · exact b.exists_alternation hu hl
  · exact b.exists_kleeneStar hi
  · exact b.exists_concatenation hl hr hlt

/-- A fragment that lists its start twice, enters it, leaves both exits and names one of them
    twice. -/
def tangled : Fragment where
  start := 3
  accept := [5, 3, 5]
  states := [.unnamed 3, .unnamed 5, .unnamed 3]
  transitions := [⟨3, .letter 'a', 5⟩, ⟨5, .letter 'b', 3⟩, .silent 5 5, .silent 3 5]

/-- The same fragment as both operands, without any move before. -/
theorem language_of_combinators_tangled :
    let b : Builder := ⟨{ sharedStar := true }, 6⟩
    (∃ f, (b.alternation tangled tangled).1 = some f ∧
      f.language = tangled.language + tangled.language) ∧
    (∃ f, (b.kleeneStar tangled).1 = some f ∧ f.language = tangled.language∗) ∧
    ∃ f, (b.concatenation tangled tangled).1 = some f ∧
      f.language = tangled.language * tangled.language := by
  intro b
  have h : tangled.Closed := ⟨by decide, by decide, by decide, by decide⟩
  obtain ⟨halternation, hkleeneStar, hconcatenation⟩ := language_of_combinators b
  exact ⟨halternation tangled tangled h h, hkleeneStar tangled h,
    hconcatenation tangled tangled h h (by decide)⟩

end Builder

end EpsilonNfa
