import EpsilonNfa.Proofs.Builder.Reuse
import EpsilonNfa.Proofs.Builder.Session
import EpsilonNfa.Proofs.Builder.Wrapping

/-!
What the combinators promise on a counter of fixed width. Some of it holds even where the counter
starts over; the rest holds as long as it does not:

    which operands fail, how many numbers are taken          always, the counter modulo the limit
    different states of an operand stay different            for at most `limit` listed states
    languages, new states of a session that are new to it    while the counter stays below the limit

The sessions on such a counter are, as long as its numbers last, those on the plain counter
(`reachable_iff`).
-/

namespace EpsilonNfa

open Computability

namespace Wrapping

variable {limit : Nat} {b : Builder}

/-! ### Any operands -/

theorem concatenation_fails_iff (h : b.next < limit) (left right : Fragment) :
    ((b.concatenationWith (relabel limit) left right).1 = none ↔ ¬ right.Closed) ∧
      (b.concatenationWith (relabel limit) left right).2 =
        advance limit b right.states.length := by
  rw [Builder.concatenationWith, relabel_eq_mod h]
  by_cases hr : right.Closed
  · simp [hr]
  · simp [hr]

/-- A move after `n` fresh numbers, from which only its success and the counter are kept. -/
theorem relabel_advance_mod (h : b.next < limit) (n : Nat) (f : Fragment) :
    ∃ moved, relabel limit (advance limit b n) f =
      (if f.Closed then some moved else none, advance limit b (n + f.states.length)) := by
  rw [relabel_eq_mod (next_advance_lt h n), advance_advance]
  exact ⟨_, rfl⟩

theorem kleeneStar_fails_iff (h : b.next < limit) (inner : Fragment) :
    ((kleeneStar limit b inner).1 = none ↔ ¬ inner.Closed) ∧
      (kleeneStar limit b inner).2 =
        advance limit b (b.flags.starStates + inner.states.length) := by
  have hflags (n : Nat) : (advance limit b n).flags = b.flags := rfl
  rw [kleeneStar, Flags.starStates]
  cases hs : b.flags.sharedStar with
  | false =>
    obtain ⟨moved, hmove⟩ := relabel_advance_mod h 2 inner
    simp only [fresh_eq_advance, advance_advance, hflags, hs, hmove, if_false, Bool.false_eq_true]
    by_cases hi : inner.Closed
    · simp [hi]
    · simp [hi]
  | true =>
    obtain ⟨moved, hmove⟩ := relabel_advance_mod h 1 inner
    simp only [fresh_eq_advance, hflags, hs, hmove, if_true]
    by_cases hi : inner.Closed
    · simp [hi]
    · simp [hi]

theorem alternation_fails_iff (h : b.next < limit) (upper lower : Fragment) :
    ((alternation limit b upper lower).1 = none ↔ ¬ upper.Closed ∨ ¬ lower.Closed) ∧
      (alternation limit b upper lower).2 =
        advance limit b
          (2 + upper.states.length + if upper.Closed then lower.states.length else 0) := by
  obtain ⟨upper', hupper⟩ := relabel_advance_mod h 2 upper
  obtain ⟨lower', hlower⟩ := relabel_advance_mod h (2 + upper.states.length) lower
  simp only [alternation, fresh_eq_advance, advance_advance, hupper]
  by_cases hu : upper.Closed
  · simp only [hu, if_true, hlower]
    by_cases hl : lower.Closed
    · simp [hl]
    · simp [hl]
  · simp [hu]

/-- Fresh numbers of as many states as the counter has values are different. -/
theorem freshId_mod_injective {base : Nat} {ids : List Nat} (hlimit : ids.length ≤ limit) :
    ∀ p ∈ ids, ∀ q ∈ ids, freshId base ids p % limit = freshId base ids q % limit → p = q := by
  intro p hp q hq h
  obtain ⟨j, hj, hp'⟩ := exists_lastAt_of_freshId? (freshId?_eq_some base hp)
  obtain ⟨k, hk, hq'⟩ := exists_lastAt_of_freshId? (freshId?_eq_some base hq)
  have hjlimit : j < limit := (List.getElem?_eq_some_iff.1 hj.1).1.trans_le hlimit
  have hklimit : k < limit := (List.getElem?_eq_some_iff.1 hk.1).1.trans_le hlimit
  rw [hp', hq'] at h
  have hmod : j ≡ k [MOD limit] := Nat.ModEq.add_left_cancel' base h
  obtain rfl : j = k := hmod.eq_of_lt_of_lt hjlimit hklimit
  exact Option.some.inj (hj.1.symm.trans hk.1)

/-- On a counter of fixed width the same operands make a combinator fail as on the plain one, even
    where the counter starts over, and it goes on by as many numbers. States are renamed apart as
    long as there are no more of them than numbers. -/
theorem combinators_modulo_limit (h : b.next < limit) :
    (∀ left right, ((b.concatenationWith (relabel limit) left right).1 = none ↔ ¬ right.Closed) ∧
      (b.concatenationWith (relabel limit) left right).2 =
        advance limit b right.states.length) ∧
    (∀ inner, ((kleeneStar limit b inner).1 = none ↔ ¬ inner.Closed) ∧
      (kleeneStar limit b inner).2 =
        advance limit b (b.flags.starStates + inner.states.length)) ∧
    (∀ upper lower,
      ((alternation limit b upper lower).1 = none ↔ ¬ upper.Closed ∨ ¬ lower.Closed) ∧
      (alternation limit b upper lower).2 =
        advance limit b
          (2 + upper.states.length + if upper.Closed then lower.states.length else 0)) ∧
    ∀ f g, (relabel limit b f).1 = some g → f.states.length ≤ limit →
      ∃ σ : Nat → Nat, g = f.map σ ∧
        (∀ i ∈ f.ids, ∃ k, LastAt f.ids k i ∧ σ i = (b.next + k) % limit) ∧
        ∀ p ∈ f.ids, ∀ q ∈ f.ids, σ p = σ q → p = q := by
  refine ⟨concatenation_fails_iff h, kleeneStar_fails_iff h, alternation_fails_iff h, ?_⟩
  intro f g hg hlimit
  have hlength : f.ids.length = f.states.length := List.length_map _
  rw [relabel_eq_mod h, Option.ite_none_right_eq_some] at hg
  obtain ⟨-, hg⟩ := hg
  cases hg
  refine ⟨_, rfl, fun i hi => ?_, freshId_mod_injective (hlength.trans_le hlimit)⟩
  obtain ⟨k, hk, hnumber⟩ := exists_lastAt_of_freshId? (freshId?_eq_some b.next hi)
  exact ⟨k, hk, by rw [hnumber]⟩

/-! ### Languages -/

/-- While its numbers last, the combinators on a counter of fixed width are union, star and product
    of languages, on all closed operands. -/
theorem language_while_numbers_last (limit : Nat) (b : Builder) :
    (∀ upper lower : Fragment, upper.Closed → lower.Closed →
      b.next + (2 + upper.states.length + lower.states.length) < limit →
      ∃ f, (alternation limit b upper lower).1 = some f ∧
        f.language = upper.language + lower.language) ∧
    (∀ inner : Fragment, inner.Closed →
      b.next + (b.flags.starStates + inner.states.length) < limit →
      ∃ f, (kleeneStar limit b inner).1 = some f ∧ f.language = inner.language∗) ∧
    ∀ left right : Fragment, left.Closed → right.Closed → (∀ i ∈ left.ids, i < b.next) →
      b.next + right.states.length < limit →
      ∃ f, (b.concatenationWith (relabel limit) left right).1 = some f ∧
        f.language = left.language * right.language := by
  refine ⟨fun upper lower hu hl hlimit => ?_, fun inner hi hlimit => ?_,
    fun left right hl hr hlt hlimit => ?_⟩
  · have hbelow : (b.alternation upper lower).2.next < limit := by
      rwa [b.alternation_eq hu hl]
    rw [alternation_eq hbelow]
    exact b.exists_alternation hu hl
  · have hbelow : (b.kleeneStar inner).2.next < limit := by
      rwa [b.kleeneStar_eq_ite]
    rw [kleeneStar_eq hbelow]
    exact b.exists_kleeneStar hi
  · have hbelow : (b.concatenation left right).2.next < limit := by
      rwa [b.concatenation_eq hr]
    rw [concatenation_eq hbelow]
    exact b.exists_concatenation hl hr hlt

/-! ### Sessions -/

section

variable (limit) {made : List Product}

/-- The fragment of the pattern without tokens. -/
def empty (b : Builder) : Fragment × Builder :=
  let (id, b) := fresh limit b
  (if b.flags.emptyLanguage then .blind id else .point id, b)

/-- The answer of a call, and the builder after it. -/
def answer (b : Builder) : Call made → Except BuildFault Product × Builder
  | .genState => (.ok (.state (.unnamed (fresh limit b).1)), (fresh limit b).2)
  | .empty => (.ok (.fragment (empty limit b).1), (empty limit b).2)
  | .literal s => (.ok (.fragment (literal limit b s).1), (literal limit b s).2)
  | .concatenation left right =>
    Builder.combined (b.concatenationWith (relabel limit) left.val right.val)
  | .alternation upper lower => Builder.combined (alternation limit b upper.val lower.val)
  | .kleeneStar inner => Builder.combined (kleeneStar limit b inner.val)
  | .build tokens => ((build limit b tokens).1.map .fragment, (build limit b tokens).2)

/-- The session after one more call. -/
def after (s : Session) (c : Call s.made) : Session :=
  match answer limit s.builder c with
  | (.ok product, b) => ⟨b, product :: s.made⟩
  | (.error _, b) => ⟨b, s.made⟩

/-- The sessions that calls lead to while the numbers last: after each call, all numbers that it
    took lie below the limit. -/
inductive Reachable (flags : Flags) : Session → Prop where
  | new : Reachable flags (Session.new flags)
  | after {s : Session} : Reachable flags s → (c : Call s.made) →
      (s.builder.answer c).2.next < limit → Reachable flags (after limit s c)

end

variable {made : List Product} {flags : Flags} {s : Session}

theorem empty_eq (h : b.empty.2.next < limit) : empty limit b = b.empty := by
  have h : b.next + 1 < limit := h
  rw [empty, fresh_eq h]
  rfl

theorem combined_snd (result : Option Fragment × Builder) :
    (Builder.combined result).2 = result.2 := by
  rcases result with ⟨_ | f, b⟩ <;> rfl

/-- A call that finds enough numbers has the answer of the plain counter. -/
theorem answer_eq {c : Call made} (h : (b.answer c).2.next < limit) :
    answer limit b c = b.answer c := by
  cases c with
  | genState => rw [answer, fresh_eq h, Builder.answer, Builder.fresh_eq]
  | empty => rw [answer, empty_eq h, Builder.answer]
  | literal s => rw [answer, literal_eq h, Builder.answer]
  | concatenation left right =>
    rw [Builder.answer, combined_snd] at h
    rw [answer, concatenation_eq h, Builder.answer]
  | alternation upper lower =>
    rw [Builder.answer, combined_snd] at h
    rw [answer, alternation_eq h, Builder.answer]
  | kleeneStar inner =>
    rw [Builder.answer, combined_snd] at h
    rw [answer, kleeneStar_eq h, Builder.answer]
  | build tokens => rw [answer, build_eq h, Builder.answer]

theorem after_eq {c : Call s.made} (h : (s.builder.answer c).2.next < limit) :
    after limit s c = s.after c := by
  rw [after, answer_eq h]
  rfl

/-- The sessions while the numbers last are those in which the plain counter stays below the
    limit. -/
theorem reachable_iff (hlimit : 0 < limit) :
    Reachable limit flags s ↔ s.Reachable flags ∧ s.builder.next < limit := by
  constructor
  · intro h
    induction h with
    | new => exact ⟨.new, hlimit⟩
    | after _ c hnext ih =>
      rw [after_eq hnext]
      refine ⟨.after ih.1 c, ?_⟩
      rwa [Session.builder_after]
  · rintro ⟨h, hnext⟩
    induction h with
    | new => exact .new
    | @after s hs c ih =>
      rw [Session.builder_after] at hnext
      rw [← after_eq hnext]
      exact .after (ih ((Builder.next_le_answer hs.sound c).trans_lt hnext)) c hnext

/-- In every such session the fragments are well-formed, and a call that finds enough numbers makes
    states that nothing made before it has. -/
theorem wellFormed_while_numbers_last (hlimit : 0 < limit) (h : Reachable limit flags s) :
    (∀ f, .fragment f ∈ s.made → f.WellFormed s.builder.next) ∧
    ∀ c : Call s.made, (s.builder.answer c).2.next < limit →
      (answer limit s.builder c).1 ≠ .error .dangling ∧
      ∀ p, (answer limit s.builder c).1 = .ok p →
        ∃ new, p.ids = c.kept ++ new ∧ ∀ i ∈ new, ∀ earlier ∈ s.made, i ∉ earlier.ids := by
  have hsound := ((reachable_iff hlimit).1 h).1.sound
  refine ⟨fun f hf => hsound _ hf, fun c hc => ?_⟩
  rw [answer_eq hc]
  exact Session.answer_of_sound hsound c

end Wrapping

end EpsilonNfa
