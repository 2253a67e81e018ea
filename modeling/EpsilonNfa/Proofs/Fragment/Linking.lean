import EpsilonNfa.Proofs.Fragment.Language

/-!
The languages of linked fragments: linking two fragments that share no state adds, multiplies or
iterates their languages, whatever their number of exits and whatever moves enter a start or leave
an exit.
-/

namespace EpsilonNfa.Fragment

open Computability

/-! ### Single states and single moves -/

@[simp]
theorem language_point (id : Nat) : (point id).language = 1 := by
  apply le_antisymm
  · exact tail_le (K := fun _ => 1) (fun _ _ => rfl) (by simp [point]) id
  · exact one_le_tail (by simp [point])

@[simp]
theorem language_blind (id : Nat) : (blind id).language = 0 := by
  apply le_antisymm
  · exact tail_le (K := fun _ => 0) (by simp [blind]) (by simp [blind]) id
  · exact bot_le

theorem language_arrow {start exit : Nat} (h : start ≠ exit) (s : Symbol) :
    (arrow start exit s).language = {s.word} := by
  obtain ⟨K, hstart, hexit⟩ : ∃ K : Nat → Language Char, K start = {s.word} ∧ K exit = 1 :=
    ⟨fun p => if p = start then {s.word} else 1, if_pos rfl, if_neg h.symm⟩
  apply le_antisymm
  · refine (tail_le (K := K) ?_ ?_ start).trans hstart.le
    · simp [arrow, hexit]
    · simp only [arrow, List.mem_singleton, forall_eq, hstart, hexit]
      rintro w rfl
      exact List.append_nil _
  · rintro w rfl
    have hmove : ⟨start, s, exit⟩ ∈ (arrow start exit s).transitions := by simp [arrow]
    have := word_append_mem_tail hmove (one_le_tail (by simp [arrow]) rfl)
    rwa [List.append_nil] at this

/-! ### One fragment after another -/

section Concatenate

variable {left right : Fragment}

theorem mem_transitions_concatenate {t : Transition} :
    t ∈ (left.concatenate right).transitions ↔
      t ∈ left.transitions ∨ t ∈ right.transitions ∨ ∃ q ∈ left.accept, .silent q right.start = t := by
  simp [concatenate]

theorem le_language_concatenate :
    left.language * right.language ≤ (left.concatenate right).language := by
  have hexit (q : Nat) (hq : q ∈ right.accept) : 1 ≤ (left.concatenate right).tail q :=
    one_le_tail hq
  have hright : right.language ≤ (left.concatenate right).tail right.start :=
    tail_le_tail (by simp [concatenate]) hexit right.start
  refine tail_mul_le (by simp [concatenate]) (fun q hq => hright.trans ?_) left.start
  exact tail_le_of_silent (mem_transitions_concatenate.2 (.inr (.inr ⟨q, hq, rfl⟩)))

theorem language_concatenate_le (hl : left.Closed) (hr : right.Closed)
    (hd : left.ids.Disjoint right.ids) :
    (left.concatenate right).language ≤ left.language * right.language := by
  -- what is left to read from a state of either side
  obtain ⟨K, hleft, hright⟩ : ∃ K : Nat → Language Char,
      (∀ p ∈ left.ids, K p = left.tail p * right.language) ∧ ∀ p ∈ right.ids, K p = right.tail p :=
    ⟨fun p => if p ∈ left.ids then left.tail p * right.language else right.tail p,
      fun p hp => if_pos hp, fun p hp => if_neg fun h => hd h hp⟩
  refine (tail_le (K := K) ?_ ?_ left.start).trans (hleft _ hl.start_mem).le
  · intro q hq
    rw [hright q (hr.accept_mem q hq)]
    exact one_le_tail (f := right) hq rfl
  · intro t ht w hw
    rcases mem_transitions_concatenate.1 ht with ht | ht | ⟨q, hq, rfl⟩
    · rw [hleft _ (hl.target_mem t ht)] at hw
      rw [hleft _ (hl.source_mem t ht)]
      obtain ⟨u, hu, v, hv, rfl⟩ := hw
      exact ⟨_, word_append_mem_tail ht hu, v, hv, List.append_assoc ..⟩
    · rw [hright _ (hr.target_mem t ht)] at hw
      rw [hright _ (hr.source_mem t ht)]
      exact word_append_mem_tail ht hw
    · simp only [Transition.silent] at hw ⊢
      rw [hright _ hr.start_mem] at hw
      rw [hleft _ (hl.accept_mem q hq)]
      exact ⟨[], one_le_tail hq rfl, w, hw, rfl⟩

/-- A walk through linked fragments is a walk through the left one, a bridge, and a walk through the
    right one. -/
theorem language_concatenate (hl : left.Closed) (hr : right.Closed)
    (hd : left.ids.Disjoint right.ids) :
    (left.concatenate right).language = left.language * right.language :=
  le_antisymm (language_concatenate_le hl hr hd) le_language_concatenate

end Concatenate

/-! ### One of two fragments -/

section Alternate

variable {start exit : Nat} {upper lower : Fragment}

theorem mem_transitions_alternate {t : Transition} :
    t ∈ (alternate start exit upper lower).transitions ↔
      t = .silent start upper.start ∨ t = .silent start lower.start ∨ t ∈ upper.transitions ∨
        t ∈ lower.transitions ∨ ∃ q, (q ∈ upper.accept ∨ q ∈ lower.accept) ∧ .silent q exit = t := by
  simp [alternate, or_and_right, exists_or]

theorem le_language_alternate :
    upper.language + lower.language ≤ (alternate start exit upper lower).language := by
  have hexit : 1 ≤ (alternate start exit upper lower).tail exit := one_le_tail (by simp [alternate])
  have hleave {q : Nat} (hq : q ∈ upper.accept ∨ q ∈ lower.accept) :
        1 ≤ (alternate start exit upper lower).tail q :=
    hexit.trans (tail_le_of_silent (mem_transitions_alternate.2 (by
      exact .inr (.inr (.inr (.inr ⟨q, hq, rfl⟩))))))
  refine sup_le ?_ ?_
  · have hsub : upper.transitions ⊆ (alternate start exit upper lower).transitions :=
      fun t ht => mem_transitions_alternate.2 (.inr (.inr (.inl ht)))
    exact (tail_le_tail hsub (fun q hq => hleave (.inl hq)) upper.start).trans
      (tail_le_of_silent (mem_transitions_alternate.2 (.inl rfl)))
  · have hsub : lower.transitions ⊆ (alternate start exit upper lower).transitions :=
      fun t ht => mem_transitions_alternate.2 (.inr (.inr (.inr (.inl ht))))
    exact (tail_le_tail hsub (fun q hq => hleave (.inr hq)) lower.start).trans
      (tail_le_of_silent (mem_transitions_alternate.2 (.inr (.inl rfl))))

theorem language_alternate_le (hu : upper.Closed) (hl : lower.Closed)
    (hd : upper.ids.Disjoint lower.ids) (hse : start ≠ exit)
    (hs : start ∉ upper.ids ++ lower.ids) (he : exit ∉ upper.ids ++ lower.ids) :
    (alternate start exit upper lower).language ≤ upper.language + lower.language := by
  simp only [List.mem_append, not_or] at hs he
  obtain ⟨K, hstart, hexit, hupper, hlower⟩ : ∃ K : Nat → Language Char,
      K start = upper.language + lower.language ∧ K exit = 1 ∧
      (∀ p ∈ upper.ids, K p = upper.tail p) ∧ ∀ p ∈ lower.ids, K p = lower.tail p := by
    refine ⟨fun p => if p = start then upper.language + lower.language else if p = exit then 1
      else if p ∈ upper.ids then upper.tail p else lower.tail p, ?_, ?_, ?_, ?_⟩
    · simp
    · simp [hse.symm]
    · rintro p hp
      have h1 : p ≠ start := fun h => hs.1 (h ▸ hp)
      have h2 : p ≠ exit := fun h => he.1 (h ▸ hp)
      simp [h1, h2, hp]
    · rintro p hp
      have h1 : p ≠ start := fun h => hs.2 (h ▸ hp)
      have h2 : p ≠ exit := fun h => he.2 (h ▸ hp)
      have h3 : p ∉ upper.ids := fun h => hd h hp
      simp [h1, h2, h3]
  refine (tail_le (K := K) ?_ ?_ start).trans hstart.le
  · simp [alternate, hexit]
  · intro t ht w hw
    rcases mem_transitions_alternate.1 ht with rfl | rfl | ht | ht | ⟨q, hq, rfl⟩
    · simp only [Transition.silent] at hw ⊢
      rw [hupper _ hu.start_mem] at hw
      rw [hstart]
      exact .inl hw
    · simp only [Transition.silent] at hw ⊢
      rw [hlower _ hl.start_mem] at hw
      rw [hstart]
      exact .inr hw
    · rw [hupper _ (hu.target_mem t ht)] at hw
      rw [hupper _ (hu.source_mem t ht)]
      exact word_append_mem_tail ht hw
    · rw [hlower _ (hl.target_mem t ht)] at hw
      rw [hlower _ (hl.source_mem t ht)]
      exact word_append_mem_tail ht hw
    · simp only [Transition.silent, hexit] at hw ⊢
      obtain rfl := hw
      rcases hq with hq | hq
      · rw [hupper _ (hu.accept_mem q hq)]
        exact one_le_tail hq rfl
      · rw [hlower _ (hl.accept_mem q hq)]
        exact one_le_tail hq rfl

/-- A walk between a new start and a new exit goes through one of the two fragments. -/
theorem language_alternate (hu : upper.Closed) (hl : lower.Closed)
    (hd : upper.ids.Disjoint lower.ids) (hse : start ≠ exit)
    (hs : start ∉ upper.ids ++ lower.ids) (he : exit ∉ upper.ids ++ lower.ids) :
    (alternate start exit upper lower).language = upper.language + lower.language :=
  le_antisymm (language_alternate_le hu hl hd hse hs he) le_language_alternate

end Alternate

/-! ### A fragment any number of times -/

section Iterate

variable {inner g : Fragment}

/-- A fragment whose start leads into `inner`, and whose exits are reached from its start and from
    every exit of `inner`, reads any number of words of `inner`. -/
theorem kstar_le_language (hsub : inner.transitions ⊆ g.transitions) (hskip : 1 ≤ g.language)
    (henter : .silent g.start inner.start ∈ g.transitions)
    (hagain : ∀ q ∈ inner.accept, .silent q inner.start ∈ g.transitions)
    (hleave : ∀ q ∈ inner.accept, 1 ≤ g.tail q) : inner.language∗ ≤ g.language := by
  have hone : inner.language ≤ g.tail inner.start := tail_le_tail hsub hleave inner.start
  have hmore : inner.language * g.tail inner.start ≤ g.tail inner.start :=
    tail_mul_le hsub (fun q hq => tail_le_of_silent (hagain q hq)) inner.start
  have hrounds : inner.language∗ * inner.language ≤ g.tail inner.start :=
    (mul_le_mul_right hone _).trans (kstar_mul_le_self hmore)
  rw [← Language.one_add_kstar_mul_self_eq_kstar]
  exact sup_le hskip (hrounds.trans (tail_le_of_silent henter))

/-- A fragment that adds to `inner` silent moves alone, each from an exit of `inner` or from outside
    it, and each to the start of `inner` or to outside it, reads nothing else. -/
theorem language_le_kstar (hi : inner.Closed) (hstart : g.start ∉ inner.ids)
    (haccept : ∀ q ∈ g.accept, q ∉ inner.ids)
    (hmoves : ∀ t ∈ g.transitions, t ∈ inner.transitions ∨ ∃ p q, t = .silent p q ∧
      (p ∈ inner.accept ∨ p ∉ inner.ids) ∧ (q = inner.start ∨ q ∉ inner.ids)) :
    g.language ≤ inner.language∗ := by
  obtain ⟨K, hinner, houter⟩ : ∃ K : Nat → Language Char,
      (∀ p ∈ inner.ids, K p = inner.tail p * inner.language∗) ∧
      ∀ p ∉ inner.ids, K p = inner.language∗ :=
    ⟨fun p => if p ∈ inner.ids then inner.tail p * inner.language∗ else inner.language∗,
      fun p hp => if_pos hp, fun p hp => if_neg hp⟩
  refine (tail_le (K := K) ?_ ?_ g.start).trans (houter _ hstart).le
  · intro q hq
    rw [houter q (haccept q hq)]
    exact Language.nil_mem_kstar _
  · intro t ht w hw
    rcases hmoves t ht with ht | ⟨p, q, rfl, hp, hq⟩
    · rw [hinner _ (hi.target_mem t ht)] at hw
      rw [hinner _ (hi.source_mem t ht)]
      obtain ⟨u, hu, v, hv, rfl⟩ := hw
      exact ⟨_, word_append_mem_tail ht hu, v, hv, List.append_assoc ..⟩
    · -- what can be read behind a silent move is a number of rounds
      have hrounds : K q ≤ inner.language∗ := by
        rcases hq with rfl | hq
        · rw [hinner _ hi.start_mem]
          exact mul_kstar_le_kstar
        · exact (houter q hq).le
      rcases hp with hp | hp
      · show w ∈ K p
        rw [hinner _ (hi.accept_mem p hp)]
        exact ⟨[], one_le_tail hp rfl, w, hrounds hw, rfl⟩
      · show w ∈ K p
        rw [houter p hp]
        exact hrounds hw

variable {start exit : Nat}

theorem mem_transitions_iterate {t : Transition} :
    t ∈ (iterate start exit inner).transitions ↔
      t = .silent start inner.start ∨ t = .silent start exit ∨
        (∃ q ∈ inner.accept, t = .silent q inner.start ∨ t = .silent q exit) ∨
        t ∈ inner.transitions := by
  simp [iterate]

theorem mem_transitions_iterateShared {t : Transition} :
    t ∈ (iterateShared start inner).transitions ↔
      t = .silent start inner.start ∨
        (∃ q ∈ inner.accept, t = .silent q inner.start ∨ t = .silent q start) ∨
        t ∈ inner.transitions := by
  simp [iterateShared]

/-- Between a new start and a new exit, any number of walks through the fragment. -/
theorem language_iterate (hi : inner.Closed) (hs : start ∉ inner.ids) (he : exit ∉ inner.ids) :
    (iterate start exit inner).language = inner.language∗ := by
  have hexit : 1 ≤ (iterate start exit inner).tail exit := one_le_tail (by simp [iterate])
  apply le_antisymm
  · refine language_le_kstar hi hs (by simpa [iterate] using he) fun t ht => ?_
    rcases mem_transitions_iterate.1 ht with rfl | rfl | ⟨q, hq, rfl | rfl⟩ | ht
    · exact .inr ⟨_, _, rfl, .inr hs, .inl rfl⟩
    · exact .inr ⟨_, _, rfl, .inr hs, .inr he⟩
    · exact .inr ⟨_, _, rfl, .inl hq, .inl rfl⟩
    · exact .inr ⟨_, _, rfl, .inl hq, .inr he⟩
    · exact .inl ht
  · apply kstar_le_language
    · exact fun t ht => mem_transitions_iterate.2 (.inr (.inr (.inr ht)))
    · exact hexit.trans (tail_le_of_silent (mem_transitions_iterate.2 (.inr (.inl rfl))))
    · exact mem_transitions_iterate.2 (.inl rfl)
    · exact fun q hq => mem_transitions_iterate.2 (.inr (.inr (.inl ⟨q, hq, .inl rfl⟩)))
    · exact fun q hq => hexit.trans (tail_le_of_silent
        (mem_transitions_iterate.2 (.inr (.inr (.inl ⟨q, hq, .inr rfl⟩)))))

/-- The same with one new state that is start and exit. -/
theorem language_iterateShared (hi : inner.Closed) (hs : start ∉ inner.ids) :
    (iterateShared start inner).language = inner.language∗ := by
  have hexit : 1 ≤ (iterateShared start inner).tail start := one_le_tail (by simp [iterateShared])
  apply le_antisymm
  · refine language_le_kstar hi hs (by simpa [iterateShared] using hs) fun t ht => ?_
    rcases mem_transitions_iterateShared.1 ht with rfl | ⟨q, hq, rfl | rfl⟩ | ht
    · exact .inr ⟨_, _, rfl, .inr hs, .inl rfl⟩
    · exact .inr ⟨_, _, rfl, .inl hq, .inl rfl⟩
    · exact .inr ⟨_, _, rfl, .inl hq, .inr hs⟩
    · exact .inl ht
  · apply kstar_le_language
    · exact fun t ht => mem_transitions_iterateShared.2 (.inr (.inr ht))
    · exact hexit
    · exact mem_transitions_iterateShared.2 (.inl rfl)
    · exact fun q hq => mem_transitions_iterateShared.2 (.inr (.inl ⟨q, hq, .inl rfl⟩))
    · exact fun q hq => hexit.trans (tail_le_of_silent
        (mem_transitions_iterateShared.2 (.inr (.inl ⟨q, hq, .inr rfl⟩))))

end Iterate

end EpsilonNfa.Fragment
