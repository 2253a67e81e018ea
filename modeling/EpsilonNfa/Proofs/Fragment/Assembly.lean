import EpsilonNfa.Proofs.Fragment.WellFormed
import EpsilonNfa.Proofs.Pattern.Expression

/-!
What the construction makes of an expression, on whatever numbers: every operand contributes a
fragment of its own, and the links are those of the operators. Which numbers the states get is left
open, but for that no state is listed twice. So an assembly stays one when its states are renamed
one to one (`Assembled.map`), and two assemblies of one expression differ in nothing but the numbers
(`Assembled.exists_map`).
-/

namespace EpsilonNfa

/-- `Assembled shared e f`: the fragment `f` links the parts of `e`, with stars that have one state
    of their own when `shared` says so and two otherwise. -/
inductive Assembled (shared : Bool) : Expression → Fragment → Prop where
  | point (id : Nat) : Assembled shared (.symbol .epsilon) (.point id)
  | arrow {start exit : Nat} (c : Char) :
      (Fragment.arrow start exit (.letter c)).ids.Nodup →
      Assembled shared (.symbol (.letter c)) (.arrow start exit (.letter c))
  | concatenate {e e' : Expression} {left right : Fragment} :
      Assembled shared e left → Assembled shared e' right →
      (left.concatenate right).ids.Nodup →
      Assembled shared (.concat e e') (left.concatenate right)
  | alternate {e e' : Expression} {upper lower : Fragment} {start exit : Nat} :
      Assembled shared e upper → Assembled shared e' lower →
      (Fragment.alternate start exit upper lower).ids.Nodup →
      Assembled shared (.union e e') (.alternate start exit upper lower)
  | iterate {e : Expression} {inner : Fragment} {start exit : Nat} :
      shared = false → Assembled shared e inner →
      (Fragment.iterate start exit inner).ids.Nodup →
      Assembled shared (.star e) (.iterate start exit inner)
  | iterateShared {e : Expression} {inner : Fragment} {start : Nat} :
      shared = true → Assembled shared e inner →
      (Fragment.iterateShared start inner).ids.Nodup →
      Assembled shared (.star e) (.iterateShared start inner)

/-! ### Renaming links -/

namespace Fragment

variable {f left right upper lower inner : Fragment} {σ τ : Nat → Nat}

/-- What matters of a renaming of a closed fragment is where it takes the listed states. -/
theorem map_congr (hf : f.Closed) (h : ∀ i ∈ f.ids, σ i = τ i) : f.map σ = f.map τ :=
  map_congr_mentioned fun i hi => h i (hf.mem_ids_of_mem_mentioned hi)

theorem map_arrow (start exit : Nat) (s : Symbol) :
    (arrow start exit s).map σ = arrow (σ start) (σ exit) s := rfl

theorem map_concatenate :
    (left.concatenate right).map σ = (left.map σ).concatenate (right.map σ) := by
  simp [map, concatenate, Transition.map, Transition.silent]

theorem map_alternate (start exit : Nat) : (alternate start exit upper lower).map σ =
    alternate (σ start) (σ exit) (upper.map σ) (lower.map σ) := by
  simp [map, alternate, Transition.map, Transition.silent, State.unnamed, Function.comp_def]

theorem map_iterate (start exit : Nat) : (iterate start exit inner).map σ =
    iterate (σ start) (σ exit) (inner.map σ) := by
  simp [map, iterate, Transition.map, Transition.silent, State.unnamed, List.map_flatMap,
    List.flatMap_map]

theorem map_iterateShared (start : Nat) : (iterateShared start inner).map σ =
    iterateShared (σ start) (inner.map σ) := by
  simp [map, iterateShared, Transition.map, Transition.silent, State.unnamed, List.map_flatMap,
    List.flatMap_map]

/-- Renamed one to one, no state is listed twice. -/
theorem nodup_map (hn : f.ids.Nodup) (hσ : ∀ p ∈ f.ids, ∀ q ∈ f.ids, σ p = σ q → p = q) :
    (f.map σ).ids.Nodup := by
  rw [ids_map]
  exact hn.map_on hσ

end Fragment

/-! ### Assemblies -/

namespace Assembled

open Fragment

variable {shared : Bool} {e : Expression} {f g : Fragment} {σ : Nat → Nat}

theorem nodup (h : Assembled shared e f) : f.ids.Nodup := by
  cases h with
  | point id => simp
  | arrow c hn => exact hn
  | concatenate _ _ hn => exact hn
  | alternate _ _ hn => exact hn
  | iterate _ _ hn => exact hn
  | iterateShared _ _ hn => exact hn

theorem closed (h : Assembled shared e f) : f.Closed := by
  induction h with
  | point id => exact closed_point id
  | arrow c _ => exact closed_arrow _ _ _
  | concatenate _ _ _ ihl ihr => exact ihl.concatenate ihr
  | alternate _ _ _ ihu ihl => exact closed_alternate ihu ihl
  | iterate _ _ _ ih => exact closed_iterate ih
  | iterateShared _ _ _ ih => exact closed_iterateShared ih

/-- Every letter on a transition is one of the expression. -/
theorem symbol_mem (h : Assembled shared e f) {t : Transition} (ht : t ∈ f.transitions) :
    t.symbol = .epsilon ∨ .symbol t.symbol ∈ e.postorder := by
  induction h with
  | point id => exact absurd ht List.not_mem_nil
  | arrow c _ =>
    obtain rfl : t = ⟨_, .letter c, _⟩ := List.mem_singleton.1 ht
    exact .inr (List.mem_singleton_self _)
  | concatenate _ _ _ ihl ihr =>
    simp only [Expression.postorder, List.mem_append]
    rcases mem_transitions_concatenate.1 ht with ht | ht | ⟨q, -, rfl⟩
    · exact (ihl ht).imp_right fun h => .inl (.inl h)
    · exact (ihr ht).imp_right fun h => .inl (.inr h)
    · exact .inl rfl
  | alternate _ _ _ ihu ihl =>
    simp only [Expression.postorder, List.mem_append]
    rcases mem_transitions_alternate.1 ht with rfl | rfl | ht | ht | ⟨q, -, rfl⟩
    · exact .inl rfl
    · exact .inl rfl
    · exact (ihu ht).imp_right fun h => .inl (.inl h)
    · exact (ihl ht).imp_right fun h => .inl (.inr h)
    · exact .inl rfl
  | iterate _ _ _ ih =>
    rcases mem_transitions_iterate.1 ht with rfl | rfl | ⟨q, -, rfl | rfl⟩ | ht
    · exact .inl rfl
    · exact .inl rfl
    · exact .inl rfl
    · exact .inl rfl
    · exact (ih ht).imp_right (List.mem_append_left _)
  | iterateShared _ _ _ ih =>
    rcases mem_transitions_iterateShared.1 ht with rfl | ⟨q, -, rfl | rfl⟩ | ht
    · exact .inl rfl
    · exact .inl rfl
    · exact .inl rfl
    · exact (ih ht).imp_right (List.mem_append_left _)

/-- Renaming the states one to one leaves an assembly of the same expression. -/
theorem map (h : Assembled shared e f) (hσ : ∀ p ∈ f.ids, ∀ q ∈ f.ids, σ p = σ q → p = q) :
    Assembled shared e (f.map σ) := by
  induction h with
  | point id => exact .point (σ id)
  | arrow c hn => exact .arrow c (nodup_map hn hσ)
  | @concatenate _ _ left right _ _ hn ihl ihr =>
    have hn' := nodup_map hn hσ
    rw [map_concatenate] at hn' ⊢
    simp only [ids_concatenate, List.mem_append] at hσ
    refine .concatenate (ihl fun p hp q hq => ?_) (ihr fun p hp q hq => ?_) hn'
    · exact hσ p (.inl hp) q (.inl hq)
    · exact hσ p (.inr hp) q (.inr hq)
  | @alternate _ _ upper lower start exit _ _ hn ihu ihl =>
    have hn' := nodup_map hn hσ
    rw [map_alternate] at hn' ⊢
    simp only [ids_alternate, List.mem_cons, List.mem_append] at hσ
    refine .alternate (ihu fun p hp q hq => ?_) (ihl fun p hp q hq => ?_) hn'
    · exact hσ p (.inr (.inr (.inl hp))) q (.inr (.inr (.inl hq)))
    · exact hσ p (.inr (.inr (.inr hp))) q (.inr (.inr (.inr hq)))
  | @iterate _ inner start exit hs _ hn ih =>
    have hn' := nodup_map hn hσ
    rw [map_iterate] at hn' ⊢
    simp only [ids_iterate, List.mem_cons] at hσ
    refine .iterate hs (ih fun p hp q hq => ?_) hn'
    exact hσ p (.inr (.inr hp)) q (.inr (.inr hq))
  | @iterateShared _ inner start hs _ hn ih =>
    have hn' := nodup_map hn hσ
    rw [map_iterateShared] at hn' ⊢
    simp only [ids_iterateShared, List.mem_cons] at hσ
    refine .iterateShared hs (ih fun p hp q hq => ?_) hn'
    exact hσ p (.inr hp) q (.inr hq)

/-! ### Two assemblies of one expression -/

/-- One renaming on the states of a list, and another on all other states. -/
theorem exists_glue (l : List Nat) (σ τ : Nat → Nat) :
    ∃ ρ : Nat → Nat, (∀ i ∈ l, ρ i = σ i) ∧ ∀ i ∉ l, ρ i = τ i :=
  ⟨fun i => if i ∈ l then σ i else τ i, fun _ hi => if_pos hi, fun _ hi => if_neg hi⟩

/-- Two assemblies of one expression are the same but for the numbers of their states. -/
theorem exists_map (hf : Assembled shared e f) (hg : Assembled shared e g) :
    ∃ σ, f = g.map σ := by
  induction hf generalizing g with
  | point id =>
    cases hg with
    | point id' => exact ⟨fun _ => id, rfl⟩
  | @arrow start exit c _ =>
    cases hg with
    | @arrow start' exit' _ hn =>
      simp only [ids_arrow, List.nodup_cons, List.mem_singleton] at hn
      refine ⟨fun i => if i = start' then start else exit, ?_⟩
      rw [map_arrow, if_pos rfl, if_neg fun h => hn.1 h.symm]
  | concatenate _ _ _ ihl ihr =>
    cases hg with
    | @concatenate _ _ left right hl hr hn =>
      obtain ⟨σ, rfl⟩ := ihl hl
      obtain ⟨τ, rfl⟩ := ihr hr
      rw [ids_concatenate, List.nodup_append'] at hn
      obtain ⟨-, -, hd⟩ := hn
      obtain ⟨ρ, hρl, hρ⟩ := exists_glue left.ids σ τ
      have hρr : ∀ i ∈ right.ids, ρ i = τ i := fun i hi => hρ i fun h => hd h hi
      refine ⟨ρ, ?_⟩
      rw [map_concatenate, map_congr hl.closed hρl, map_congr hr.closed hρr]
  | @alternate _ _ _ _ start exit _ _ _ ihu ihl =>
    cases hg with
    | @alternate _ _ upper lower start' exit' hu hl hn =>
      obtain ⟨σ, rfl⟩ := ihu hu
      obtain ⟨τ, rfl⟩ := ihl hl
      simp only [ids_alternate, List.nodup_cons, List.mem_cons, List.mem_append, not_or,
        List.nodup_append'] at hn
      obtain ⟨⟨hse, hsu, hsl⟩, ⟨heu, hel⟩, -, -, hd⟩ := hn
      obtain ⟨τ', hτl, hτ⟩ := exists_glue lower.ids τ fun i => if i = start' then start else exit
      obtain ⟨ρ, hρu, hρ⟩ := exists_glue upper.ids σ τ'
      have hρl : ∀ i ∈ lower.ids, ρ i = τ i := by
        intro i hi
        rw [hρ i fun h => hd h hi, hτl i hi]
      refine ⟨ρ, ?_⟩
      rw [map_alternate, map_congr hu.closed hρu, map_congr hl.closed hρl, hρ start' hsu,
        hρ exit' heu, hτ start' hsl, hτ exit' hel, if_pos rfl, if_neg fun h => hse h.symm]
  | @iterate _ _ start exit hs _ _ ih =>
    cases hg with
    | @iterate _ inner start' exit' _ hi hn =>
      obtain ⟨σ, rfl⟩ := ih hi
      simp only [ids_iterate, List.nodup_cons, List.mem_cons, not_or] at hn
      obtain ⟨⟨hse, hsi⟩, hei, -⟩ := hn
      obtain ⟨ρ, hρi, hρ⟩ := exists_glue inner.ids σ fun i => if i = start' then start else exit
      refine ⟨ρ, ?_⟩
      rw [map_iterate, map_congr hi.closed hρi, hρ start' hsi, hρ exit' hei, if_pos rfl,
        if_neg fun h => hse h.symm]
    | iterateShared hs' _ _ =>
      rw [hs] at hs'
      cases hs'
  | @iterateShared _ _ start hs _ _ ih =>
    cases hg with
    | iterate hs' _ _ =>
      rw [hs] at hs'
      cases hs'
    | @iterateShared _ inner start' _ hi hn =>
      obtain ⟨σ, rfl⟩ := ih hi
      simp only [ids_iterateShared, List.nodup_cons] at hn
      obtain ⟨ρ, hρi, hρ⟩ := exists_glue inner.ids σ fun _ => start
      refine ⟨ρ, ?_⟩
      rw [map_iterateShared, map_congr hi.closed hρi, hρ start' hn.1]

end Assembled

end EpsilonNfa
