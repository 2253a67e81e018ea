import EpsilonNfa.Drawing
import EpsilonNfa.Proofs.Automaton.Discovery
import EpsilonNfa.Proofs.Fragment.Relabelling
import EpsilonNfa.Table

/-!
Tables and drawings mention names alone, and names come from the order of discovery; so they do not
change when the numbers of the states are renamed one to one, in any fragment whatever. The search
runs through renamed numbers as it does through the old ones:

    order          ──σ──▶  order.map σ
      │ explore              │ explore
    order'         ──σ──▶  order'.map σ
-/

namespace EpsilonNfa

/-- A renaming that is one to one on the states of a list is so everywhere, once the other numbers
    are taken out of its way. -/
theorem exists_injective_extension {l : List Nat} {σ : Nat → Nat}
    (hσ : ∀ p ∈ l, ∀ q ∈ l, σ p = σ q → p = q) :
    ∃ τ : Nat → Nat, Function.Injective τ ∧ ∀ i ∈ l, τ i = σ i := by
  obtain ⟨bound, hbound⟩ : ∃ bound, ∀ i ∈ l, σ i < bound := by
    refine ⟨l.toFinset.sup σ + 1, fun i hi => Nat.lt_succ_of_le ?_⟩
    exact Finset.le_sup (List.mem_toFinset.2 hi)
  refine ⟨fun i => if i ∈ l then σ i else i + bound, ?_, fun i hi => if_pos hi⟩
  intro p q h
  by_cases hp : p ∈ l
  · by_cases hq : q ∈ l
    · simp only [if_pos hp, if_pos hq] at h
      exact hσ p hp q hq h
    · simp only [if_pos hp, if_neg hq] at h
      have := hbound p hp
      omega
  · by_cases hq : q ∈ l
    · simp only [if_neg hp, if_pos hq] at h
      have := hbound q hq
      omega
    · simp only [if_neg hp, if_neg hq] at h
      omega

variable {σ : Nat → Nat} (hσ : Function.Injective σ)
include hσ

/-! ### The search -/

theorem filter_source_map (ts : List Transition) (i : Nat) :
    (ts.map (Transition.map σ)).filter (·.source = σ i) =
      (ts.filter (·.source = i)).map (Transition.map σ) := by
  rw [List.filter_map]
  congr 2
  funext t
  simp [Transition.map, hσ.eq_iff]

theorem successors_map (ts : List Transition) (i : Nat) :
    successors (ts.map (Transition.map σ)) (σ i) = (successors ts i).map σ := by
  rw [successors, successors, filter_source_map hσ, List.map_map, List.map_map]
  rfl

theorem enlist_map (order new : List Nat) :
    enlist (order.map σ) (new.map σ) = (enlist order new).map σ := by
  induction new generalizing order with
  | nil => rfl
  | cons i new ih =>
    rw [List.map_cons, enlist, enlist, ← ih]
    by_cases hi : i ∈ order
    · rw [if_pos hi, if_pos (List.mem_map_of_mem hi)]
    · have hi' : σ i ∉ order.map σ := by rwa [List.mem_map_of_injective hσ]
      rw [if_neg hi, if_neg hi', List.map_append, List.map_singleton]

theorem explore_map (ts : List Transition) (order : List Nat) (cursor : Nat) :
    explore (ts.map (Transition.map σ)) (order.map σ) cursor =
      (explore ts order cursor).map σ := by
  fun_induction explore ts order cursor with
  | case1 order cursor hlt ih =>
    have hlt' : cursor < (order.map σ).length := by rwa [List.length_map]
    rw [explore, dif_pos hlt', List.getElem_map, successors_map hσ, enlist_map hσ, ih]
  | case2 order cursor hge =>
    have hge' : ¬ cursor < (order.map σ).length := by rwa [List.length_map]
    rw [explore, dif_neg hge']

theorem discovery_map (f : Fragment) : (f.map σ).discovery = f.discovery.map σ :=
  explore_map hσ f.transitions [f.start] 0

theorem nameIn_map (order : List Nat) (i : Nat) : nameIn (order.map σ) (σ i) = nameIn order i := by
  have hplace : (order.map σ).idxOf? (σ i) = order.idxOf? i := by
    rw [List.idxOf?, List.idxOf?, List.findIdx?_map]
    congr 1
    funext j
    simp [hσ.eq_iff]
  rw [nameIn, nameIn, hplace]

/-! ### The automaton -/

namespace Automaton

theorem state?_map (f : Fragment) (i : Nat) : (ofFragment (f.map σ)).state? (σ i) =
    ((ofFragment f).state? i).map fun s => { s with id := σ s.id } := by
  have hstates : (ofFragment (f.map σ)).states =
      (ofFragment f).states.map fun s => { s with id := σ s.id } := by
    simp only [ofFragment, discovery_map hσ]
    simp only [Fragment.map, List.map_map]
    refine List.map_congr_left fun s _ => ?_
    simp only [Function.comp_apply, nameIn_map hσ]
  rw [state?, state?, hstates, ← List.map_reverse, List.find?_map]
  congr 2
  funext s
  simp [hσ.eq_iff]

theorem name?_map (f : Fragment) (i : Nat) :
    (ofFragment (f.map σ)).name? (σ i) = (ofFragment f).name? i := by
  rw [name?, name?, state?_map hσ]
  cases (ofFragment f).state? i <;> rfl

theorem label_map (f : Fragment) (i : Nat) :
    (ofFragment (f.map σ)).label (σ i) = (ofFragment f).label i := by
  rw [label, label, name?_map hσ]

theorem orderedStates_map (f : Fragment) : (ofFragment (f.map σ)).orderedStates =
    (ofFragment f).orderedStates.map fun s => { s with id := σ s.id } := by
  have horder : (ofFragment (f.map σ)).order = (ofFragment f).order.map σ := discovery_map hσ f
  rw [orderedStates, orderedStates, horder, List.filterMap_map, List.map_filterMap]
  exact List.filterMap_congr fun i _ => state?_map hσ f i

theorem visitedTransitions_map (f : Fragment) : (ofFragment (f.map σ)).visitedTransitions =
    (ofFragment f).visitedTransitions.map (Transition.map σ) := by
  have horder : (ofFragment (f.map σ)).order = (ofFragment f).order.map σ := discovery_map hσ f
  rw [visitedTransitions, visitedTransitions, horder, List.flatMap_map, List.map_flatMap]
  exact List.flatMap_congr fun i _ => filter_source_map hσ f.transitions i

theorem finalNames_map (f : Fragment) :
    (ofFragment (f.map σ)).finalNames = (ofFragment f).finalNames := by
  show (f.accept.map σ).filterMap (ofFragment (f.map σ)).name? = _
  rw [List.filterMap_map]
  exact List.filterMap_congr fun i _ => name?_map hσ f i

theorem isFinal_map (f : Fragment) (i : Nat) :
    (ofFragment (f.map σ)).isFinal (σ i) = (ofFragment f).isFinal i := by
  show (f.accept.map σ).contains (σ i) = f.accept.contains i
  rw [Bool.eq_iff_iff, List.contains_iff_mem, List.contains_iff_mem, List.mem_map_of_injective hσ]

omit hσ in
theorem alphabet_map (σ : Nat → Nat) (f : Fragment) :
    (ofFragment (f.map σ)).alphabet = (ofFragment f).alphabet := by
  show OrderedSet.ofList ((f.transitions.map (Transition.map σ)).filterMap _) = _
  rw [List.filterMap_map]
  rfl

/-! ### Table and drawing -/

theorem startName_map (f : Fragment) :
    (ofFragment (f.map σ)).startName = (ofFragment f).startName :=
  label_map hσ f f.start

/-- The table does not depend on the numbers of the states. -/
theorem table_map (f : Fragment) :
    Table.ofAutomaton (ofFragment (f.map σ)) = Table.ofAutomaton (ofFragment f) := by
  simp only [Table.ofAutomaton, orderedStates_map hσ, visitedTransitions_map hσ,
    finalNames_map hσ, startName_map hσ, alphabet_map, List.filterMap_map, List.map_map]
  congr 1
  refine List.map_congr_left fun t _ => ?_
  simp only [Function.comp_apply, Transition.map, label_map hσ]

/-- Nor does the drawing. -/
theorem toDot_map (f : Fragment) :
    (ofFragment (f.map σ)).toDot = (ofFragment f).toDot := by
  have hnodes : (ofFragment (f.map σ)).drawing = (ofFragment f).drawing := by
    simp only [drawing, orderedStates_map hσ, visitedTransitions_map hσ, startName_map hσ,
      List.map_map]
    congr 1
    · refine List.map_congr_left fun s _ => ?_
      simp only [Function.comp_apply, isFinal_map hσ]
    · congr 1
      refine List.map_congr_left fun t _ => ?_
      simp only [Function.comp_apply, Transition.map, label_map hσ]
  rw [toDot, toDot, hnodes]

end Automaton

end EpsilonNfa
