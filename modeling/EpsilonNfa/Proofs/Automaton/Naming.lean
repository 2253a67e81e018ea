import EpsilonNfa.Proofs.Automaton.Discovery
import Std.Data.String.ToNat

/-!
The names of an automaton's states. A state that is listed and discovered is named for its place in
the order of discovery. Places and names correspond one to one, so no two states share a name; and
where the fragment is closed everything discovered is listed, so the names in order of discovery are
those of the first places, without a gap.
-/

namespace EpsilonNfa

theorem stateName_injective : Function.Injective stateName := by
  intro m n h
  exact Nat.repr_inj.1 ((String.append_right_inj "q").1 h)

variable {order : List Nat} {i : Nat}

theorem nameIn_of_mem (h : i ∈ order) : nameIn order i = some (stateName (order.idxOf i)) := by
  have hplace : order.idxOf? i = some (order.idxOf i) := by
    rw [List.idxOf?_eq_some_iff]
    refine ⟨List.idxOf_lt_length_iff.2 h, List.getElem_idxOf _, ?_⟩
    intro j hj
    have := List.not_of_lt_findIdx hj
    simpa using this
  rw [nameIn, hplace, Option.map_some]

theorem nameIn_of_notMem (h : i ∉ order) : nameIn order i = none := by
  rw [nameIn, List.idxOf?_eq_none_iff.2 h, Option.map_none]

namespace Automaton

variable {f : Fragment}

/-- A listed state is found with the name of its number. -/
theorem state?_ofFragment (hi : i ∈ f.ids) :
    (ofFragment f).state? i = some ⟨i, nameIn f.discovery i⟩ := by
  obtain ⟨s, hs, rfl⟩ := List.mem_map.1 hi
  have hfound : ((ofFragment f).state? s.id).isSome := by
    rw [state?, List.find?_isSome]
    refine ⟨⟨s.id, nameIn f.discovery s.id⟩, ?_, by simp⟩
    exact List.mem_reverse.2 (List.mem_map.2 ⟨s, hs, rfl⟩)
  obtain ⟨found, hsome⟩ := Option.isSome_iff_exists.1 hfound
  -- whichever place it is found at, number and name are the same
  have hid := List.find?_some hsome
  have hmem := List.mem_reverse.1 (List.mem_of_find?_eq_some hsome)
  obtain ⟨u, -, rfl⟩ := List.mem_map.1 hmem
  simp only [decide_eq_true_eq] at hid
  rw [hsome, hid]

theorem state?_ofFragment_of_notMem (hi : i ∉ f.ids) : (ofFragment f).state? i = none := by
  rw [state?, List.find?_eq_none]
  intro s hs
  obtain ⟨u, hu, rfl⟩ := List.mem_map.1 (List.mem_reverse.1 hs)
  have hne : u.id ≠ i := fun h => hi (h ▸ List.mem_map_of_mem hu)
  simpa using hne

theorem name?_ofFragment (hi : i ∈ f.ids) : (ofFragment f).name? i = nameIn f.discovery i := by
  rw [name?, state?_ofFragment hi, Option.bind_some]

variable (hf : f.Closed)
include hf

theorem label_ofFragment (hi : i ∈ f.discovery) :
    (ofFragment f).label i = stateName (f.discovery.idxOf i) := by
  rw [label, name?_ofFragment (hf.mem_ids_of_mem_discovery hi), nameIn_of_mem hi, Option.getD_some]

theorem nameIn_eq_label (hi : i ∈ f.discovery) :
    nameIn f.discovery i = some ((ofFragment f).label i) := by
  rw [label_ofFragment hf hi, nameIn_of_mem hi]

/-- Different states have different names. -/
theorem label_injective {j : Nat} (hi : i ∈ f.discovery) (hj : j ∈ f.discovery)
    (h : (ofFragment f).label i = (ofFragment f).label j) : i = j := by
  rw [label_ofFragment hf hi, label_ofFragment hf hj] at h
  exact (List.idxOf_inj hi).1 (stateName_injective h)

theorem orderedStates_ofFragment : (ofFragment f).orderedStates =
    f.discovery.map fun i => ⟨i, nameIn f.discovery i⟩ := by
  have hfound : ∀ i ∈ f.discovery,
      (ofFragment f).state? i = (some ∘ fun i => State.mk i (nameIn f.discovery i)) i :=
    fun i hi => state?_ofFragment (hf.mem_ids_of_mem_discovery hi)
  rw [orderedStates]
  exact (List.filterMap_congr hfound).trans (congrFun List.filterMap_eq_map _)

omit hf in
theorem mem_visitedTransitions {t : Transition} :
    t ∈ (ofFragment f).visitedTransitions ↔ t ∈ f.transitions ∧ t.source ∈ f.discovery := by
  simp only [visitedTransitions, List.mem_flatMap, List.mem_filter, decide_eq_true_eq]
  constructor
  · rintro ⟨i, hi, ht, rfl⟩
    exact ⟨ht, hi⟩
  · rintro ⟨ht, hsource⟩
    exact ⟨t.source, hsource, ht, rfl⟩

omit hf in
/-- A transition of a state that is discovered leads to one that is. -/
theorem target_mem_discovery {t : Transition} (ht : t ∈ f.transitions)
    (hsource : t.source ∈ f.discovery) : t.target ∈ f.discovery := by
  rw [f.mem_discovery_iff] at hsource ⊢
  exact hsource.trans (.single ht)

/-- Of some listed states those have names that are discovered. -/
theorem filterMap_name? {l : List Nat} (hl : ∀ i ∈ l, i ∈ f.ids) :
    l.filterMap (ofFragment f).name? =
      (l.filter (· ∈ f.discovery)).map (ofFragment f).label := by
  induction l with
  | nil => rfl
  | cons i l ih =>
    have hrest := ih fun j hj => hl j (List.mem_cons_of_mem i hj)
    have hname := name?_ofFragment (hl i List.mem_cons_self)
    by_cases hi : i ∈ f.discovery
    · rw [nameIn_eq_label hf hi] at hname
      simp [hname, hi, hrest]
    · rw [nameIn_of_notMem hi] at hname
      simp [hname, hi, hrest]

/-- The names of the exits are those of the exits that are discovered. -/
theorem finalNames_ofFragment : (ofFragment f).finalNames =
    (f.accept.filter (· ∈ f.discovery)).map (ofFragment f).label :=
  filterMap_name? hf hf.accept_mem

theorem mem_finalNames {name : String} : name ∈ (ofFragment f).finalNames ↔
    ∃ i ∈ f.accept, i ∈ f.discovery ∧ (ofFragment f).label i = name := by
  simp [finalNames_ofFragment hf, and_assoc]

end Automaton

end EpsilonNfa
