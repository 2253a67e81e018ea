import EpsilonNfa.Proofs.Automaton.Naming
import EpsilonNfa.Proofs.Fragment.Trim

/-!
What the search makes of a trim fragment. Every state is reached, so the order of discovery is a
permutation of the listed states; then every state has a name, no state is left out, and the
transitions, grouped by their source in that order, are all there and none is there twice.
-/

namespace EpsilonNfa

/-- A list grouped by a key is a permutation of the list, when the groups are those of different
    keys and no key is missing. -/
theorem perm_flatMap_filter {α : Type} (key : α → Nat) {keys : List Nat} (hkeys : keys.Nodup)
    {l : List α} (h : ∀ a ∈ l, key a ∈ keys) :
    (keys.flatMap fun k => l.filter fun a => key a = k).Perm l := by
  induction keys generalizing l with
  | nil =>
    have : l = [] := List.eq_nil_iff_forall_not_mem.2 fun a ha => List.not_mem_nil (h a ha)
    rw [this]
    exact .refl _
  | cons k keys ih =>
    obtain ⟨hk, hkeys⟩ := List.nodup_cons.1 hkeys
    -- the groups after the first are those of what the first leaves
    have hrest : ∀ k' ∈ keys, (l.filter fun a => key a = k') =
        (l.filter fun a => !decide (key a = k)).filter fun a => key a = k' := by
      intro k' hk'
      rw [List.filter_filter]
      refine List.filter_congr fun a _ => ?_
      have : key a = k' → key a ≠ k := by
        rintro rfl rfl
        exact hk hk'
      simpa using this
    rw [List.flatMap_cons, List.flatMap_congr hrest]
    refine ((ih hkeys fun a ha => ?_).append_left _).trans (List.filter_append_perm _ l)
    obtain ⟨ha, hne⟩ := List.mem_filter.1 ha
    rcases List.mem_cons.1 (h a ha) with hak | hmem
    · simp [hak] at hne
    · exact hmem

/-- Every state of the automaton is on a walk from the start to its only exit, and each is named,
    listed and followed exactly once. -/
structure Automaton.Trim (a : Automaton) : Prop where
  reaches : ∃ exit, a.accept = [exit] ∧
    ∀ s ∈ a.states, Reaches a.transitions a.start s.id ∧ Reaches a.transitions s.id exit
  name_isSome : ∀ s ∈ a.states, s.name.isSome
  orderedStates_perm : a.orderedStates.Perm a.states
  visitedTransitions_perm : a.visitedTransitions.Perm a.transitions
  length_finalNames : a.finalNames.length = 1

namespace Fragment

variable {f : Fragment} {exit : Nat}

/-- In a trim fragment everything is discovered. -/
theorem Trim.discovery_perm (h : f.Trim exit) (hf : f.Closed) (hn : f.ids.Nodup) :
    f.discovery.Perm f.ids := by
  refine (List.perm_ext_iff_of_nodup f.nodup_discovery hn).2 fun i => ⟨?_, fun hi => ?_⟩
  · exact hf.mem_ids_of_mem_discovery
  · exact f.mem_discovery_iff.2 (h.from_start i hi)

theorem Trim.ofFragment (h : f.Trim exit) (hf : f.Closed) (hn : f.ids.Nodup) :
    (Automaton.ofFragment f).Trim := by
  have hperm := h.discovery_perm hf hn
  have hstates : (Automaton.ofFragment f).states =
      f.ids.map fun i => ⟨i, nameIn f.discovery i⟩ := by
    rw [ids, List.map_map]
    rfl
  have hname : ∀ i ∈ f.ids, nameIn f.discovery i = some (stateName (f.discovery.idxOf i)) :=
    fun i hi => nameIn_of_mem (hperm.mem_iff.2 hi)
  refine ⟨⟨exit, h.accept_eq, ?_⟩, ?_, ?_, ?_, ?_⟩
  · rw [hstates]
    intro s hs
    obtain ⟨i, hi, rfl⟩ := List.mem_map.1 hs
    exact ⟨h.from_start i hi, h.to_exit i hi⟩
  · rw [hstates]
    intro s hs
    obtain ⟨i, hi, rfl⟩ := List.mem_map.1 hs
    simp only [hname i hi, Option.isSome_some]
  · rw [Automaton.orderedStates_ofFragment hf, hstates]
    exact hperm.map _
  · exact perm_flatMap_filter Transition.source f.nodup_discovery fun t ht =>
      hperm.mem_iff.2 (hf.source_mem t ht)
  · have hexit : exit ∈ f.ids := hf.accept_mem exit h.mem_accept
    have haccept : (Automaton.ofFragment f).accept = [exit] := h.accept_eq
    rw [Automaton.finalNames, haccept, List.filterMap_cons_some
      ((Automaton.name?_ofFragment hexit).trans (hname exit hexit))]
    rfl

end Fragment

/-- The automaton of an assembly is trim. -/
theorem Assembled.trim_automaton {shared : Bool} {e : Expression} {f : Fragment}
    (h : Assembled shared e f) : (Automaton.ofFragment f).Trim := by
  obtain ⟨exit, htrim⟩ := h.exists_trim
  exact htrim.ofFragment h.closed h.nodup

end EpsilonNfa
