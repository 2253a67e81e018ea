import EpsilonNfa.Fragment.Relabel
import EpsilonNfa.Lists
import EpsilonNfa.Proofs.Fragment.Language
import Mathlib.Data.List.Nodup

/-!
Relabelling a closed fragment succeeds and renames its states one to one, so what is relabelled
keeps its shape and its language. `map` renames every mention of a state by a total function; the
relabelled fragment is `moved`, the renaming by `freshId`.
-/

namespace EpsilonNfa

/-- A transition with both ends renamed. -/
def Transition.map (σ : Nat → Nat) (t : Transition) : Transition :=
  ⟨σ t.source, t.symbol, σ t.target⟩

namespace Fragment

/-- A fragment with every mention of a state renamed. -/
def map (σ : Nat → Nat) (f : Fragment) : Fragment where
  start := σ f.start
  accept := f.accept.map σ
  states := f.states.map fun state => { state with id := σ state.id }
  transitions := f.transitions.map (Transition.map σ)

variable {f : Fragment} {σ : Nat → Nat}

@[simp]
theorem ids_map (σ : Nat → Nat) (f : Fragment) : (f.map σ).ids = f.ids.map σ := by
  simp [ids, map]

theorem mem_transitions_map {t : Transition} :
    t ∈ (f.map σ).transitions ↔ ∃ u ∈ f.transitions, u.map σ = t := by
  simp [map]

theorem Closed.map (hf : f.Closed) (σ : Nat → Nat) : (f.map σ).Closed where
  start_mem := by
    rw [ids_map]
    exact List.mem_map_of_mem hf.start_mem
  accept_mem := by
    rw [ids_map]
    intro i hi
    obtain ⟨q, hq, rfl⟩ := List.mem_map.1 hi
    exact List.mem_map_of_mem (hf.accept_mem q hq)
  source_mem := by
    rw [ids_map]
    intro t ht
    obtain ⟨u, hu, rfl⟩ := mem_transitions_map.1 ht
    exact List.mem_map_of_mem (hf.source_mem u hu)
  target_mem := by
    rw [ids_map]
    intro t ht
    obtain ⟨u, hu, rfl⟩ := mem_transitions_map.1 ht
    exact List.mem_map_of_mem (hf.target_mem u hu)

/-- Every mention of a state, whether the state is listed or not. -/
def mentioned (f : Fragment) : List Nat :=
  f.start :: (f.accept ++ f.ids ++ f.transitions.map Transition.source
    ++ f.transitions.map Transition.target)

/-- What matters of a renaming is where it takes the states that are mentioned. -/
theorem map_congr_mentioned {τ : Nat → Nat} (h : ∀ i ∈ f.mentioned, σ i = τ i) :
    f.map σ = f.map τ := by
  simp only [mentioned, List.mem_cons, List.mem_append, List.mem_map] at h
  have hstart : σ f.start = τ f.start := h f.start (by simp)
  have haccept : f.accept.map σ = f.accept.map τ :=
    List.map_congr_left fun i hi => h i (by simp [hi])
  have hstates : (f.states.map fun s => { s with id := σ s.id }) =
      f.states.map fun s => { s with id := τ s.id } := by
    refine List.map_congr_left fun s hs => ?_
    have hid : s.id ∈ f.ids := List.mem_map_of_mem hs
    rw [h s.id (by simp [hid])]
  have hmoves : f.transitions.map (Transition.map σ) = f.transitions.map (Transition.map τ) := by
    refine List.map_congr_left fun t ht => ?_
    have hsource := h t.source (.inr (.inl (.inr ⟨t, ht, rfl⟩)))
    have htarget := h t.target (.inr (.inr ⟨t, ht, rfl⟩))
    rw [Transition.map, Transition.map, hsource, htarget]
  rw [map, map, hstart, haccept, hstates, hmoves]

/-- A closed fragment mentions what it lists. -/
theorem Closed.mem_ids_of_mem_mentioned (hf : f.Closed) {i : Nat} (hi : i ∈ f.mentioned) :
    i ∈ f.ids := by
  simp only [mentioned, List.mem_cons, List.mem_append, List.mem_map] at hi
  rcases hi with rfl | ((hi | hi) | ⟨t, ht, rfl⟩) | ⟨t, ht, rfl⟩
  · exact hf.start_mem
  · exact hf.accept_mem i hi
  · exact hi
  · exact hf.source_mem t ht
  · exact hf.target_mem t ht

/-! ### The language of a renamed fragment -/

theorem tail_le_tail_map (p : Nat) : f.tail p ≤ (f.map σ).tail (σ p) := by
  refine tail_le (K := fun p => (f.map σ).tail (σ p)) ?_ ?_ p
  · intro q hq
    exact one_le_tail (List.mem_map_of_mem hq) rfl
  · intro t ht w hw
    exact word_append_mem_tail (mem_transitions_map.2 ⟨t, ht, rfl⟩) hw

theorem tail_map_le (hf : f.Closed) (hσ : ∀ p ∈ f.ids, ∀ q ∈ f.ids, σ p = σ q → p = q) {p : Nat}
    (hp : p ∈ f.ids) : (f.map σ).tail (σ p) ≤ f.tail p := by
  -- what is left to read from a new number, whatever state has it
  have := tail_le (f := f.map σ) (K := fun i => {w | ∀ q ∈ f.ids, σ q = i → w ∈ f.tail q})
    ?_ ?_ (σ p)
  · exact fun w hw => this hw p hp rfl
  · intro i hi q hq hqi
    obtain ⟨a, ha, rfl⟩ := List.mem_map.1 hi
    obtain rfl := hσ q hq a (hf.accept_mem a ha) hqi
    exact one_le_tail ha rfl
  · intro t ht w hw q hq hqt
    obtain ⟨u, hu, rfl⟩ := mem_transitions_map.1 ht
    obtain rfl := hσ q hq u.source (hf.source_mem u hu) hqt
    exact word_append_mem_tail hu (hw u.target (hf.target_mem u hu) rfl)

/-- Renaming the states one to one changes no word. -/
theorem language_map (hf : f.Closed) (hσ : ∀ p ∈ f.ids, ∀ q ∈ f.ids, σ p = σ q → p = q) :
    (f.map σ).language = f.language :=
  le_antisymm (tail_map_le hf hσ hf.start_mem) (tail_le_tail_map f.start)

/-! ### The relabelled fragment -/

/-- Where every state has its number, every look-up succeeds. -/
theorem translate?_eq_map (hf : f.Closed) {fresh? : Nat → Option Nat}
    (h : ∀ i ∈ f.ids, fresh? i = some (σ i)) : f.translate? fresh? = some (f.map σ) := by
  have haccept : f.accept.mapM fresh? = some (f.accept.map σ) :=
    mapM_eq_some_of_forall fun i hi => h i (hf.accept_mem i hi)
  have hstates : f.states.mapM (fun s => return { s with id := ← fresh? s.id }) =
      some (f.states.map fun s => { s with id := σ s.id }) :=
    mapM_eq_some_of_forall fun s hs => by simp [h s.id (List.mem_map_of_mem hs)]
  have hmoves : f.transitions.mapM (Transition.relabel? fresh?) =
      some (f.transitions.map (Transition.map σ)) :=
    mapM_eq_some_of_forall fun t ht => by
      simp [Transition.relabel?, Transition.map, h _ (hf.source_mem t ht), h _ (hf.target_mem t ht)]
  simp only [translate?, h f.start hf.start_mem, haccept, hstates, hmoves]
  rfl

end Fragment

/-- The fresh number of a listed state. -/
def freshId (base : Nat) (ids : List Nat) (id : Nat) : Nat :=
  (freshId? base ids id).getD 0

theorem freshId?_eq_some (base : Nat) {ids : List Nat} {id : Nat} (h : id ∈ ids) :
    freshId? base ids id = some (freshId base ids id) := by
  have hsome : (freshId? base ids id).isSome := freshId?_isSome_iff.2 h
  obtain ⟨fresh, hfresh⟩ := Option.isSome_iff_exists.1 hsome
  simp [freshId, hfresh]

theorem freshId_injective {base : Nat} {ids : List Nat} :
    ∀ p ∈ ids, ∀ q ∈ ids, freshId base ids p = freshId base ids q → p = q := by
  intro p hp q hq h
  have hp' := freshId?_eq_some base hp
  rw [h] at hp'
  exact freshId?_injective hp' (freshId?_eq_some base hq)

namespace Fragment

/-- The fragment on the fresh numbers from `base` on. -/
def moved (base : Nat) (f : Fragment) : Fragment :=
  f.map (freshId base f.ids)

variable {f : Fragment} {base : Nat}

/-- Relabelling a closed fragment succeeds. -/
theorem relabel?_eq_moved (hf : f.Closed) : f.relabel? base = some (f.moved base) := by
  rw [relabel?_eq]
  exact translate?_eq_map hf fun i hi => freshId?_eq_some base hi

theorem Closed.moved (hf : f.Closed) : (f.moved base).Closed :=
  hf.map _

theorem nodup_moved (h : f.ids.Nodup) : (f.moved base).ids.Nodup := by
  rw [moved, ids_map]
  exact h.map_on freshId_injective

theorem bounds_of_mem_moved {i : Nat} (hi : i ∈ (f.moved base).ids) :
    base ≤ i ∧ i < base + f.states.length := by
  rw [moved, ids_map] at hi
  obtain ⟨q, hq, rfl⟩ := List.mem_map.1 hi
  have := freshId?_bounds (freshId?_eq_some base hq)
  simpa [ids] using this

/-- Relabelling changes no word. -/
theorem language_moved (hf : f.Closed) : (f.moved base).language = f.language :=
  language_map hf freshId_injective

end Fragment

end EpsilonNfa
