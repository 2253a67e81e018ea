import EpsilonNfa.Proofs.Automaton.Renaming
import EpsilonNfa.Proofs.Automaton.Naming

/-!
Tables and drawings are canonical: nothing shows in them of how a fragment happens to be written
down. Its states may be numbered otherwise, listed in another order, and carry any names; its
transitions may be listed in another order, as long as those of one state stay in theirs, since the
search follows them in that order. All of it holds of every fragment, whether it is closed or not
and however often a state is listed.

    what is kept              why it is enough
    start, exits              they are written by their names
    which states are listed   a look-up finds the number and its place in the search, or nothing
    outgoing transitions      the search asks for nothing else
-/

namespace EpsilonNfa

/-- `Rearranged f g`: the fragment `g` is `f` written down in another way. -/
inductive Rearranged : Fragment → Fragment → Prop where
  /-- Other numbers, different ones for different states that are mentioned. -/
  | renumber {f : Fragment} {σ : Nat → Nat} :
      (∀ p ∈ f.mentioned, ∀ q ∈ f.mentioned, σ p = σ q → p = q) → Rearranged f (f.map σ)
  /-- The states in another order. -/
  | permute {f : Fragment} {states : List State} :
      states.Perm f.states → Rearranged f { f with states }
  /-- Other names, or none. -/
  | rename {f : Fragment} {states : List State} :
      states.map State.id = f.states.map State.id → Rearranged f { f with states }
  /-- The transitions in another order, those of each state in the same order. -/
  | reorder {f : Fragment} {transitions : List Transition} :
      (∀ i, transitions.filter (·.source = i) = f.transitions.filter (·.source = i)) →
      Rearranged f { f with transitions }
  | trans {f g h : Fragment} : Rearranged f g → Rearranged g h → Rearranged f h

/-! ### The search -/

/-- The search asks for nothing but the successors of a state. -/
theorem explore_congr {ts us : List Transition}
    (h : ∀ i, successors us i = successors ts i) (order : List Nat) (cursor : Nat) :
    explore us order cursor = explore ts order cursor := by
  fun_induction explore ts order cursor with
  | case1 order cursor hlt ih => rw [explore, dif_pos hlt, h, ih]
  | case2 order cursor hge => rw [explore, dif_neg hge]

/-! ### Fragments on the same numbers -/

/-- Two fragments list the same states, mark the same ones, and have the same transitions out of
    each. -/
structure Fragment.Alike (f g : Fragment) : Prop where
  start_eq : g.start = f.start
  accept_eq : g.accept = f.accept
  mem_ids_iff : ∀ i, i ∈ g.ids ↔ i ∈ f.ids
  outgoing_eq : ∀ i, g.transitions.filter (·.source = i) = f.transitions.filter (·.source = i)

namespace Fragment.Alike

open Automaton

variable {f g : Fragment} (h : f.Alike g)
include h

theorem discovery_eq : g.discovery = f.discovery := by
  have hsuccessors (i : Nat) : successors g.transitions i = successors f.transitions i := by
    rw [successors, successors, h.outgoing_eq]
  rw [discovery, discovery, h.start_eq, explore_congr hsuccessors]

theorem mem_transitions_iff (t : Transition) : t ∈ g.transitions ↔ t ∈ f.transitions := by
  have hgroup (ts : List Transition) : t ∈ ts ↔ t ∈ ts.filter (·.source = t.source) := by simp
  rw [hgroup, h.outgoing_eq, ← hgroup]

theorem state?_eq (i : Nat) : (ofFragment g).state? i = (ofFragment f).state? i := by
  by_cases hi : i ∈ f.ids
  · rw [state?_ofFragment hi, state?_ofFragment ((h.mem_ids_iff i).2 hi), h.discovery_eq]
  · rw [state?_ofFragment_of_notMem hi,
      state?_ofFragment_of_notMem fun hg => hi ((h.mem_ids_iff i).1 hg)]

theorem name?_eq : (ofFragment g).name? = (ofFragment f).name? := by
  funext i
  rw [name?, name?, h.state?_eq]

theorem label_eq : (ofFragment g).label = (ofFragment f).label := by
  funext i
  rw [label, label, h.name?_eq]

theorem orderedStates_eq : (ofFragment g).orderedStates = (ofFragment f).orderedStates := by
  show g.discovery.filterMap _ = f.discovery.filterMap _
  rw [h.discovery_eq]
  exact List.filterMap_congr fun i _ => h.state?_eq i

theorem visitedTransitions_eq :
    (ofFragment g).visitedTransitions = (ofFragment f).visitedTransitions := by
  show g.discovery.flatMap _ = f.discovery.flatMap _
  rw [h.discovery_eq]
  exact List.flatMap_congr fun i _ => h.outgoing_eq i

theorem startName_eq : (ofFragment g).startName = (ofFragment f).startName := by
  show (ofFragment g).label g.start = (ofFragment f).label f.start
  rw [h.label_eq, h.start_eq]

theorem finalNames_eq : (ofFragment g).finalNames = (ofFragment f).finalNames := by
  show g.accept.filterMap _ = f.accept.filterMap _
  rw [h.accept_eq, h.name?_eq]

theorem isFinal_eq : (ofFragment g).isFinal = (ofFragment f).isFinal := by
  funext i
  show g.accept.contains i = f.accept.contains i
  rw [h.accept_eq]

/-- The letters are those of the transitions, in whatever order these come. -/
theorem alphabet_eq : (ofFragment g).alphabet = (ofFragment f).alphabet := by
  refine OrderedSet.eq_of_mem_iff fun c => ?_
  simp only [alphabet, OrderedSet.mem_ofList, List.mem_filterMap]
  exact exists_congr fun t => and_congr_left fun _ => h.mem_transitions_iff t

theorem table_eq : Table.ofAutomaton (ofFragment g) = Table.ofAutomaton (ofFragment f) := by
  simp only [Table.ofAutomaton, h.orderedStates_eq, h.visitedTransitions_eq, h.label_eq,
    h.startName_eq, h.finalNames_eq, h.alphabet_eq]

theorem toDot_eq : (ofFragment g).toDot = (ofFragment f).toDot := by
  simp only [toDot, drawing, h.orderedStates_eq, h.visitedTransitions_eq, h.label_eq,
    h.startName_eq, h.isFinal_eq]

end Fragment.Alike

/-! ### Rearranged fragments -/

variable {f g : Fragment}

theorem Fragment.alike_permute {states : List State} (h : states.Perm f.states) :
    f.Alike { f with states } where
  start_eq := rfl
  accept_eq := rfl
  mem_ids_iff _ := (h.map State.id).mem_iff
  outgoing_eq _ := rfl

theorem Fragment.alike_rename {states : List State}
    (h : states.map State.id = f.states.map State.id) : f.Alike { f with states } where
  start_eq := rfl
  accept_eq := rfl
  mem_ids_iff _ := by rw [ids, ids, h]
  outgoing_eq _ := rfl

theorem Fragment.alike_reorder {transitions : List Transition}
    (h : ∀ i, transitions.filter (·.source = i) = f.transitions.filter (·.source = i)) :
    f.Alike { f with transitions } where
  start_eq := rfl
  accept_eq := rfl
  mem_ids_iff _ := Iff.rfl
  outgoing_eq := h

/-- Numbers that are one to one on what a fragment mentions may be taken to be so everywhere. -/
theorem Fragment.exists_injective_map_eq {σ : Nat → Nat}
    (h : ∀ p ∈ f.mentioned, ∀ q ∈ f.mentioned, σ p = σ q → p = q) :
    ∃ τ : Nat → Nat, Function.Injective τ ∧ f.map σ = f.map τ := by
  obtain ⟨τ, hτ, heq⟩ := exists_injective_extension h
  exact ⟨τ, hτ, map_congr_mentioned fun i hi => (heq i hi).symm⟩

/-- However a fragment is written down, its automaton has one table and one drawing. -/
theorem table_and_toDot_of_rearranged (h : Rearranged f g) :
    Table.ofAutomaton (.ofFragment g) = Table.ofAutomaton (.ofFragment f) ∧
      (Automaton.ofFragment g).toDot = (Automaton.ofFragment f).toDot := by
  induction h with
  | renumber hσ =>
    obtain ⟨τ, hτ, heq⟩ := Fragment.exists_injective_map_eq hσ
    rw [heq]
    exact ⟨Automaton.table_map hτ _, Automaton.toDot_map hτ _⟩
  | permute hperm =>
    have halike := Fragment.alike_permute hperm
    exact ⟨halike.table_eq, halike.toDot_eq⟩
  | rename hids =>
    have halike := Fragment.alike_rename hids
    exact ⟨halike.table_eq, halike.toDot_eq⟩
  | reorder houtgoing =>
    have halike := Fragment.alike_reorder houtgoing
    exact ⟨halike.table_eq, halike.toDot_eq⟩
  | trans _ _ ihf ihg => exact ⟨ihg.1.trans ihf.1, ihg.2.trans ihf.2⟩

/-- A fragment that lists a state twice and mentions one that it does not list, on other numbers and
    with its states and transitions the other way round. -/
theorem table_and_toDot_of_rearranged_open :
    let f : Fragment := ⟨0, [1, 7], [.unnamed 0, .unnamed 1, .unnamed 0],
      [⟨0, .letter 'a', 1⟩, ⟨1, .epsilon, 7⟩, ⟨0, .letter 'b', 7⟩]⟩
    let g : Fragment := ⟨5, [3, 0], [⟨3, some "exit"⟩, ⟨5, none⟩, ⟨5, some "q9"⟩],
      [⟨3, .epsilon, 0⟩, ⟨5, .letter 'a', 3⟩, ⟨5, .letter 'b', 0⟩]⟩
    Rearranged f g ∧ Table.ofAutomaton (.ofFragment g) = Table.ofAutomaton (.ofFragment f) ∧
      (Automaton.ofFragment g).toDot = (Automaton.ofFragment f).toDot := by
  intro f g
  let σ : Nat → Nat := fun i => if i = 0 then 5 else if i = 1 then 3 else 0
  let states : List State := [⟨5, some "q9"⟩, ⟨3, some "exit"⟩, ⟨5, none⟩]
  have hnumbers : Rearranged f (f.map σ) := .renumber (by decide)
  have hnames : Rearranged (f.map σ) { f.map σ with states } := .rename rfl
  have hstates : Rearranged { f.map σ with states } { f.map σ with states := g.states } :=
    .permute (by decide)
  have htransitions : Rearranged { f.map σ with states := g.states } g := by
    refine .reorder fun i => ?_
    by_cases h3 : i = 3
    · subst h3
      rfl
    · by_cases h5 : i = 5
      · subst h5
        rfl
      · simp [Fragment.map, Transition.map, Ne.symm h3, Ne.symm h5, f, σ]
  have h : Rearranged f g := hnumbers.trans (hnames.trans (hstates.trans htransitions))
  exact ⟨h, table_and_toDot_of_rearranged h⟩

end EpsilonNfa
