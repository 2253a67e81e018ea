import EpsilonNfa.Proofs.Automaton.Table
import EpsilonNfa.Proofs.Drawing.Reading
import Mathlib.Data.List.Perm.Basic

/-!
What a drawing and a table say of one automaton. Both list the states that can be reached and the
moves between them, and each tells the other one: `ofLines?` finds the table in the lines of a
drawing, and `lines` draws a table.

    table              drawing
    states             the states, in order
    finals             those of them in a double circle
    starts             the entry
    moves              the moves, in order; "$" is a dashed ε, any other label is the letter itself
    letters            the labels besides "$"

For that an automaton must have nothing that a drawing leaves out or tells in another order: letters
that are on no visited move, or more accepting states than one. `Drawable` says so of a fragment.
-/

namespace EpsilonNfa

open Drawing (Line)

/-- The symbol that a label stands for. -/
def Symbol.ofLabel (label : String) : Symbol :=
  match label.toList with
  | [c] => if c = '$' then .epsilon else .letter c
  | _ => .epsilon

/-- A label stands for its symbol, unless that is the letter of the silent label. -/
theorem Symbol.ofLabel_label {s : Symbol} (hs : s ≠ .letter '$') : ofLabel s.label = s := by
  cases s with
  | letter c =>
    have hc : c ≠ '$' := by
      rintro rfl
      exact hs rfl
    simp [label, ofLabel, hc]
  | epsilon => simp [label, silentLabel, ofLabel]

theorem Symbol.eq_letter_of_letter? {s : Symbol} {c : Char} (h : s.letter? = some c) :
    s = .letter c := by
  cases s with
  | letter d => exact congrArg letter (Option.some.inj h)
  | epsilon => cases h

namespace Table

/-! ### From a drawing to a table -/

/-- The states at the beginning of some lines, each with its kind of circle, and what follows. -/
def leadingNodes : List Line → List (String × Bool) × List Line
  | .node name final :: lines => ((name, final) :: (leadingNodes lines).1, (leadingNodes lines).2)
  | lines => ([], lines)

/-- The move that a line draws. -/
def edge? : Line → Option Move
  | .edge source symbol target => some ⟨source, symbol.label, target⟩
  | _ => none

/-- The table that lines draw: states, then the entry, then moves. -/
def ofLines? (lines : List Line) : Option Table :=
  match leadingNodes lines with
  | (nodes, .entry start :: rest) =>
    (rest.mapM edge?).map fun moves =>
      { states := nodes.map Prod.fst
        letters := .ofList ((moves.map Move.label).filter (· ≠ silentLabel))
        moves
        starts := [start]
        finals := (nodes.filter Prod.snd).map Prod.fst }
  | _ => none

/-- The table that a text draws. -/
def ofDot? (text : String) : Option Table :=
  (Drawing.lines? text).bind ofLines?

theorem leadingNodes_append {α : Type} (name : α → String) (final : α → Bool) (l : List α)
    (start : String) (rest : List Line) :
    leadingNodes (l.map (fun a => .node (name a) (final a)) ++ .entry start :: rest) =
      (l.map fun a => (name a, final a), .entry start :: rest) := by
  induction l with
  | nil => rfl
  | cons a l ih => rw [List.map_cons, List.cons_append, leadingNodes, ih, List.map_cons]

/-! ### From a table to a drawing -/

/-- The lines that draw a table. -/
def lines (table : Table) : List Line :=
  table.states.map (fun name => .node name (name ∈ table.finals)) ++
    (table.starts.map .entry ++
      table.moves.map fun m => .edge m.source (.ofLabel m.label) m.target)

/-- A table that its lines tell: it has one start, its accepting states come in the order of the
    states, its labels stand for symbols, and its letters are labels. -/
structure Legible (table : Table) : Prop where
  starts_eq : ∃ start, table.starts = [start]
  finals_eq : table.finals = table.states.filter (· ∈ table.finals)
  label_eq : ∀ m ∈ table.moves, (Symbol.ofLabel m.label).label = m.label
  letters_eq : table.letters = .ofList ((table.moves.map Move.label).filter (· ≠ silentLabel))

/-- The lines of such a table draw it. -/
theorem ofLines?_lines {table : Table} (h : table.Legible) : ofLines? table.lines = some table := by
  obtain ⟨start, hstart⟩ := h.starts_eq
  have hmoves : (table.moves.map fun m =>
      Line.edge m.source (.ofLabel m.label) m.target).mapM edge? = some table.moves :=
    mapM_map_of_forall fun m hm => by rw [edge?, h.label_eq m hm]
  have hstates : (table.states.map fun name => (name, decide (name ∈ table.finals))).map Prod.fst =
      table.states := by
    rw [List.map_map]
    exact List.map_id' _
  have hfinals : ((table.states.map fun name => (name, decide (name ∈ table.finals))).filter
      Prod.snd).map Prod.fst = table.finals := by
    rw [List.filter_map, List.map_map]
    exact (List.map_id' _).trans h.finals_eq.symm
  rw [lines, hstart, List.map_singleton, List.singleton_append, ofLines?, leadingNodes_append]
  simp only [hmoves, hstates, hfinals, ← h.letters_eq, ← hstart, Option.map_some]

end Table

/-! ### Automata that are drawn completely -/

/-- A drawing shows all of a fragment: its states are listed, every transition is visited, it has one
    exit or none, and it reads letters and digits. -/
structure Fragment.Drawable (f : Fragment) : Prop where
  closed : f.Closed
  source_mem : ∀ t ∈ f.transitions, t.source ∈ f.discovery
  length_accept : f.accept.length ≤ 1
  isAlphanum : ∀ t ∈ f.transitions, ∀ c, t.symbol = .letter c → c.isAlphanum = true

/-- The elements that two lists share come in one order when one list has but one element. -/
theorem filter_mem_comm {l m : List Nat} (hl : l.Nodup) (hm : m.length ≤ 1) :
    l.filter (· ∈ m) = m.filter (· ∈ l) := by
  have hnodup : m.Nodup := by
    match m, hm with
    | [], _ => exact List.nodup_nil
    | [a], _ => exact List.nodup_singleton a
  have hperm : (l.filter (· ∈ m)).Perm (m.filter (· ∈ l)) :=
    (List.perm_ext_iff_of_nodup (hl.filter _) (hnodup.filter _)).2 fun a => by simp [and_comm]
  cases hshared : m.filter (· ∈ l) with
  | nil =>
    rw [hshared] at hperm
    exact hperm.eq_nil
  | cons a rest =>
    have hlength := List.length_filter_le (· ∈ l) m
    rw [hshared, List.length_cons] at hlength
    obtain rfl : rest = [] := List.eq_nil_of_length_eq_zero (by omega)
    rw [hshared] at hperm
    exact hperm.eq_singleton

theorem Automaton.isFinal_ofFragment {f : Fragment} (i : Nat) :
    (ofFragment f).isFinal i = decide (i ∈ f.accept) := by
  simp [isFinal, ofFragment]

theorem isName_stateName (place : Nat) : Drawing.IsName (stateName place) := by
  intro c hc
  rw [stateName, String.toList_append, List.mem_append, Nat.toList_repr] at hc
  rcases hc with hq | hdigit
  · obtain rfl : c = 'q' := by simpa using hq
    rfl
  · have := Nat.isDigit_of_mem_toDigits (by decide) (by decide) hdigit
    simp [Char.isAlphanum, this]

namespace Fragment.Drawable

open Automaton

variable {f : Fragment} (h : f.Drawable)
include h

theorem ne_dollar {t : Transition} (ht : t ∈ f.transitions) : t.symbol ≠ .letter '$' := by
  intro hsymbol
  exact absurd (h.isAlphanum t ht _ hsymbol) (by decide)

theorem states_eq : (Table.ofAutomaton (.ofFragment f)).states =
    f.discovery.map (ofFragment f).label := by
  rw [Table.ofAutomaton, orderedStates_ofFragment h.closed, List.filterMap_map]
  exact (List.filterMap_congr fun i hi => nameIn_eq_label h.closed hi).trans
    (congrFun List.filterMap_eq_map _)

/-- The accepting states in order of discovery are the accepting states as they are listed. -/
theorem finals_eq : (Table.ofAutomaton (.ofFragment f)).finals =
    (f.discovery.filter (· ∈ f.accept)).map (ofFragment f).label := by
  rw [filter_mem_comm f.nodup_discovery h.length_accept]
  exact finalNames_ofFragment h.closed

theorem label_mem_finals {i : Nat} (hi : i ∈ f.discovery) :
    (ofFragment f).label i ∈ (Table.ofAutomaton (.ofFragment f)).finals ↔ i ∈ f.accept := by
  constructor
  · intro hname
    -- no other state has the name
    obtain ⟨j, haccept, hj, heq⟩ := (mem_finalNames h.closed).1 hname
    exact label_injective h.closed hj hi heq ▸ haccept
  · exact fun haccept => (mem_finalNames h.closed).2 ⟨i, haccept, hi, rfl⟩

/-- The letters are the labels of the moves on letters. -/
theorem letters_eq : (Table.ofAutomaton (.ofFragment f)).letters =
    OrderedSet.ofList (((Table.ofAutomaton (.ofFragment f)).moves.map Move.label).filter
      (· ≠ silentLabel)) := by
  refine OrderedSet.eq_of_mem_iff fun x => ?_
  simp only [OrderedSet.mem_ofList, List.mem_filter, List.mem_map, decide_eq_true_eq]
  constructor
  · intro hx
    simp only [Table.ofAutomaton, alphabet, OrderedSet.mem_ofList, List.mem_map,
      List.mem_filterMap] at hx
    obtain ⟨c, ⟨t, ht, hc⟩, rfl⟩ := hx
    have hsymbol := Symbol.eq_letter_of_letter? hc
    refine ⟨⟨_, Table.mem_moves.2 ⟨t, ht, h.source_mem t ht, rfl⟩, ?_⟩, ?_⟩
    · rw [hsymbol]
      rfl
    · exact Symbol.label_ne_silentLabel (hsymbol ▸ h.ne_dollar ht)
  · rintro ⟨⟨m, hm, rfl⟩, hlabel⟩
    exact Table.label_mem_letters hm hlabel

theorem legible : (Table.ofAutomaton (.ofFragment f)).Legible where
  starts_eq := ⟨_, rfl⟩
  finals_eq := by
    rw [h.states_eq, List.filter_map]
    refine h.finals_eq.trans (congrArg _ (List.filter_congr fun i hi => ?_))
    exact decide_eq_decide.2 (h.label_mem_finals hi).symm
  label_eq m hm := by
    obtain ⟨t, ht, -, rfl⟩ := Table.mem_moves.1 hm
    exact congrArg Symbol.label (Symbol.ofLabel_label (h.ne_dollar ht))
  letters_eq := h.letters_eq

/-- The drawing is the table's. -/
theorem drawing_eq_lines :
    (ofFragment f).drawing = (Table.ofAutomaton (.ofFragment f)).lines := by
  have hnodes : (ofFragment f).orderedStates.map
      (fun s => Line.node (s.name.getD "") ((ofFragment f).isFinal s.id)) =
      (Table.ofAutomaton (.ofFragment f)).states.map fun name =>
        .node name (name ∈ (Table.ofAutomaton (.ofFragment f)).finals) := by
    rw [h.states_eq, orderedStates_ofFragment h.closed, List.map_map, List.map_map]
    refine List.map_congr_left fun i hi => ?_
    simp [nameIn_eq_label h.closed hi, isFinal_ofFragment, h.label_mem_finals hi]
  have hedges : ((ofFragment f).visitedTransitions.map fun t => Line.edge
      ((ofFragment f).label t.source) t.symbol ((ofFragment f).label t.target)) =
      (Table.ofAutomaton (.ofFragment f)).moves.map fun m =>
        .edge m.source (.ofLabel m.label) m.target := by
    rw [Table.ofAutomaton, List.map_map]
    refine List.map_congr_left fun t ht => ?_
    have hlabel := Symbol.ofLabel_label (h.ne_dollar (mem_visitedTransitions.1 ht).1)
    rw [Function.comp_apply, hlabel]
  rw [drawing, Table.lines, hnodes, hedges]
  rfl

/-- The lines have names without signs in them. -/
theorem plain : ∀ line ∈ (Table.ofAutomaton (.ofFragment f)).lines, line.Plain := by
  have hname {i : Nat} (hi : i ∈ f.discovery) : Drawing.IsName ((ofFragment f).label i) := by
    rw [label_ofFragment h.closed hi]
    exact isName_stateName _
  intro line hline
  rcases List.mem_append.1 hline with hnode | hrest
  · obtain ⟨name, hstate, rfl⟩ := List.mem_map.1 hnode
    rw [h.states_eq] at hstate
    obtain ⟨i, hi, rfl⟩ := List.mem_map.1 hstate
    exact hname hi
  rcases List.mem_cons.1 hrest with rfl | hedge
  · exact hname (f.mem_discovery_iff.2 (.refl _ _))
  · obtain ⟨m, hm, rfl⟩ := List.mem_map.1 hedge
    obtain ⟨t, ht, hsource, rfl⟩ := Table.mem_moves.1 hm
    have hlabel := Symbol.ofLabel_label (h.ne_dollar ht)
    refine ⟨hname hsource, hname (target_mem_discovery ht hsource), fun hbreak => ?_⟩
    exact absurd (h.isAlphanum t ht _ (hlabel.symm.trans hbreak)) (by decide)

/-- The text of the drawing is read as the lines of the table. -/
theorem lines?_toDot : Drawing.lines? (ofFragment f).toDot =
    some (Table.ofAutomaton (.ofFragment f)).lines := by
  rw [toDot, h.drawing_eq_lines, Drawing.lines?_render h.plain]

/-- The text of the drawing is read as the table. -/
theorem ofDot?_toDot :
    Table.ofDot? (ofFragment f).toDot = some (Table.ofAutomaton (.ofFragment f)) := by
  rw [Table.ofDot?, h.lines?_toDot, Option.bind_some, Table.ofLines?_lines h.legible]

/-- Two drawings are one text exactly when the tables are equal. -/
theorem toDot_eq_iff {g : Fragment} (hg : g.Drawable) :
    (ofFragment f).toDot = (ofFragment g).toDot ↔
      Table.ofAutomaton (.ofFragment f) = Table.ofAutomaton (.ofFragment g) := by
  constructor
  · intro hdot
    have htable := h.ofDot?_toDot
    rw [hdot, hg.ofDot?_toDot] at htable
    exact (Option.some.inj htable).symm
  · intro htable
    rw [toDot, toDot, h.drawing_eq_lines, hg.drawing_eq_lines, htable]

end Fragment.Drawable

end EpsilonNfa
