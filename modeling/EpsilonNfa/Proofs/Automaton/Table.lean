import EpsilonNfa.Proofs.Automaton.Naming
import EpsilonNfa.Table

/-!
What the table of an automaton says. A table is an automaton over names: its words are spelled in
letters, and a move with the silent label spells nothing. Names stand for discovered states one to
one, so a walk of the fragment that begins in a discovered state is a walk of the table and the
other way round; what the table leaves out is on no walk from the start.

    p ──c──▶ q            with p, q discovered and c any symbol but the silent label's letter
    label p ──"c"──▶ label q
-/

namespace EpsilonNfa

/-- What a move adds to a word: its label, or nothing. -/
def Move.word (m : Move) : List String :=
  if m.label = silentLabel then [] else [m.label]

/-- A letter's label is not the silent one, unless the letter is that label's. -/
theorem Symbol.label_ne_silentLabel {c : Char} (hc : letter c ≠ .letter '$') :
    (letter c).label ≠ silentLabel := by
  have hdollar : silentLabel = String.singleton '$' := rfl
  intro h
  rw [label, hdollar, String.singleton_inj] at h
  exact hc (congrArg letter h)

namespace Table

/-- `table.Reads x w y`: a walk over the moves from the name `x` to `y` spells `w`. -/
inductive Reads (table : Table) : String → List String → String → Prop where
  | nil (y : String) : Reads table y [] y
  | cons {m : Move} {w : List String} {y : String} :
      m ∈ table.moves → Reads table m.target w y → Reads table m.source (m.word ++ w) y

/-- The words a table accepts, in its letters. -/
def language (table : Table) : Language String :=
  {w | ∃ x ∈ table.starts, ∃ y ∈ table.finals, table.Reads x w y}

variable {f : Fragment}

open Automaton

theorem mem_moves {m : Move} : m ∈ (ofAutomaton (.ofFragment f)).moves ↔
    ∃ t ∈ f.transitions, t.source ∈ f.discovery ∧
      ⟨(Automaton.ofFragment f).label t.source, t.symbol.label,
        (Automaton.ofFragment f).label t.target⟩ = m := by
  simp only [ofAutomaton, List.mem_map, mem_visitedTransitions, and_assoc]

/-- A label that is not the silent one stands for a letter on a transition. -/
theorem label_mem_letters {m : Move} (hm : m ∈ (ofAutomaton (.ofFragment f)).moves)
    (hlabel : m.label ≠ silentLabel) :
    m.label ∈ (ofAutomaton (.ofFragment f)).letters.toList := by
  obtain ⟨t, ht, -, rfl⟩ := mem_moves.1 hm
  simp only [ofAutomaton, Automaton.alphabet, OrderedSet.mem_ofList, List.mem_map]
  cases hsymbol : t.symbol with
  | letter c =>
    refine ⟨c, List.mem_filterMap.2 ⟨t, ht, ?_⟩, rfl⟩
    rw [hsymbol, Symbol.letter?]
  | epsilon =>
    rw [hsymbol] at hlabel
    exact absurd rfl hlabel

end Table

end EpsilonNfa
