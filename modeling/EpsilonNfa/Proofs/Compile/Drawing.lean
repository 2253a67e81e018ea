import EpsilonNfa.Proofs.Compile.Assembly
import EpsilonNfa.Proofs.Drawing.Table
import EpsilonNfa.Proofs.Fragment.Trim

/-!
Drawings of compiled patterns. Nothing that a compilation makes is useless, so a drawing leaves
nothing out, and what it draws are letters and digits; so the drawing and the table of a pattern tell
each other, and two patterns have one drawing exactly when they have one table.
-/

namespace EpsilonNfa

variable {flags : Flags} {pattern : String} {f : Fragment}

/-- A compiled fragment is trim, or it comes from the empty pattern and has no transition. -/
theorem trim_or_empty_of_fragmentOf (h : fragmentOf flags pattern = .ok f) :
    (∃ exit, f.Trim exit) ∨ f.transitions = [] ∧ f.accept.length ≤ 1 := by
  by_cases hp : pattern = ""
  · subst hp
    rw [fragmentOf_empty, Builder.empty_eq] at h
    cases h
    refine .inr ?_
    split
    · exact ⟨rfl, Nat.zero_le 1⟩
    · exact ⟨rfl, Nat.le_refl 1⟩
  · obtain ⟨tokens, e, -, -, hassembled⟩ := exists_assembled_of_fragmentOf h hp
    exact .inl hassembled.exists_trim

theorem drawable_of_fragmentOf (h : fragmentOf flags pattern = .ok f) : f.Drawable where
  closed := closed_of_fragmentOf h
  source_mem t ht := by
    rcases trim_or_empty_of_fragmentOf h with ⟨exit, htrim⟩ | ⟨hnone, -⟩
    · exact f.mem_discovery_iff.2 (htrim.from_start _ ((closed_of_fragmentOf h).source_mem t ht))
    · rw [hnone] at ht
      exact absurd ht List.not_mem_nil
  length_accept := by
    rcases trim_or_empty_of_fragmentOf h with ⟨exit, htrim⟩ | ⟨-, hlength⟩
    · exact Nat.le_of_eq (congrArg List.length htrim.accept_eq)
    · exact hlength
  isAlphanum t ht c hc := isAlphanum_of_fragmentOf h ht hc

/-- The text of a compiled pattern's drawing is read as the lines that draw the pattern's table, and
    as the table; and two such texts are equal exactly when the tables are. -/
theorem toDot_tells_table :
    (∀ (flags : Flags) (pattern : String) (a : Automaton), compile flags pattern = .ok a →
      Drawing.lines? a.toDot = some (Table.ofAutomaton a).lines ∧
        Table.ofDot? a.toDot = some (Table.ofAutomaton a)) ∧
    ∀ (flags flags' : Flags) (pattern pattern' : String) (a b : Automaton),
      compile flags pattern = .ok a → compile flags' pattern' = .ok b →
        (a.toDot = b.toDot ↔ Table.ofAutomaton a = Table.ofAutomaton b) := by
  constructor
  · intro flags pattern a h
    obtain ⟨f, hf, rfl⟩ := exists_fragmentOf h
    have hdrawable := drawable_of_fragmentOf hf
    exact ⟨hdrawable.lines?_toDot, hdrawable.ofDot?_toDot⟩
  · intro flags flags' pattern pattern' a b ha hb
    obtain ⟨f, hf, rfl⟩ := exists_fragmentOf ha
    obtain ⟨g, hg, rfl⟩ := exists_fragmentOf hb
    exact (drawable_of_fragmentOf hf).toDot_eq_iff (drawable_of_fragmentOf hg)

/-- A pattern under the two kinds of star. -/
theorem toDot_tells_table_star : ∃ a b, compile .none "(a|b)*c" = .ok a ∧
    compile { sharedStar := true } "(a|b)*c" = .ok b ∧
    Table.ofDot? a.toDot = some (Table.ofAutomaton a) ∧
    Table.ofDot? b.toDot = some (Table.ofAutomaton b) ∧
    (a.toDot = b.toDot ↔ Table.ofAutomaton a = Table.ofAutomaton b) := by
  obtain ⟨a, ha⟩ : ∃ a, compile .none "(a|b)*c" = .ok a := ⟨_, rfl⟩
  obtain ⟨b, hb⟩ : ∃ b, compile { sharedStar := true } "(a|b)*c" = .ok b := ⟨_, rfl⟩
  exact ⟨a, b, ha, hb, (toDot_tells_table.1 _ _ a ha).2, (toDot_tells_table.1 _ _ b hb).2,
    toDot_tells_table.2 _ _ _ _ a b ha hb⟩

end EpsilonNfa
