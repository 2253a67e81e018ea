import EpsilonNfa.Proofs.Automaton.Trim
import EpsilonNfa.Proofs.Compile.Assembly

/-!
Nothing that a compilation makes is useless: an automaton has one accepting state, and all its
states and transitions lie on walks from the start to that state. Only the empty pattern is an
exception, because it can have no accepting state at all.
-/

namespace EpsilonNfa

/-- The automaton of every sequence that passes the arity check, and of every pattern that compiles
    and is not empty, is trim. -/
theorem trim_of_construction :
    (∀ (b : Builder) (tokens : List Token), checkArity tokens = .ok () →
      ∃ f, (b.build tokens).1 = .ok f ∧ (Automaton.ofFragment f).Trim) ∧
    ∀ (flags : Flags) (pattern : String) (a : Automaton), compile flags pattern = .ok a →
      pattern ≠ "" → a.Trim := by
  constructor
  · intro b tokens h
    obtain ⟨e, f, -, hbuild, hassembled⟩ := b.exists_assembled_build h
    exact ⟨f, hbuild, hassembled.trim_automaton⟩
  · intro flags pattern a h hne
    obtain ⟨f, hf, rfl⟩ := exists_fragmentOf h
    obtain ⟨tokens, e, -, -, hassembled⟩ := exists_assembled_of_fragmentOf hf hne
    exact hassembled.trim_automaton

/-- A silent symbol under two kinds of star, and a pattern with all operators. -/
theorem trim_of_construction_star :
    let tokens : List Token := [.symbol .epsilon, .operator .star, .symbol (.letter 'a'),
      .operator .union]
    (checkArity tokens = .ok () ∧
      (∃ f, ((Builder.new .none).build tokens).1 = .ok f ∧ (Automaton.ofFragment f).Trim) ∧
      ∃ f, ((Builder.new { sharedStar := true }).build tokens).1 = .ok f ∧
        (Automaton.ofFragment f).Trim) ∧
    ∃ a, compile .none "(a|b)*c" = .ok a ∧ "(a|b)*c" ≠ "" ∧ a.Trim := by
  intro tokens
  have h : checkArity tokens = .ok () := rfl
  obtain ⟨a, ha⟩ : ∃ a, compile .none "(a|b)*c" = .ok a := ⟨_, rfl⟩
  have hne : "(a|b)*c" ≠ "" := by decide
  exact ⟨⟨h, trim_of_construction.1 _ tokens h, trim_of_construction.1 _ tokens h⟩, a, ha, hne,
    trim_of_construction.2 _ _ a ha hne⟩

end EpsilonNfa
