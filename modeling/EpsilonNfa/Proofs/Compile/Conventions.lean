import EpsilonNfa.Proofs.Builder.Conventions
import EpsilonNfa.Proofs.Compile.Assembly
import EpsilonNfa.Proofs.Compile.Faults

/-!
What the conventions can change. Whether a pattern compiles, and what is wrong with it if it does
not, is checked before any convention is read. Of the two flags one is read for the empty pattern
alone, which has a fragment of its own, and the other when a star is built; so under conventions
that agree where they are read a pattern has one automaton, down to the numbers of its states.

    emptyLanguage   read for    ""
    sharedStar      read for    patterns with `*`
-/

namespace EpsilonNfa

variable {flags flags' : Flags} {pattern : String}

/-- A sequence that can be arranged has a star where its pattern has one. -/
theorem star_mem_of_arrange {tokens ordered : List Token} (hp : tokenize pattern = .ok tokens)
    (h : arrange tokens = .ok ordered) (hstar : .operator .star ∈ ordered) :
    '*' ∈ pattern.toList := by
  have hmem := mem_of_arrange h hstar rfl nofun
  rw [← Token.display_eq_iff.1 (tokenize_eq_ok_iff.1 hp).2]
  exact List.mem_map_of_mem hmem

/-- Where two conventions agree on what is read of them, they give one fragment. -/
theorem fragmentOf_congr (hempty : pattern = "" → flags.emptyLanguage = flags'.emptyLanguage)
    (hstar : '*' ∈ pattern.toList → flags.sharedStar = flags'.sharedStar) :
    fragmentOf flags pattern = fragmentOf flags' pattern := by
  by_cases hp : pattern = ""
  · subst hp
    simp only [fragmentOf_empty, Builder.empty_eq, Builder.new, hempty rfl]
  · rw [fragmentOf, fragmentOf]
    split
    · rfl
    · next h => exact absurd (tokenize_eq_nil_iff.1 h) hp
    · next tokens _ htokens =>
      cases harranged : arrange tokens with
      | error fault => rfl
      | ok ordered =>
        have hbuild : (Builder.new flags).build ordered =
            Builder.resultUnder flags ((Builder.new flags').build ordered) :=
          (Builder.new flags').build_under fun hmem =>
            hstar (star_mem_of_arrange htokens harranged hmem)
        simp only [hbuild, Builder.resultUnder]

/-- A pattern fails to compile under all conventions or under none, and always for the same fault.
    Two conventions that agree about the empty language, unless the pattern has characters, and
    about stars, unless it has none, give it the same automaton, with the same numbers and names and
    with everything in the same order. -/
theorem compile_where_conventions_agree (flags flags' : Flags) (pattern : String) :
    (∀ fault, compile flags pattern = .error fault ↔ compile flags' pattern = .error fault) ∧
    ((pattern = "" → flags.emptyLanguage = flags'.emptyLanguage) →
      ('*' ∈ pattern.toList → flags.sharedStar = flags'.sharedStar) →
      compile flags pattern = compile flags' pattern) := by
  constructor
  · intro fault
    rw [compile_eq_error_iff, compile_eq_error_iff]
  · intro hempty hstar
    rw [compile, compile, fragmentOf_congr hempty hstar]

/-- A star under conventions that differ about the empty language, and a union without a star under
    conventions that differ about everything. -/
theorem compile_where_conventions_agree_union :
    (∃ a, compile .none "(a|b)*c" = .ok a ∧ compile { emptyLanguage := true } "(a|b)*c" = .ok a) ∧
    ∃ a, compile .none "a(b|c)" = .ok a ∧
      compile { emptyLanguage := true, sharedStar := true } "a(b|c)" = .ok a := by
  obtain ⟨a, ha⟩ : ∃ a, compile .none "(a|b)*c" = .ok a := ⟨_, rfl⟩
  obtain ⟨b, hb⟩ : ∃ b, compile .none "a(b|c)" = .ok b := ⟨_, rfl⟩
  refine ⟨⟨a, ha, ?_⟩, b, hb, ?_⟩
  · rw [← ha]
    exact (compile_where_conventions_agree _ _ _).2 (by decide) fun _ => rfl
  · rw [← hb]
    exact (compile_where_conventions_agree _ _ _).2 (by decide) (by decide)

-- the flag for stars does show where there is one
example : compile .none "a*" ≠ compile { sharedStar := true } "a*" := by decide

end EpsilonNfa
