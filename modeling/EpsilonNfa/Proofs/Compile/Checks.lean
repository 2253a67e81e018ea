import EpsilonNfa.Compile
import EpsilonNfa.Proofs.Builder.Stack

/-!
What can go wrong in a compilation goes wrong before the first state is made. The checks of a
pattern, which make no state, are `validate`; the construction that follows them cannot fail, since
it stops exactly where the arity check does.
-/

namespace EpsilonNfa

theorem checkArity_of_arrange {tokens ordered : List Token} (h : arrange tokens = .ok ordered) :
    toPostfix (expandConcatenation tokens) = .ok ordered ∧ checkArity ordered = .ok () := by
  unfold arrange at h
  split at h
  · cases h
  · next ordered' hordered =>
    split at h
    · cases h
    · next harity =>
      cases h
      exact ⟨hordered, harity⟩

/-- What is checked of a pattern before the first state is made: its alphabet, its parentheses and
    its operands. -/
def validate (pattern : String) : Except PatternFault Unit :=
  match tokenize pattern with
  | .error fault => .error fault
  | .ok [] => .ok ()
  | .ok tokens => (arrange tokens).map fun _ => ()

/-- A pattern that passes the checks has a fragment, and one that does not fails for the fault that
    they find. -/
theorem map_fragmentOf (flags : Flags) (pattern : String) :
    (fragmentOf flags pattern).map (fun _ => ()) = (validate pattern).mapError .pattern := by
  cases hp : tokenize pattern with
  | error fault =>
    simp only [fragmentOf, validate, hp]
    rfl
  | ok tokens =>
    cases tokens with
    | nil =>
      simp only [fragmentOf, validate, hp]
      rfl
    | cons token rest =>
      simp only [fragmentOf, validate, hp]
      cases h : arrange (token :: rest) with
      | error fault => rfl
      | ok ordered =>
        have := (Builder.new flags).map_build ordered
        rw [(checkArity_of_arrange h).2] at this
        exact this

theorem map_compile (flags : Flags) (pattern : String) :
    (compile flags pattern).map (fun _ => ()) = (validate pattern).mapError .pattern := by
  rw [← map_fragmentOf flags pattern, compile]
  cases fragmentOf flags pattern <;> rfl

/-- The construction succeeds exactly where the arity check does and fails for the same fault, from
    any builder and on any sequence; so a pattern compiles exactly when it passes the checks that
    make no state, and what they find is the only way for it to fail. -/
theorem construction_agrees_with_checks :
    (∀ (b : Builder) (tokens : List Token),
      (b.build tokens).1.map (fun _ => ()) = (checkArity tokens).mapError .pattern) ∧
    ∀ (flags : Flags) (pattern : String),
      (compile flags pattern).map (fun _ => ()) = (validate pattern).mapError .pattern :=
  ⟨Builder.map_build, map_compile⟩

end EpsilonNfa
