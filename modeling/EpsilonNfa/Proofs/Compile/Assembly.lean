import EpsilonNfa.Proofs.Builder.Construction
import EpsilonNfa.Proofs.Compile.Language
import EpsilonNfa.Proofs.Grammar.Dots

/-!
What a compilation assembles. The fragment of a pattern other than the empty one is an assembly of
the expression that the pattern's operator-last sequence spells, so what holds of every assembly
holds of it; its letters are letters of the pattern.
-/

namespace EpsilonNfa

/-- Arranging keeps every token but dots and parentheses as often as it was. -/
theorem count_of_arrange {tokens ordered : List Token} (h : arrange tokens = .ok ordered)
    {token : Token} (hbare : token.isBare = true) (hne : token ≠ .operator .concat) :
    ordered.count token = tokens.count token := by
  have hperm := (balanced_of_toPostfix (checkArity_of_arrange h).1).2
  calc ordered.count token
    _ = (bare ordered).count token := (List.count_filter hbare).symm
    _ = (bare (expandConcatenation tokens)).count token := hperm.count_eq token
    _ = (expandConcatenation tokens).count token := List.count_filter hbare
    _ = tokens.count token := (Redotted.expand tokens).count_eq hne

/-- Arranging brings in no token but dots. -/
theorem mem_of_arrange {tokens ordered : List Token} (h : arrange tokens = .ok ordered)
    {token : Token} (hmem : token ∈ ordered) (hbare : token.isBare = true)
    (hne : token ≠ .operator .concat) : token ∈ tokens := by
  rw [← List.count_pos_iff, count_of_arrange h hbare hne] at hmem
  exact List.count_pos_iff.1 hmem

variable {flags : Flags} {pattern : String} {f : Fragment}

/-- The automaton of a pattern is that of its fragment. -/
theorem exists_fragmentOf {a : Automaton} (h : compile flags pattern = .ok a) :
    ∃ f, fragmentOf flags pattern = .ok f ∧ a = .ofFragment f := by
  rw [compile] at h
  cases hf : fragmentOf flags pattern with
  | error fault =>
    rw [hf] at h
    cases h
  | ok f =>
    rw [hf] at h
    cases h
    exact ⟨f, rfl, rfl⟩

theorem fragmentOf_empty (flags : Flags) : fragmentOf flags "" = .ok (Builder.new flags).empty.1 := by
  rw [fragmentOf, tokenize_eq_nil_iff.2 rfl]

theorem transitions_of_fragmentOf_empty (h : fragmentOf flags "" = .ok f) : f.transitions = [] := by
  rw [fragmentOf_empty, Builder.empty_eq] at h
  cases h
  split
  · rfl
  · rfl

/-- A pattern with characters has the fragment of an expression. -/
theorem exists_assembled_of_fragmentOf (h : fragmentOf flags pattern = .ok f)
    (hne : pattern ≠ "") : ∃ (tokens : List Token) (e : Expression),
      tokenize pattern = .ok tokens ∧ arrange tokens = .ok e.postorder ∧
      Assembled flags.sharedStar e f := by
  rw [fragmentOf] at h
  split at h
  · cases h
  · next hp => exact absurd (tokenize_eq_nil_iff.1 hp) hne
  · next tokens _ hp =>
    split at h
    · cases h
    · next ordered harranged =>
      obtain ⟨e, g, rfl, hbuild, hassembled⟩ :=
        (Builder.new flags).exists_assembled_build (checkArity_of_arrange harranged).2
      obtain rfl : g = f := Except.ok.inj (hbuild.symm.trans h)
      exact ⟨tokens, e, hp, harranged, hassembled⟩

theorem closed_of_fragmentOf (h : fragmentOf flags pattern = .ok f) : f.Closed := by
  by_cases hp : pattern = ""
  · subst hp
    rw [fragmentOf_empty] at h
    cases h
    obtain ⟨g, n, hempty, hwithin, -⟩ := (Builder.new flags).empty_spec
    rw [hempty]
    exact hwithin.toClosed
  · obtain ⟨tokens, e, -, -, hassembled⟩ := exists_assembled_of_fragmentOf h hp
    exact hassembled.closed

/-- Only ASCII letters and digits are read. -/
theorem isAlphanum_of_fragmentOf (h : fragmentOf flags pattern = .ok f) {t : Transition}
    (ht : t ∈ f.transitions) {c : Char} (hc : t.symbol = .letter c) : c.isAlphanum = true := by
  by_cases hp : pattern = ""
  · subst hp
    rw [transitions_of_fragmentOf_empty h] at ht
    exact absurd ht List.not_mem_nil
  · obtain ⟨tokens, e, hp, harranged, hassembled⟩ := exists_assembled_of_fragmentOf h hp
    have hsymbol := hassembled.symbol_mem ht
    rw [hc] at hsymbol
    rcases hsymbol with hsilent | hmem
    · cases hsilent
    · have hread := mem_of_arrange harranged hmem rfl nofun
      have hlexical := (tokenize_eq_ok_iff.1 hp).1 _ hread
      obtain ⟨d, hd, heq⟩ := hlexical _ rfl
      cases heq
      exact hd

end EpsilonNfa
