import EpsilonNfa.Proofs.Compile.Language
import EpsilonNfa.Proofs.Grammar.Dots

/-!
Whether a pattern writes its concatenations with dots or without makes no difference to its
automaton. After reading, a compilation sees nothing of the tokens but their expansion
(`compile_congr`), and the edits of a pattern that compiles have one expansion. A pattern that is
written out in full compiles like the pattern itself even where that fails, and for the same fault.
-/

namespace EpsilonNfa

variable {flags : Flags} {pattern pattern' : String} {xs ys : List Token}

/-- Patterns whose tokens expand alike compile alike. -/
theorem compile_congr (h : tokenize pattern = .ok xs) (h' : tokenize pattern' = .ok ys)
    (hexpand : expandConcatenation xs = expandConcatenation ys) :
    compile flags pattern = compile flags pattern' := by
  have harrange : arrange xs = arrange ys := by rw [arrange, arrange, hexpand]
  have hnil : xs = [] ↔ ys = [] := by
    rw [← expandConcatenation_eq_nil_iff, hexpand, expandConcatenation_eq_nil_iff]
  rw [compile, compile, fragmentOf, fragmentOf, h, h']
  cases xs with
  | nil => rw [hnil.1 rfl]
  | cons x xs =>
    cases ys with
    | nil => cases hnil.2 rfl
    | cons y ys => simp only [harrange]

/-- The text of an edit is read as the edit. -/
theorem Redotted.tokenize_display (h : Redotted xs ys) (hx : tokenize pattern = .ok xs) :
    tokenize (Token.display ys) = .ok ys := by
  refine tokenize_eq_ok_iff.2 ⟨fun token ht => ?_, rfl⟩
  rcases h.mem_or_eq_concat ht with ht | rfl
  · exact (tokenize_eq_ok_iff.1 hx).1 token ht
  · rintro s ⟨⟩

/-- The tokens of a pattern that compiles have no gap, unless there are none. -/
theorem gaps_eq_zero_of_compile {a : Automaton} (h : compile flags pattern = .ok a)
    (hx : tokenize pattern = .ok xs) (hne : xs ≠ []) : gaps false xs = 0 := by
  have hp : pattern ≠ "" := by
    rintro rfl
    rw [tokenize_eq_nil_iff.2 rfl] at hx
    exact hne (Except.ok.inj hx).symm
  obtain ⟨e, he⟩ := exists_derives_of_compile h hp
  obtain rfl : e.tokens = xs := Except.ok.inj ((Tree.derives_iff.1 he).symm.trans hx)
  exact gaps_eq_zero_of_arrange e.arrange_tokens

/-- A pattern that compiles keeps its automaton when dots are taken out of it and put in where it
    gets concatenations, whichever and however many. And any pattern that can be read compiles like
    the one in which all its concatenations are written out, with the same automaton or the same
    fault. -/
theorem compile_redotted :
    (∀ (flags : Flags) (pattern : String) (a : Automaton), compile flags pattern = .ok a →
      ∃ tokens, tokenize pattern = .ok tokens ∧
        ∀ edited, Redotted tokens edited → compile flags (Token.display edited) = .ok a) ∧
    ∀ (flags : Flags) (pattern : String) (tokens : List Token), tokenize pattern = .ok tokens →
      compile flags (Token.display (expandConcatenation tokens)) = compile flags pattern := by
  constructor
  · intro flags pattern a h
    cases hx : tokenize pattern with
    | error fault =>
      rw [compile, fragmentOf, hx] at h
      cases h
    | ok tokens =>
      refine ⟨tokens, rfl, fun edited hedit => ?_⟩
      rw [← h]
      refine compile_congr (hedit.tokenize_display hx) hx ?_
      by_cases hne : tokens = []
      · subst hne
        cases hedit
        rfl
      · exact hedit.expand_eq (gaps_eq_zero_of_compile h hx hne)
  · intro flags pattern tokens hx
    exact compile_congr ((Redotted.expand tokens).tokenize_display hx) hx
      (expandConcatenation_expandConcatenation tokens)

/-- In `a.(b|c)d*` the dot is taken out, and one is put in before `d`; in `a(*)b`, which misses an
    operand, the concatenations are written out. -/
theorem compile_redotted_group :
    (∃ a, compile { sharedStar := true } "a.(b|c)d*" = .ok a ∧
      compile { sharedStar := true } "a(b|c).d*" = .ok a) ∧
    (∃ tokens, tokenize "a(*)b" = .ok tokens ∧
      compile .none (Token.display (expandConcatenation tokens)) = compile .none "a(*)b") := by
  constructor
  · obtain ⟨a, ha⟩ : ∃ a, compile { sharedStar := true } "a.(b|c)d*" = .ok a := ⟨_, rfl⟩
    obtain ⟨tokens, htokens, hedit⟩ := compile_redotted.1 _ _ a ha
    obtain rfl := Except.ok.inj htokens
    refine ⟨a, ha, hedit (.symbol (.letter 'a') :: _) (.keep _ (.takeOut (.keep _ (.keep _
      (.keep _ (.keep _ (.putIn rfl rfl (.refl _))))))))⟩
  · obtain ⟨tokens, htokens⟩ : ∃ tokens, tokenize "a(*)b" = .ok tokens := ⟨_, rfl⟩
    exact ⟨tokens, htokens, compile_redotted.2 _ _ tokens htokens⟩

-- a dot without operands on both sides may not be taken out
example : compile .none ".a" = .error (.pattern (.missingOperand .concat)) := by rfl

end EpsilonNfa
