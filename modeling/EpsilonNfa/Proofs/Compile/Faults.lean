import EpsilonNfa.Proofs.Compile.Checks
import EpsilonNfa.Proofs.Grammar.Faults

/-!
How a compilation fails. The pattern alone decides it, by the first of these that it has:

    a character outside the alphabet          unexpectedCharacter
    a prefix that closes more than it opens   unmatchedClose
    more groups opened than closed            unclosedGroup
    nothing but groups around nothing         fragmentCount 0
    an operator without its operands          missingOperand

and there is no other failure: no parenthesis comes to the arity check, and no operand is left over.
-/

namespace EpsilonNfa

namespace Pattern

/-- A character that is no ASCII letter or digit and no operator. -/
def HasForeign (pattern : String) : Prop :=
  ∃ c ∈ pattern.toList, c.isAlphanum = false ∧ c ∉ ['*', '.', '|', '(', ')']

/-- Some prefix has more closing parentheses than opening ones. -/
def Overcloses (pattern : String) : Prop :=
  ∃ part, part <+: pattern.toList ∧ part.count '(' < part.count ')'

/-- There are more opening parentheses than closing ones. -/
def LeavesOpen (pattern : String) : Prop :=
  pattern.toList.count ')' < pattern.toList.count '('

/-- Opening parentheses, and then as many closing ones. -/
def IsHollow (pattern : String) : Prop :=
  ∃ k, 1 ≤ k ∧ pattern.toList = List.replicate k '(' ++ List.replicate k ')'

variable {pattern : String} {tokens : List Token}

theorem not_hasForeign_of_tokenize (h : tokenize pattern = .ok tokens) : ¬ HasForeign pattern := by
  rintro ⟨c, hc, hforeign⟩
  obtain ⟨consumed, rest, herror⟩ :=
    exists_tokenize_eq_error hc (Token.admits_eq_false_iff.2 hforeign)
  rw [herror] at h
  cases h

theorem overcloses_iff (h : tokenize pattern = .ok tokens) :
    Overcloses pattern ↔ nesting 0 tokens = none := by
  obtain ⟨hlexical, hdisplay⟩ := tokenize_eq_ok_iff.1 h
  have hpart {part : List Token} (hfront : part <+: tokens) :
      (part.map Token.toChar).count '(' < (part.map Token.toChar).count ')' ↔
        0 + part.count (.operator .openParen) < part.count (.operator .closeParen) := by
    have hcount (o : Operator) :=
      Token.count_map_toChar (fun token ht => hlexical token (hfront.subset ht))
        (Token.lexical_operator o)
    rw [← hcount, ← hcount, Nat.zero_add]
    rfl
  rw [nesting_eq_none_iff, Overcloses, ← Token.display_eq_iff.1 hdisplay]
  constructor
  · rintro ⟨_, hmap, hlt⟩
    obtain ⟨part, hfront, rfl⟩ := List.prefix_map_iff.1 hmap
    exact ⟨part, hfront, (hpart hfront).1 hlt⟩
  · rintro ⟨part, hfront, hlt⟩
    exact ⟨part.map Token.toChar, hfront.map _, (hpart hfront).2 hlt⟩

theorem leavesOpen_iff (h : tokenize pattern = .ok tokens) {n : Nat}
    (hnesting : nesting 0 tokens = some n) : LeavesOpen pattern ↔ n ≠ 0 := by
  obtain ⟨hlexical, hdisplay⟩ := tokenize_eq_ok_iff.1 h
  have hcount := count_of_nesting_eq_some hnesting
  rw [← Token.count_map_toChar hlexical (Token.lexical_operator _),
    ← Token.count_map_toChar hlexical (Token.lexical_operator _),
    Token.display_eq_iff.1 hdisplay] at hcount
  simp only [Token.toChar, Operator.toChar] at hcount
  rw [LeavesOpen]
  omega

theorem tokenize_eq_hollow_iff {k : Nat} : tokenize pattern = .ok (hollow k) ↔
    pattern.toList = List.replicate k '(' ++ List.replicate k ')' := by
  have hlexical : ∀ token ∈ hollow k, token.Lexical := by
    rintro _ hmem s rfl
    simp [hollow] at hmem
  have htext : (hollow k).map Token.toChar = List.replicate k '(' ++ List.replicate k ')' := by
    simp [hollow, Token.toChar, Operator.toChar]
  rw [tokenize_eq_ok_iff, Token.display_eq_iff, htext, eq_comm]
  exact and_iff_right hlexical

theorem isHollow_iff (h : tokenize pattern = .ok tokens) :
    IsHollow pattern ↔ ∃ k, 1 ≤ k ∧ tokens = hollow k := by
  simp only [IsHollow, ← tokenize_eq_hollow_iff, h, Except.ok.injEq]

end Pattern

open Pattern

/-- What the checks find in a pattern, each fault only where none before it applies. -/
inductive Diagnosis (pattern : String) : Except PatternFault Unit → Prop
  | foreign {consumed rest : String} : HasForeign pattern →
      Diagnosis pattern (.error (.unexpectedCharacter consumed rest))
  | overclosed {consumed : String} : ¬ HasForeign pattern → Overcloses pattern →
      Diagnosis pattern (.error (.unmatchedClose consumed))
  | unclosed {text : String} : ¬ HasForeign pattern → ¬ Overcloses pattern → LeavesOpen pattern →
      Diagnosis pattern (.error (.unclosedGroup text))
  | hollow : ¬ HasForeign pattern → ¬ Overcloses pattern → ¬ LeavesOpen pattern →
      IsHollow pattern → Diagnosis pattern (.error (.fragmentCount 0))
  | missing {o : Operator} : ¬ HasForeign pattern → ¬ Overcloses pattern → ¬ LeavesOpen pattern →
      ¬ IsHollow pattern → o ∈ [Operator.star, .concat, .union] →
      Diagnosis pattern (.error (.missingOperand o))
  | sound : ¬ HasForeign pattern → ¬ Overcloses pattern → ¬ LeavesOpen pattern →
      ¬ IsHollow pattern → Diagnosis pattern (.ok ())

/-- The checks of a pattern that can be read and is not empty are those of its tokens. -/
theorem validate_of_tokenize {pattern : String} {tokens : List Token}
    (h : tokenize pattern = .ok tokens) (hne : tokens ≠ []) :
    validate pattern = (arrange tokens).map fun _ => () := by
  rw [validate, h]
  cases tokens with
  | nil => exact absurd rfl hne
  | cons => rfl

/-- With balanced parentheses it is the operands that are judged. -/
theorem diagnosis_of_balanced {pattern : String} {tokens : List Token}
    (h : tokenize pattern = .ok tokens) (hnesting : nesting 0 tokens = some 0)
    (hover : ¬ Overcloses pattern) (hopen : ¬ LeavesOpen pattern) :
    Diagnosis pattern (validate pattern) := by
  have hread := not_hasForeign_of_tokenize h
  by_cases hhollow : IsHollow pattern
  · obtain ⟨_ | k, hk, rfl⟩ := (isHollow_iff h).1 hhollow
    · cases hk
    · rw [validate_of_tokenize h (by simp [hollow_succ]), arrange_hollow]
      exact .hollow hread hover hopen hhollow
  · by_cases hempty : tokens = []
    · rw [hempty] at h
      rw [validate, h]
      exact .sound hread hover hopen hhollow
    · have hnot : ∀ k, tokens ≠ EpsilonNfa.hollow k := by
        rintro (_ | k) rfl
        · exact hempty rfl
        · exact hhollow ((isHollow_iff h).2 ⟨k + 1, by omega, rfl⟩)
      rw [validate_of_tokenize h hempty]
      rcases arrange_of_nesting_eq_zero hnesting hnot with ⟨ordered, hordered⟩ | ⟨o, ho, hfault⟩
      · rw [hordered]
        exact .sound hread hover hopen hhollow
      · rw [hfault]
        exact .missing hread hover hopen hhollow ho

theorem diagnosis_of_tokenize {pattern : String} {tokens : List Token}
    (h : tokenize pattern = .ok tokens) : Diagnosis pattern (validate pattern) := by
  have hread := not_hasForeign_of_tokenize h
  have hover := overcloses_iff h
  cases hnesting : nesting 0 tokens with
  | none =>
    obtain ⟨consumed, hfault⟩ := exists_arrange_of_nesting_eq_none hnesting
    rw [validate_of_tokenize h (by rintro rfl; cases hnesting), hfault]
    exact .overclosed hread (hover.2 hnesting)
  | some n =>
    have hopen := leavesOpen_iff h hnesting
    rw [hnesting] at hover
    have hnot : ¬ Overcloses pattern := fun hmore => Option.some_ne_none n (hover.1 hmore)
    cases n with
    | zero => exact diagnosis_of_balanced h hnesting hnot fun hmore => hopen.1 hmore rfl
    | succ n =>
      rw [validate_of_tokenize h (by rintro rfl; cases hnesting),
        arrange_of_nesting_eq_succ hnesting]
      exact .unclosed hread hnot (hopen.2 (Nat.succ_ne_zero n))

theorem diagnosis_validate (pattern : String) : Diagnosis pattern (validate pattern) := by
  by_cases hforeign : HasForeign pattern
  · obtain ⟨c, hc, hoff⟩ := hforeign
    obtain ⟨consumed, rest, hfault⟩ :=
      exists_tokenize_eq_error hc (Token.admits_eq_false_iff.2 hoff)
    rw [validate, hfault]
    exact .foreign ⟨c, hc, hoff⟩
  · have hread : ∀ c ∈ pattern.toList, Token.admits c = true := fun c hc =>
      Bool.of_not_eq_false fun hoff => hforeign ⟨c, hc, Token.admits_eq_false_iff.1 hoff⟩
    obtain ⟨tokens, htokens⟩ := exists_tokenize_eq_ok hread
    exact diagnosis_of_tokenize htokens

namespace Diagnosis

variable {pattern : String} {result : Except PatternFault Unit}

theorem unexpectedCharacter_iff (h : Diagnosis pattern result) :
    (∃ consumed rest, result = .error (.unexpectedCharacter consumed rest)) ↔
      HasForeign pattern := by
  cases h <;> simp_all

theorem unmatchedClose_iff (h : Diagnosis pattern result) :
    (∃ consumed, result = .error (.unmatchedClose consumed)) ↔
      ¬ HasForeign pattern ∧ Overcloses pattern := by
  cases h <;> simp_all

theorem unclosedGroup_iff (h : Diagnosis pattern result) :
    (∃ text, result = .error (.unclosedGroup text)) ↔
      ¬ HasForeign pattern ∧ ¬ Overcloses pattern ∧ LeavesOpen pattern := by
  cases h <;> simp_all

theorem fragmentCount_iff (h : Diagnosis pattern result) (count : Nat) :
    result = .error (.fragmentCount count) ↔
      ¬ HasForeign pattern ∧ ¬ Overcloses pattern ∧ ¬ LeavesOpen pattern ∧ IsHollow pattern ∧
        count = 0 := by
  cases h <;> simp_all [eq_comm]

theorem missingOperand_iff (h : Diagnosis pattern result) :
    (∃ o ∈ [Operator.star, .concat, .union], result = .error (.missingOperand o)) ↔
      ¬ HasForeign pattern ∧ ¬ Overcloses pattern ∧ ¬ LeavesOpen pattern ∧ ¬ IsHollow pattern ∧
        result ≠ .ok () := by
  cases h <;> simp_all

theorem ne_strayParenthesis (h : Diagnosis pattern result) (o : Operator) :
    result ≠ .error (.strayParenthesis o) := by
  cases h <;> simp

end Diagnosis

/-! ### Compilation -/

variable {flags : Flags} {pattern : String}

/-- A compilation succeeds with the checks and fails with what they find. -/
theorem compile_cases (flags : Flags) (pattern : String) :
    (∃ a, compile flags pattern = .ok a ∧ validate pattern = .ok ()) ∨
      ∃ cause, compile flags pattern = .error (.pattern cause) ∧
        validate pattern = .error cause := by
  have h := map_compile flags pattern
  cases hc : compile flags pattern with
  | ok a =>
    cases hv : validate pattern with
    | ok => exact .inl ⟨a, rfl, rfl⟩
    | error cause =>
      rw [hc, hv] at h
      cases h
  | error fault =>
    cases hv : validate pattern with
    | ok =>
      rw [hc, hv] at h
      cases h
    | error cause =>
      rw [hc, hv] at h
      cases h
      exact .inr ⟨cause, rfl, rfl⟩

theorem compile_eq_error_iff {fault : BuildFault} : compile flags pattern = .error fault ↔
    ∃ cause, validate pattern = .error cause ∧ fault = .pattern cause := by
  rcases compile_cases flags pattern with ⟨a, hc, hv⟩ | ⟨cause, hc, hv⟩
  · simp [hc, hv]
  · simp [hc, hv, eq_comm]

theorem compile_eq_error_pattern_iff {cause : PatternFault} :
    compile flags pattern = .error (.pattern cause) ↔ validate pattern = .error cause := by
  simp [compile_eq_error_iff]

theorem validate_ne_ok_iff (flags : Flags) (pattern : String) :
    validate pattern ≠ .ok () ↔ ∀ a, compile flags pattern ≠ .ok a := by
  rcases compile_cases flags pattern with ⟨a, hc, hv⟩ | ⟨cause, hc, hv⟩
  · simp [hc, hv]
  · simp [hc, hv]

/-- The pattern decides, whatever the flags, how its compilation fails, and does so by the first
    that applies: a character outside the alphabet, a parenthesis that closes too much, a group that
    stays open, groups around nothing, or else an operator without its operands. -/
theorem compile_eq_error_classification (flags : Flags) (pattern : String) :
    (∀ flags' fault, compile flags' pattern = .error fault ↔ compile flags pattern = .error fault) ∧
    ((∃ consumed rest,
        compile flags pattern = .error (.pattern (.unexpectedCharacter consumed rest))) ↔
      HasForeign pattern) ∧
    ((∃ consumed, compile flags pattern = .error (.pattern (.unmatchedClose consumed))) ↔
      ¬ HasForeign pattern ∧ Overcloses pattern) ∧
    ((∃ text, compile flags pattern = .error (.pattern (.unclosedGroup text))) ↔
      ¬ HasForeign pattern ∧ ¬ Overcloses pattern ∧ LeavesOpen pattern) ∧
    (∀ count, compile flags pattern = .error (.pattern (.fragmentCount count)) ↔
      ¬ HasForeign pattern ∧ ¬ Overcloses pattern ∧ ¬ LeavesOpen pattern ∧ IsHollow pattern ∧
        count = 0) ∧
    ((∃ o ∈ [Operator.star, .concat, .union],
        compile flags pattern = .error (.pattern (.missingOperand o))) ↔
      ¬ HasForeign pattern ∧ ¬ Overcloses pattern ∧ ¬ LeavesOpen pattern ∧ ¬ IsHollow pattern ∧
        ∀ a, compile flags pattern ≠ .ok a) ∧
    ∀ o, compile flags pattern ≠ .error (.pattern (.strayParenthesis o)) := by
  have h := diagnosis_validate pattern
  simp only [Ne, compile_eq_error_pattern_iff]
  refine ⟨fun flags' fault => ?_, h.unexpectedCharacter_iff, h.unmatchedClose_iff,
    h.unclosedGroup_iff, h.fragmentCount_iff, ?_, h.ne_strayParenthesis⟩
  · rw [compile_eq_error_iff, compile_eq_error_iff]
  · rw [h.missingOperand_iff, validate_ne_ok_iff flags]

-- with several faults, the first of them is reported
example : compile .none "(*))-" = .error (.pattern (.unexpectedCharacter "(*))" "-")) := by rfl

example : compile .none "((*))" = .error (.pattern (.missingOperand .star)) := by rfl

end EpsilonNfa
