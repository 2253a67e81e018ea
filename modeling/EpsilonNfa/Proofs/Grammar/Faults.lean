import EpsilonNfa.Proofs.Grammar.Acceptance
import EpsilonNfa.Proofs.Grammar.Parentheses

/-!
Why a sequence of tokens cannot be arranged. Its parentheses are judged first (`nesting`). What then
comes to the arity check has no parenthesis, and as a concatenation is put in wherever two operands
meet, it cannot leave more than one operand. It leaves none only when it is empty, and that is a
sequence of groups around nothing, one in the other. All that is left to go wrong is an operator
without its operands.
-/

namespace EpsilonNfa

/-! ### The arity check without parentheses -/

namespace Token

variable {token : Token} {depth depth' : Nat} {fault : PatternFault}

theorem isBare_operator_iff {o : Operator} :
    (operator o).isBare = true ↔ o ∈ [Operator.star, .concat, .union] := by
  cases o <;> simp [isBare]

theorem depthAfter_of_isBare {o : Operator} (h : (operator o).isBare = true) (depth : Nat) :
    (operator o).depthAfter depth =
      if depth < o.arity then .error (.missingOperand o) else .ok (depth - o.arity + 1) := by
  cases o with
  | star | concat | union => rfl
  | openParen | closeParen => cases h

/-- A token leaves an operand behind it. -/
theorem pos_of_depthAfter (hbare : token.isBare = true) (h : token.depthAfter depth = .ok depth') :
    0 < depth' := by
  cases token with
  | symbol s =>
    cases h
    omega
  | operator o =>
    rw [depthAfter_of_isBare hbare] at h
    split at h
    · cases h
    · cases h
      omega

/-- A token other than a parenthesis stops the check only for want of an operand. -/
theorem missingOperand_of_depthAfter (hbare : token.isBare = true)
    (h : token.depthAfter depth = .error fault) :
    ∃ o ∈ [Operator.star, .concat, .union], fault = .missingOperand o := by
  cases token with
  | symbol s => cases h
  | operator o =>
    rw [depthAfter_of_isBare hbare] at h
    split at h
    · cases h
      exact ⟨o, isBare_operator_iff.1 hbare, rfl⟩
    · cases h

end Token

theorem pos_of_depthAfter {tokens : List Token} {depth depth' : Nat}
    (hbare : ∀ token ∈ tokens, token.isBare = true) (h : depthAfter depth tokens = .ok depth')
    (hpos : 0 < depth ∨ tokens ≠ []) : 0 < depth' := by
  induction tokens generalizing depth with
  | nil =>
    cases h
    exact hpos.resolve_right fun hnil => hnil rfl
  | cons token rest ih =>
    obtain ⟨htoken, hrest⟩ := List.forall_mem_cons.1 hbare
    rw [depthAfter] at h
    split at h
    · next d hd => exact ih hrest h (.inl (Token.pos_of_depthAfter htoken hd))
    · cases h

theorem missingOperand_of_depthAfter {tokens : List Token} {depth : Nat} {fault : PatternFault}
    (hbare : ∀ token ∈ tokens, token.isBare = true) (h : depthAfter depth tokens = .error fault) :
    ∃ o ∈ [Operator.star, .concat, .union], fault = .missingOperand o := by
  induction tokens generalizing depth with
  | nil => cases h
  | cons token rest ih =>
    obtain ⟨htoken, hrest⟩ := List.forall_mem_cons.1 hbare
    rw [depthAfter] at h
    split at h
    · exact ih hrest h
    · next fault' hfault =>
      cases h
      exact Token.missingOperand_of_depthAfter htoken hfault

/-- Without parentheses and without an operand too many, a sequence that is not empty is accepted or
    misses an operand. -/
theorem checkArity_of_isBare {tokens : List Token} (hne : tokens ≠ [])
    (hbare : ∀ token ∈ tokens, token.isBare = true) (hsurplus : surplus tokens ≤ 1) :
    checkArity tokens = .ok () ∨
      ∃ o ∈ [Operator.star, .concat, .union], checkArity tokens = .error (.missingOperand o) := by
  rw [checkArity]
  cases h : depthAfter 0 tokens with
  | error fault =>
    obtain ⟨o, ho, rfl⟩ := missingOperand_of_depthAfter hbare h
    exact .inr ⟨o, ho, rfl⟩
  | ok depth =>
    have hpos := pos_of_depthAfter hbare h (.inr hne)
    have hdepth := depth_eq_add_surplus h
    obtain rfl : depth = 1 := by omega
    exact .inl rfl

/-! ### Groups around nothing -/

/-- So many groups one in the other, and nothing in the innermost. -/
def hollow (k : Nat) : List Token :=
  List.replicate k (.operator .openParen) ++ List.replicate k (.operator .closeParen)

theorem hollow_succ (k : Nat) :
    hollow (k + 1) = .operator .openParen :: (hollow k ++ [.operator .closeParen]) := by
  rw [hollow, hollow, List.replicate_succ, List.replicate_succ', List.cons_append,
    List.append_assoc]

theorem expandConcatenation_hollow (k : Nat) : expandConcatenation (hollow k) = hollow k := by
  induction k with
  | zero => rfl
  | succ k ih => rw [hollow_succ, expandConcatenation_group, ih]

theorem nesting_hollow (n k : Nat) : nesting n (hollow k) = some n := by
  induction k generalizing n with
  | zero => rfl
  | succ k ih =>
    rw [hollow_succ, nesting, nesting_append, ih]
    rfl

theorem bare_hollow (k : Nat) : bare (hollow k) = [] := by
  simp [hollow, bare, Token.isBare]

theorem eq_paren_of_bare_singleton {token : Token} (h : bare [token] = []) :
    token = .operator .openParen ∨ token = .operator .closeParen := by
  rcases token with s | (_ | _ | _ | _ | _)
  · cases h
  · cases h
  · cases h
  · cases h
  · exact .inl rfl
  · exact .inr rfl

/-- A sequence that has nothing but parentheses, also when it is expanded, opens all its groups
    before it closes any. -/
theorem exists_replicate_of_bare_expand {tokens : List Token}
    (h : bare (expandConcatenation tokens) = []) :
    ∃ m n, tokens = List.replicate m (.operator .openParen) ++
      List.replicate n (.operator .closeParen) := by
  induction tokens with
  | nil => exact ⟨0, 0, rfl⟩
  | cons a rest ih =>
    cases rest with
    | nil =>
      rcases eq_paren_of_bare_singleton h with rfl | rfl
      · exact ⟨1, 0, rfl⟩
      · exact ⟨0, 1, rfl⟩
    | cons b rest =>
      rw [expandConcatenation_cons, ← List.singleton_append, bare_append, bare_append,
        List.append_eq_nil_iff, List.append_eq_nil_iff] at h
      obtain ⟨ha, hseam, hrest⟩ := h
      obtain ⟨m, n, hmn⟩ := ih hrest
      rcases eq_paren_of_bare_singleton ha with rfl | rfl
      · exact ⟨m + 1, n, by rw [hmn]; rfl⟩
      · cases m with
        | zero => exact ⟨0, n + 1, by rw [hmn]; rfl⟩
        | succ m =>
          -- a group that is opened after one is closed would be joined to it by a concatenation
          obtain ⟨rfl, -⟩ := List.cons.inj hmn
          cases hseam

/-! ### Arranging -/

variable {tokens : List Token}

theorem exists_arrange_of_nesting_eq_none (h : nesting 0 tokens = none) :
    ∃ consumed, arrange tokens = .error (.unmatchedClose consumed) := by
  rw [← nesting_expandConcatenation] at h
  obtain ⟨before, after, -, -, hfault⟩ := exists_toPostfix_of_nesting_eq_none h
  exact ⟨_, by rw [arrange, hfault]⟩

theorem arrange_of_nesting_eq_succ {n : Nat} (h : nesting 0 tokens = some (n + 1)) :
    arrange tokens = .error (.unclosedGroup (Token.display (expandConcatenation tokens))) := by
  rw [← nesting_expandConcatenation] at h
  rw [arrange, toPostfix_of_nesting_eq_succ h]

/-- Groups around nothing leave no operand. -/
theorem arrange_hollow (k : Nat) : arrange (hollow k) = .error (.fragmentCount 0) := by
  obtain ⟨ordered, hordered⟩ := exists_toPostfix_of_nesting_eq_zero (nesting_hollow 0 k)
  have hperm := perm_of_toPostfix hordered
  rw [bare_hollow] at hperm
  obtain rfl := hperm.eq_nil
  rw [arrange, expandConcatenation_hollow, hordered]
  rfl

/-- Any other sequence with balanced parentheses can be arranged or misses an operand. -/
theorem arrange_of_nesting_eq_zero (h : nesting 0 tokens = some 0)
    (hhollow : ∀ k, tokens ≠ hollow k) :
    (∃ ordered, arrange tokens = .ok ordered) ∨
      ∃ o ∈ [Operator.star, .concat, .union], arrange tokens = .error (.missingOperand o) := by
  have hexpanded : nesting 0 (expandConcatenation tokens) = some 0 := by
    rwa [nesting_expandConcatenation]
  obtain ⟨ordered, hordered⟩ := exists_toPostfix_of_nesting_eq_zero hexpanded
  have hne : ordered ≠ [] := by
    rintro rfl
    have hbare := (perm_of_toPostfix hordered).symm.eq_nil
    obtain ⟨m, n, rfl⟩ := exists_replicate_of_bare_expand hbare
    have hcount := count_of_nesting_eq_some h
    obtain rfl : m = n := by simpa [List.count_replicate] using hcount
    exact hhollow m rfl
  have hsurplus : surplus ordered ≤ 1 := by
    have hsame := surplus_eq_of_perm (balanced_of_toPostfix hordered).2
    have hexpand := surplus_expand tokens
    omega
  rcases checkArity_of_isBare hne (isBare_of_toPostfix hordered) hsurplus with hok | ⟨o, ho, hfault⟩
  · exact .inl ⟨ordered, by rw [arrange, hordered]; simp only [hok]⟩
  · exact .inr ⟨o, ho, by rw [arrange, hordered]; simp only [hfault]⟩

end EpsilonNfa
