import EpsilonNfa.Pattern.Arity

/-!
Expressions without spelling: which operator is applied to which operands. An expression has its
operator-last sequence, and the sequences that pass the arity check are exactly these
(`checkArity_eq_ok_iff`); the operands that the check counts are the expressions that are read so
far, each below the ones read later.
-/

namespace EpsilonNfa

/-- A symbol, or an operator with its operands. -/
inductive Expression where
  | symbol (s : Symbol)
  | star (inner : Expression)
  | concat (left right : Expression)
  | union (upper lower : Expression)

namespace Expression

/-- The operator-last sequence of an expression. -/
def postorder : Expression → List Token
  | symbol s => [.symbol s]
  | star inner => inner.postorder ++ [.operator .star]
  | concat left right => left.postorder ++ right.postorder ++ [.operator .concat]
  | union upper lower => upper.postorder ++ lower.postorder ++ [.operator .union]

/-- The sequences of a stack of expressions, whose top was read last. -/
def postorders (stack : List Expression) : List Token :=
  stack.reverse.flatMap postorder

theorem postorders_cons (e : Expression) (below : List Expression) :
    postorders (e :: below) = postorders below ++ e.postorder := by
  simp [postorders]

theorem depthAfter_postorder (e : Expression) (depth : Nat) (rest : List Token) :
    depthAfter depth (e.postorder ++ rest) = depthAfter (depth + 1) rest := by
  induction e generalizing depth rest with
  | symbol s => rfl
  | star inner ih =>
    rw [postorder, List.append_assoc, ih]
    simp [depthAfter]
  | concat left right ihl ihr =>
    rw [postorder, List.append_assoc, List.append_assoc, ihl, ihr]
    simp [depthAfter]
  | union upper lower ihu ihl =>
    rw [postorder, List.append_assoc, List.append_assoc, ihu, ihl]
    simp [depthAfter]

/-! ### From a sequence to its expression -/

/-- A token that the arity check counts reads one more symbol, or makes one expression of the upper
    ones on the stack. -/
theorem exists_postorders_step {stack : List Expression} {token : Token} {depth : Nat}
    (h : token.depthAfter stack.length = .ok depth) : ∃ stack' : List Expression,
      stack'.length = depth ∧ postorders stack' = postorders stack ++ [token] := by
  match token, stack with
  | .symbol s, stack =>
    refine ⟨.symbol s :: stack, by simpa using h, ?_⟩
    rw [postorders_cons, postorder]
  | .operator .star, inner :: below =>
    refine ⟨inner.star :: below, by simpa using h, ?_⟩
    rw [postorders_cons, postorders_cons, postorder, List.append_assoc]
  | .operator .concat, right :: left :: below =>
    refine ⟨left.concat right :: below, by simpa using h, ?_⟩
    simp only [postorders_cons, postorder, List.append_assoc]
  | .operator .union, lower :: upper :: below =>
    refine ⟨upper.union lower :: below, by simpa using h, ?_⟩
    simp only [postorders_cons, postorder, List.append_assoc]

theorem exists_postorders {stack : List Expression} {tokens : List Token} {depth : Nat}
    (h : EpsilonNfa.depthAfter stack.length tokens = .ok depth) : ∃ stack' : List Expression,
      stack'.length = depth ∧ postorders stack' = postorders stack ++ tokens := by
  induction tokens generalizing stack with
  | nil =>
    cases h
    exact ⟨stack, rfl, (List.append_nil _).symm⟩
  | cons token rest ih =>
    rw [EpsilonNfa.depthAfter] at h
    split at h
    · next hstep =>
      obtain ⟨next, rfl, hnext⟩ := exists_postorders_step hstep
      obtain ⟨stack', hlength, hstack'⟩ := ih h
      refine ⟨stack', hlength, ?_⟩
      rw [hstack', hnext, List.append_assoc, List.singleton_append]
    · cases h

end Expression

/-- Exactly the sequences of expressions pass the arity check. -/
theorem checkArity_eq_ok_iff {tokens : List Token} :
    checkArity tokens = .ok () ↔ ∃ e : Expression, e.postorder = tokens := by
  constructor
  · intro h
    rw [checkArity] at h
    split at h
    · next hdepth =>
      obtain ⟨stack, hlength, hstack⟩ := @Expression.exists_postorders [] _ _ hdepth
      obtain ⟨e, rfl⟩ := List.length_eq_one_iff.1 hlength
      exact ⟨e, by simpa [Expression.postorders] using hstack⟩
    · cases h
    · cases h
  · rintro ⟨e, rfl⟩
    have hdepth := e.depthAfter_postorder 0 []
    rw [List.append_nil] at hdepth
    rw [checkArity, hdepth]
    rfl

end EpsilonNfa
