import EpsilonNfa.Proofs.Grammar.Reordering
import EpsilonNfa.Proofs.Pattern.Expression

/-!
How tightly operators bind. A derivation tree says which operator is applied to which operands, and
so does its operator-last sequence, which needs no parentheses for it: the sequence can be read in
one way only, from its end, where the operator that is applied last stands.

    written      a|bc*          a.b|c        abc
    applied      a|(b.(c*))     (a.b)|c      (a.b).c
    ordered      abc*.|         ab.c|        ab.c.
-/

namespace EpsilonNfa

namespace Expression

/-- However a sequence that ends with an expression is cut before it, the expression and what comes
    before it are the same. -/
theorem append_postorder_inj {e e' : Expression} {xs ys : List Token}
    (h : xs ++ e.postorder = ys ++ e'.postorder) : xs = ys ∧ e = e' := by
  -- the last token is the outermost operator; before it stand its operands, the last one first
  induction e generalizing e' xs ys with
  | symbol s =>
    cases e' with
    | symbol s' => simpa [postorder, List.append_singleton_inj] using h
    | star | concat | union =>
      simp [postorder, ← List.append_assoc, List.append_singleton_inj] at h
  | star inner ih =>
    cases e' with
    | star inner' =>
      simp only [postorder, ← List.append_assoc, List.append_singleton_inj, and_true] at h
      obtain ⟨rfl, rfl⟩ := ih h
      exact ⟨rfl, rfl⟩
    | symbol | concat | union =>
      simp [postorder, ← List.append_assoc, List.append_singleton_inj] at h
  | concat left right ihl ihr =>
    cases e' with
    | concat left' right' =>
      simp only [postorder, ← List.append_assoc, List.append_singleton_inj, and_true] at h
      obtain ⟨hleft, rfl⟩ := ihr h
      obtain ⟨rfl, rfl⟩ := ihl hleft
      exact ⟨rfl, rfl⟩
    | symbol | star | union =>
      simp [postorder, ← List.append_assoc, List.append_singleton_inj] at h
  | union upper lower ihu ihl =>
    cases e' with
    | union upper' lower' =>
      simp only [postorder, ← List.append_assoc, List.append_singleton_inj, and_true] at h
      obtain ⟨hupper, rfl⟩ := ihl h
      obtain ⟨rfl, rfl⟩ := ihu hupper
      exact ⟨rfl, rfl⟩
    | symbol | star | concat =>
      simp [postorder, ← List.append_assoc, List.append_singleton_inj] at h

/-- An operator-last sequence is that of one expression only. -/
theorem postorder_inj {e e' : Expression} : e.postorder = e'.postorder ↔ e = e' := by
  constructor
  · intro h
    exact (@append_postorder_inj _ _ [] [] h).2
  · rintro rfl
    rfl

end Expression

namespace Tree

/-- Which operator a tree applies to which operands, without parentheses and dots. -/
def applied : {n : Nonterminal} → Tree n → Expression
  | _, ofTerm t => t.applied
  | _, union e t => .union e.applied t.applied
  | _, ofFactor f => f.applied
  | _, concat _ t f => .concat t.applied f.applied
  | _, ofAtom a => a.applied
  | _, star f => .star f.applied
  | _, symbol s => .symbol s
  | _, group e => e.applied

theorem postorder_applied {n : Nonterminal} (t : Tree n) : t.applied.postorder = t.ordered := by
  induction t with
  | ofTerm t ih => exact ih
  | union e t ihe iht => rw [applied, Expression.postorder, ihe, iht, ordered]
  | ofFactor f ih => exact ih
  | concat dotted t f iht ihf => rw [applied, Expression.postorder, iht, ihf, ordered]
  | ofAtom a ih => exact ih
  | star f ih => rw [applied, Expression.postorder, ih, ordered]
  | symbol s => rfl
  | group e ih => exact ih

/-- A tree's tokens come out of the yard as the sequence of what the tree applies. -/
theorem toPostfix_eq_postorder (e : Tree .expression) :
    toPostfix (expandConcatenation e.tokens) = .ok e.applied.postorder := by
  rw [e.toPostfix_expandConcatenation, postorder_applied]

end Tree

/-- Making the concatenations of a tree's tokens explicit and putting them in operator-last order
    gives the postorder of the tree, and the only expression with that sequence is the one that the
    tree applies. So in what is written side by side a star is applied before a concatenation, a
    concatenation before a union, and of two concatenations or two unions the left one first,
    whatever the operands are. -/
theorem toPostfix_follows_tree :
    (∀ e : Tree .expression, toPostfix (expandConcatenation e.tokens) = .ok e.ordered) ∧
    (∀ (e : Tree .expression) (x : Expression),
      toPostfix (expandConcatenation e.tokens) = .ok x.postorder ↔ x = e.applied) ∧
    (∀ (t : Tree .term) (f : Tree .factor) (dotted : Bool),
      toPostfix (expandConcatenation
          (t.tokens ++ Tree.dot dotted ++ f.tokens ++ [.operator .star])) =
        .ok (Expression.concat t.applied (.star f.applied)).postorder) ∧
    (∀ (e : Tree .expression) (t : Tree .term) (f : Tree .factor) (dotted : Bool),
      toPostfix (expandConcatenation
          (e.tokens ++ [.operator .union] ++ t.tokens ++ Tree.dot dotted ++ f.tokens)) =
        .ok (Expression.union e.applied (.concat t.applied f.applied)).postorder) ∧
    (∀ (t : Tree .term) (f : Tree .factor) (dotted : Bool) (u : Tree .term),
      toPostfix (expandConcatenation
          (t.tokens ++ Tree.dot dotted ++ f.tokens ++ [.operator .union] ++ u.tokens)) =
        .ok (Expression.union (.concat t.applied f.applied) u.applied).postorder) ∧
    (∀ (t : Tree .term) (f g : Tree .factor) (dotted dotted' : Bool),
      toPostfix (expandConcatenation
          (t.tokens ++ Tree.dot dotted ++ f.tokens ++ Tree.dot dotted' ++ g.tokens)) =
        .ok (Expression.concat (.concat t.applied f.applied) g.applied).postorder) ∧
    ∀ (e : Tree .expression) (t u : Tree .term),
      toPostfix (expandConcatenation
          (e.tokens ++ [.operator .union] ++ t.tokens ++ [.operator .union] ++ u.tokens)) =
        .ok (Expression.union (.union e.applied t.applied) u.applied).postorder := by
  refine ⟨Tree.toPostfix_expandConcatenation, fun e x => ?_, fun t f dotted => ?_,
    fun e t f dotted => ?_, fun t f dotted u => ?_, fun t f g dotted dotted' => ?_,
    fun e t u => ?_⟩
  · rw [e.toPostfix_eq_postorder, Except.ok.injEq, Expression.postorder_inj, eq_comm]
  · simpa [Tree.tokens, Tree.applied] using
      (Tree.ofTerm (.concat dotted t (.star f))).toPostfix_eq_postorder
  · simpa [Tree.tokens, Tree.applied] using
      (Tree.union e (.concat dotted t f)).toPostfix_eq_postorder
  · simpa [Tree.tokens, Tree.applied] using
      (Tree.union (.ofTerm (.concat dotted t f)) u).toPostfix_eq_postorder
  · simpa [Tree.tokens, Tree.applied] using
      (Tree.ofTerm (.concat dotted' (.concat dotted t f) g)).toPostfix_eq_postorder
  · simpa [Tree.tokens, Tree.applied] using (Tree.union (.union e t) u).toPostfix_eq_postorder

end EpsilonNfa
