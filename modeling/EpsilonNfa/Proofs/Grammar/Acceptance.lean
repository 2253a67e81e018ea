import EpsilonNfa.Proofs.Compile.Checks
import EpsilonNfa.Proofs.Grammar.Derivation
import Mathlib.Algebra.BigOperators.Group.List.Basic

/-!
Which sequences of tokens can be arranged: exactly those of the grammar (`arrange_eq_ok_iff`). That
a tree can be arranged follows from its postorder. The other direction is a count. The arity check
leaves one operand more than there are operators with two, over the whole sequence, and an operator
may take an operand from outside its group; but making concatenations explicit fixes how many
operands there are, so one operand in the end means that none was missing anywhere.
-/

namespace EpsilonNfa

/-! ### Counting operands -/

/-- The postorder of a tree leaves one operand. -/
theorem Tree.depthAfter_ordered {n : Nonterminal} (t : Tree n) (depth : Nat) (rest : List Token) :
    depthAfter depth (t.ordered ++ rest) = depthAfter (depth + 1) rest := by
  induction t generalizing depth rest with
  | ofTerm t ih => exact ih depth rest
  | union e t ihe iht =>
    simp only [ordered, List.append_assoc]
    rw [ihe, iht]
    simp [depthAfter]
  | ofFactor f ih => exact ih depth rest
  | concat dotted t f iht ihf =>
    simp only [ordered, List.append_assoc]
    rw [iht, ihf]
    simp [depthAfter]
  | ofAtom a ih => exact ih depth rest
  | star f ih =>
    simp only [ordered, List.append_assoc]
    rw [ih]
    simp [depthAfter]
  | symbol s => rfl
  | group e ih => exact ih depth rest

theorem Tree.checkArity_ordered {n : Nonterminal} (t : Tree n) : checkArity t.ordered = .ok () := by
  have := t.depthAfter_ordered 0 []
  rw [List.append_nil] at this
  rw [checkArity, this]
  rfl

/-- A token that the arity check counts changes the count by its weight. -/
theorem depth_eq_add_weight {token : Token} {depth depth' : Nat}
    (h : token.depthAfter depth = .ok depth') : (depth' : Int) = depth + token.weight := by
  match token, depth with
  | .symbol s, depth =>
    cases h
    simp [Token.weight]
  | .operator .star, depth + 1 =>
    rw [Token.depthAfter_star] at h
    cases h
    simp [Token.weight]
  | .operator .concat, depth + 2 =>
    rw [Token.depthAfter_concat] at h
    cases h
    simp [Token.weight]
    omega
  | .operator .union, depth + 2 =>
    rw [Token.depthAfter_union] at h
    cases h
    simp [Token.weight]
    omega

theorem depth_eq_add_surplus {tokens : List Token} {depth depth' : Nat}
    (h : depthAfter depth tokens = .ok depth') : (depth' : Int) = depth + surplus tokens := by
  induction tokens generalizing depth with
  | nil =>
    cases h
    simp
  | cons token rest ih =>
    rw [depthAfter] at h
    split at h
    · next d hd =>
      have h1 := depth_eq_add_weight hd
      have h2 := ih h
      rw [surplus_cons]
      omega
    · cases h

theorem surplus_eq_one_of_checkArity {tokens : List Token} (h : checkArity tokens = .ok ()) :
    surplus tokens = 1 := by
  rw [checkArity] at h
  split at h
  · next hd =>
    have := depth_eq_add_surplus hd
    omega
  · cases h
  · cases h

/-- Parentheses do not count. -/
theorem surplus_bare (tokens : List Token) : surplus (bare tokens) = surplus tokens := by
  induction tokens with
  | nil => rfl
  | cons token rest ih =>
    rw [bare, List.filter_cons]
    split
    · rw [surplus_cons, surplus_cons, ← ih, bare]
    · next hparen =>
      rcases token with s | (_ | _ | _ | _ | _)
      · exact absurd rfl hparen
      · exact absurd rfl hparen
      · exact absurd rfl hparen
      · exact absurd rfl hparen
      · rw [surplus_cons, ← ih, bare, Token.weight, Int.zero_add]
      · rw [surplus_cons, ← ih, bare, Token.weight, Int.zero_add]

theorem surplus_eq_of_perm {xs ys : List Token} (h : (bare xs).Perm (bare ys)) :
    surplus xs = surplus ys := by
  rw [← surplus_bare xs, ← surplus_bare ys]
  exact (h.map Token.weight).sum_eq

/-- The concatenations that are put in open and close no group. -/
theorem nesting_expandConcatenation (tokens : List Token) (n : Nat) :
    nesting n (expandConcatenation tokens) = nesting n tokens := by
  induction tokens generalizing n with
  | nil => rfl
  | cons a rest ih =>
    cases rest with
    | nil => rfl
    | cons b rest =>
      have hseam (m : Nat) : nesting m (seam a b ++ expandConcatenation (b :: rest)) =
          nesting m (b :: rest) := by
        rw [← ih m, seam]
        split
        · exact nesting_cons_of_isBare rfl m _
        · rfl
      rw [expandConcatenation_cons, nesting_cons, nesting_cons n a (b :: rest)]
      simp only [hseam]

/-! ### The sequences of the grammar -/

theorem Tree.arrange_tokens (e : Tree .expression) : arrange e.tokens = .ok e.ordered := by
  rw [arrange, e.toPostfix_expandConcatenation]
  simp only [e.checkArity_ordered]

/-- A sequence that can be arranged misses no operand. -/
theorem gaps_eq_zero_of_arrange {tokens ordered : List Token} (h : arrange tokens = .ok ordered) :
    gaps false tokens = 0 := by
  obtain ⟨hordered, harity⟩ := checkArity_of_arrange h
  have hone := surplus_eq_one_of_checkArity harity
  have hsame := surplus_eq_of_perm (balanced_of_toPostfix hordered).2
  have hgaps := surplus_expand tokens
  omega

theorem nesting_eq_zero_of_arrange {tokens ordered : List Token}
    (h : arrange tokens = .ok ordered) : nesting 0 tokens = some 0 := by
  have := (balanced_of_toPostfix (checkArity_of_arrange h).1).1
  rwa [nesting_expandConcatenation] at this

/-- Exactly the sequences of the grammar can be arranged, and the result is the postorder of any of
    their trees. -/
theorem arrange_eq_ok_iff {tokens ordered : List Token} : arrange tokens = .ok ordered ↔
    ∃ e : Tree .expression, e.tokens = tokens ∧ e.ordered = ordered := by
  constructor
  · intro h
    obtain ⟨e, he⟩ := exists_tokens_eq [] (.awaiting .empty)
      (gaps_eq_zero_of_arrange h) (nesting_eq_zero_of_arrange h)
    obtain rfl : e.tokens = tokens := by simpa [tokensBelow, Part.tokens] using he
    rw [e.arrange_tokens] at h
    exact ⟨e, rfl, Except.ok.inj h⟩
  · rintro ⟨e, rfl, rfl⟩
    exact e.arrange_tokens

end EpsilonNfa
