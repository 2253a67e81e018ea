import EpsilonNfa.Pattern.Yard
import EpsilonNfa.Proofs.Grammar.Tree
import Mathlib.Algebra.Ring.Int.Defs

/-!
Making concatenations explicit, seen from a tree and from a count. A concatenation is put in exactly
where the tree has one without a dot (`expandConcatenation_tokens`). Any other sequence is compared
with an expression by its gaps, the places where an operand is missing: the expanded sequence has
one symbol more than it has operators with two operands, less the gaps (`surplus_expand`).
-/

namespace EpsilonNfa

@[simp]
theorem expandConcatenation_singleton (a : Token) : expandConcatenation [a] = [a] := rfl

/-- The concatenation that is put between two tokens. -/
def seam (a b : Token) : List Token :=
  if a.endsOperand && b.beginsOperand then [.operator .concat] else []

theorem expandConcatenation_cons (a b : Token) (rest : List Token) :
    expandConcatenation (a :: b :: rest) = a :: (seam a b ++ expandConcatenation (b :: rest)) := by
  rw [expandConcatenation, seam]
  split <;> rfl

/-- Sequences are expanded apart from each other, but for the seam. -/
theorem expandConcatenation_append (xs ys : List Token) (a b : Token) :
    expandConcatenation (xs ++ a :: b :: ys) =
      expandConcatenation (xs ++ [a]) ++ (seam a b ++ expandConcatenation (b :: ys)) := by
  induction xs with
  | nil => exact expandConcatenation_cons a b ys
  | cons x xs ih =>
    cases xs with
    | nil =>
      simp only [List.nil_append] at ih
      simp [expandConcatenation_cons, ih]
    | cons x' xs =>
      simp only [List.cons_append] at ih ⊢
      simp [expandConcatenation_cons, ih]

/-- What begins no operand gets no concatenation before it. -/
theorem expandConcatenation_concat (xs : List Token) {o : Token}
    (hbegins : o.beginsOperand = false) :
    expandConcatenation (xs ++ [o]) = expandConcatenation xs ++ [o] := by
  rcases xs.eq_nil_or_concat' with rfl | ⟨init, a, rfl⟩
  · rfl
  · rw [List.append_assoc, List.singleton_append, expandConcatenation_append]
    simp [seam, hbegins]

/-- What stands in a group is expanded apart from the parentheses. -/
theorem expandConcatenation_group (xs : List Token) :
    expandConcatenation (.operator .openParen :: (xs ++ [.operator .closeParen])) =
      .operator .openParen :: (expandConcatenation xs ++ [.operator .closeParen]) := by
  rw [← expandConcatenation_concat xs rfl]
  cases xs with
  | nil => rfl
  | cons x xs =>
    rw [List.cons_append, expandConcatenation_cons]
    rfl

/-! ### Trees -/

namespace Tree

variable {n : Nonterminal}

theorem tokens_eq_cons (t : Tree n) : ∃ a rest, t.tokens = a :: rest ∧ a.beginsOperand = true := by
  induction t with
  | ofTerm t ih => exact ih
  | union e t ihe iht =>
    obtain ⟨a, rest, htokens, ha⟩ := ihe
    exact ⟨a, _, by rw [tokens, htokens]; rfl, ha⟩
  | ofFactor f ih => exact ih
  | concat dotted t f iht ihf =>
    obtain ⟨a, rest, htokens, ha⟩ := iht
    exact ⟨a, _, by rw [tokens, htokens]; rfl, ha⟩
  | ofAtom a ih => exact ih
  | star f ih =>
    obtain ⟨a, rest, htokens, ha⟩ := ih
    exact ⟨a, _, by rw [tokens, htokens]; rfl, ha⟩
  | symbol s => exact ⟨_, [], rfl, rfl⟩
  | group e ih => exact ⟨_, _, rfl, rfl⟩

theorem tokens_eq_concat (t : Tree n) :
    ∃ init a, t.tokens = init ++ [a] ∧ a.endsOperand = true := by
  induction t with
  | ofTerm t ih => exact ih
  | union e t ihe iht =>
    obtain ⟨init, a, htokens, ha⟩ := iht
    exact ⟨_, a, by rw [tokens, htokens, ← List.cons_append, ← List.append_assoc], ha⟩
  | ofFactor f ih => exact ih
  | concat dotted t f iht ihf =>
    obtain ⟨init, a, htokens, ha⟩ := ihf
    exact ⟨_, a, by rw [tokens, htokens, ← List.append_assoc, ← List.append_assoc], ha⟩
  | ofAtom a ih => exact ih
  | star f ih => exact ⟨_, _, rfl, rfl⟩
  | symbol s => exact ⟨[], .symbol s, rfl, rfl⟩
  | group e ih => exact ⟨.operator .openParen :: e.tokens, .operator .closeParen, rfl, rfl⟩

variable {m : Nonterminal} (t : Tree n) (u : Tree m)

/-- Two trees side by side get a concatenation. -/
theorem expand_tokens_append : expandConcatenation (t.tokens ++ u.tokens) =
    expandConcatenation t.tokens ++ .operator .concat :: expandConcatenation u.tokens := by
  obtain ⟨init, a, ht, ha⟩ := t.tokens_eq_concat
  obtain ⟨b, rest, hu, hb⟩ := u.tokens_eq_cons
  rw [ht, hu, List.append_assoc, List.singleton_append, expandConcatenation_append, seam, ha, hb]
  rfl

/-- An operator that neither begins nor ends an operand gets no concatenation beside it. -/
theorem expand_tokens_operator {o : Token} (hbegins : o.beginsOperand = false)
    (hends : o.endsOperand = false) : expandConcatenation (t.tokens ++ o :: u.tokens) =
      expandConcatenation t.tokens ++ o :: expandConcatenation u.tokens := by
  obtain ⟨init, a, ht, -⟩ := t.tokens_eq_concat
  obtain ⟨b, rest, hu, -⟩ := u.tokens_eq_cons
  rw [ht, hu, List.append_assoc, List.singleton_append, expandConcatenation_append,
    expandConcatenation_cons]
  simp [seam, hbegins, hends]

/-- The concatenations that a tree has without a dot are the ones that are put in. -/
theorem expandConcatenation_tokens (t : Tree n) : expandConcatenation t.tokens = t.spelled := by
  induction t with
  | ofTerm t ih => exact ih
  | union e t ihe iht => rw [tokens, e.expand_tokens_operator t rfl rfl, ihe, iht, spelled]
  | ofFactor f ih => exact ih
  | concat dotted t f iht ihf =>
    cases dotted with
    | false =>
      show expandConcatenation (t.tokens ++ f.tokens) = _
      rw [t.expand_tokens_append f, iht, ihf, spelled]
    | true =>
      show expandConcatenation (t.tokens ++ .operator .concat :: f.tokens) = _
      rw [t.expand_tokens_operator f rfl rfl, iht, ihf, spelled]
  | ofAtom a ih => exact ih
  | star f ih => rw [tokens, expandConcatenation_concat _ rfl, ih, spelled]
  | symbol s => rfl
  | group e ih => rw [tokens, expandConcatenation_group, ih, spelled]

end Tree

/-! ### Gaps -/

/-- What a token adds to the number of operands at hand. -/
def Token.weight : Token → Int
  | symbol _ => 1
  | operator .union | operator .concat => -1
  | operator .star | operator .openParen | operator .closeParen => 0

/-- The symbols of a sequence, less its operators with two operands. -/
def surplus (tokens : List Token) : Int :=
  (tokens.map Token.weight).sum

/-- The places of a sequence where an operand is missing; `ended` says that one ends before it. -/
def gaps (ended : Bool) : List Token → Nat
  | [] => if ended then 0 else 1
  | token :: rest =>
    (if ended || token.beginsOperand then 0 else 1) + gaps token.endsOperand rest

@[simp]
theorem surplus_nil : surplus [] = 0 := rfl

@[simp]
theorem surplus_cons (token : Token) (rest : List Token) :
    surplus (token :: rest) = token.weight + surplus rest := by
  simp [surplus]

@[simp]
theorem surplus_append (xs ys : List Token) : surplus (xs ++ ys) = surplus xs + surplus ys := by
  simp [surplus]

/-- A token changes the balance between operands that are there and operands that are awaited by
    its weight, and one that is missing before it makes up for the rest. -/
theorem weight_add_awaited (token : Token) :
    token.weight + (if token.endsOperand then 0 else 1)
      = 1 - (if token.beginsOperand then 0 else 1) := by
  rcases token with s | (_ | _ | _ | _ | _) <;> rfl

theorem surplus_seam (a b : Token) :
    surplus (seam a b) = if a.endsOperand && b.beginsOperand then -1 else 0 := by
  unfold seam
  split <;> rfl

theorem surplus_expand_cons (token : Token) (rest : List Token) :
    surplus (expandConcatenation (token :: rest)) + gaps token.endsOperand rest
      = token.weight + (if token.endsOperand then 0 else 1) := by
  induction rest generalizing token with
  | nil =>
    rw [expandConcatenation_singleton, gaps, surplus_cons, surplus_nil]
    split <;> simp
  | cons b rest ih =>
    have hrest := ih b
    rw [weight_add_awaited] at hrest
    rw [expandConcatenation_cons, surplus_cons, surplus_append, surplus_seam, gaps]
    -- an operand is either awaited before `b` or not, and `b` either begins one or not
    cases token.endsOperand <;> cases hb : b.beginsOperand <;> simp [hb] at hrest ⊢ <;> omega

/-- An expanded sequence has one symbol more than it has operators with two operands, less the
    gaps. -/
theorem surplus_expand (tokens : List Token) :
    surplus (expandConcatenation tokens) = 1 - gaps false tokens := by
  cases tokens with
  | nil => rfl
  | cons token rest =>
    have h := surplus_expand_cons token rest
    rw [weight_add_awaited] at h
    rw [gaps]
    cases hb : token.beginsOperand <;> simp [hb] at h ⊢ <;> omega

end EpsilonNfa
