import EpsilonNfa.Proofs.Grammar.Parentheses

/-!
Operator-last order of any sequence of tokens, an expression or not. The parentheses alone decide
whether there is one, and how it fails if there is none:

    first prefix that closes too much     the fault is that prefix
    none, but groups stay open            the fault is the whole sequence
    balanced                              the tokens but for the parentheses, in another order

Operators may move far, since they wait; symbols go out at once and so never overtake one another.
-/

namespace EpsilonNfa

/-! ### Balance -/

/-- A sequence has more closing parentheses than opening ones. -/
def Overclosed (tokens : List Token) : Prop :=
  tokens.count (.operator .openParen) < tokens.count (.operator .closeParen)

/-- Nowhere have more groups been closed than opened, and in the end all of them are closed. -/
structure Balanced (tokens : List Token) : Prop where
  not_overclosed : ∀ part, part <+: tokens → ¬ Overclosed part
  count_eq : tokens.count (.operator .openParen) = tokens.count (.operator .closeParen)

/-- The shortest prefix of a sequence that has more closing parentheses than opening ones. -/
structure FirstExcess (part tokens : List Token) : Prop where
  isPrefix : part <+: tokens
  overclosed : Overclosed part
  length_le : ∀ other, other <+: tokens → Overclosed other → part.length ≤ other.length

variable {tokens : List Token}

theorem nesting_zero_eq_none_iff :
    nesting 0 tokens = none ↔ ∃ part, part <+: tokens ∧ Overclosed part := by
  rw [nesting_eq_none_iff]
  simp only [Nat.zero_add, Overclosed]

theorem balanced_iff : Balanced tokens ↔ nesting 0 tokens = some 0 := by
  constructor
  · intro h
    cases hnesting : nesting 0 tokens with
    | none =>
      obtain ⟨part, hpart, hover⟩ := nesting_zero_eq_none_iff.1 hnesting
      exact absurd hover (h.not_overclosed part hpart)
    | some n =>
      have hcount := count_of_nesting_eq_some hnesting
      have heq := h.count_eq
      obtain rfl : n = 0 := by omega
      rfl
  · intro h
    refine ⟨fun part hpart hover => ?_, ?_⟩
    · rw [nesting_zero_eq_none_iff.2 ⟨part, hpart, hover⟩] at h
      cases h
    · simpa using count_of_nesting_eq_some h

/-- A parenthesis that closes a group which is not open ends the first excess. -/
theorem firstExcess_of_nesting {before after : List Token} (h : nesting 0 before = some 0) :
    FirstExcess (before ++ [.operator .closeParen]) (before ++ .operator .closeParen :: after) where
  isPrefix := ⟨after, by simp⟩
  overclosed := by
    have hcount := count_of_nesting_eq_some h
    simp only [Overclosed, List.count_append, List.count_singleton]
    simp
    omega
  length_le other hother hover := by
    by_contra hlt
    rw [List.length_append, List.length_singleton] at hlt
    have hbefore : other <+: before :=
      List.prefix_of_prefix_length_le hother (List.prefix_append ..) (by omega)
    rw [nesting_zero_eq_none_iff.2 ⟨other, hbefore, hover⟩] at h
    cases h

/-! ### The order of symbols -/

/-- The symbol that a token is. -/
def Token.symbol? : Token → Option Symbol
  | symbol s => some s
  | operator _ => none

/-- The symbols of a sequence, in its order. -/
def symbols (tokens : List Token) : List Symbol :=
  tokens.filterMap Token.symbol?

@[simp]
theorem symbols_append (xs ys : List Token) : symbols (xs ++ ys) = symbols xs ++ symbols ys :=
  List.filterMap_append

theorem symbols_cons (token : Token) (rest : List Token) :
    symbols (token :: rest) = symbols [token] ++ symbols rest :=
  symbols_append [token] rest

@[simp]
theorem symbols_operators (ops : List Operator) : symbols (ops.map .operator) = [] := by
  simp [symbols, Token.symbol?]

namespace Yard

variable {x y : Yard}

/-- The symbols that are out, in the order in which they went out. -/
def sent (x : Yard) : List Symbol :=
  symbols x.output.reverse

/-- Operators that are sent out bring no symbol with them. -/
theorem sent_release (p : Operator → Bool) (x : Yard) : (x.release p).sent = x.sent := by
  rw [sent, release, List.reverse_append, List.reverse_reverse, symbols_append, symbols_operators,
    List.append_nil, sent]

theorem sent_of_step_operator {o : Operator} (h : x.step (.operator o) = some y) :
    y.sent = x.sent := by
  cases o with
  | star | concat | union =>
    cases h
    exact sent_release _ x
  | openParen =>
    cases h
    rfl
  | closeParen =>
    have hsent := sent_release (· ≠ .openParen) x
    rwa [release_of_step_closeParen h] at hsent

/-- A symbol goes out when it passes, and no other token sends one out. -/
theorem sent_of_step {token : Token} (h : x.step token = some y) :
    y.sent = x.sent ++ symbols [token] := by
  cases token with
  | symbol s =>
    cases h
    rw [sent, List.reverse_cons, symbols_append, sent]
  | operator o => exact (sent_of_step_operator h).trans (List.append_nil _).symm

/-- So the symbols of any tokens go out in the order in which they pass. -/
theorem Passes.sent (h : x.Passes tokens y) : y.sent = x.sent ++ symbols tokens := by
  induction h with
  | nil => exact (List.append_nil _).symm
  | cons hstep _ ih => rw [ih, sent_of_step hstep, List.append_assoc, ← symbols_cons]

theorem sent_of_flush {ordered : List Token} (h : x.flush = some ordered) :
    symbols ordered = x.sent := by
  have hsent := sent_release (· ≠ .openParen) x
  rw [flush] at h
  split at h
  · next output heq =>
    cases h
    rwa [heq] at hsent
  · cases h

end Yard

/-- Operator-last order keeps the symbols in their order. -/
theorem symbols_of_toPostfix {ordered : List Token} (h : toPostfix tokens = .ok ordered) :
    symbols ordered = symbols tokens := by
  obtain ⟨y, hpass, hflush⟩ := exists_passes_of_toPostfix h
  rw [Yard.sent_of_flush hflush, hpass.sent]
  rfl

/-! ### The outcome -/

/-- A sequence has an operator-last order exactly when its parentheses are balanced. -/
theorem exists_toPostfix_eq_ok_iff :
    (∃ ordered, toPostfix tokens = .ok ordered) ↔ Balanced tokens := by
  rw [balanced_iff]
  constructor
  · rintro ⟨ordered, h⟩
    exact (balanced_of_toPostfix h).1
  · exact exists_toPostfix_of_nesting_eq_zero

/-- The fault of a sequence that closes too much is its first excess, up to the parenthesis that
    makes it one. -/
theorem exists_firstExcess (h : nesting 0 tokens = none) :
    ∃ front, FirstExcess (front ++ [.operator .closeParen]) tokens ∧ toPostfix tokens =
      .error (.unmatchedClose (Token.display (front ++ [.operator .closeParen]))) := by
  obtain ⟨front, after, rfl, hfront, hfault⟩ := exists_toPostfix_of_nesting_eq_none h
  exact ⟨front, firstExcess_of_nesting hfront, hfault⟩

/-- The parentheses of a sequence decide whether it has an operator-last order. With balanced ones
    the order holds every other token as often as the sequence does, and the symbols as they came;
    otherwise the fault is the text of the first prefix that closes too much, and of the whole
    sequence when there is no such prefix. -/
theorem toPostfix_judges_parentheses (tokens : List Token) :
    ((∃ ordered, toPostfix tokens = .ok ordered) ↔ Balanced tokens) ∧
    (∀ ordered, toPostfix tokens = .ok ordered →
      (∀ token ∈ ordered, token.isBare = true) ∧ ordered.Perm (bare tokens) ∧
        symbols ordered = symbols tokens) ∧
    ((∃ part, part <+: tokens ∧ Overclosed part) →
      ∃ part, FirstExcess part tokens ∧
        toPostfix tokens = .error (.unmatchedClose (Token.display part))) ∧
    (¬ Balanced tokens → (∀ part, part <+: tokens → ¬ Overclosed part) →
      toPostfix tokens = .error (.unclosedGroup (Token.display tokens))) := by
  refine ⟨exists_toPostfix_eq_ok_iff, fun ordered h => ?_, fun h => ?_, fun hunbalanced hnone => ?_⟩
  · exact ⟨isBare_of_toPostfix h, perm_of_toPostfix h, symbols_of_toPostfix h⟩
  · obtain ⟨front, hexcess, hfault⟩ := exists_firstExcess (nesting_zero_eq_none_iff.2 h)
    exact ⟨_, hexcess, hfault⟩
  · cases hnesting : nesting 0 tokens with
    | none =>
      obtain ⟨part, hpart, hover⟩ := nesting_zero_eq_none_iff.1 hnesting
      exact absurd hover (hnone part hpart)
    | some n =>
      cases n with
      | zero => exact absurd (balanced_iff.2 hnesting) hunbalanced
      | succ n => exact toPostfix_of_nesting_eq_succ hnesting

-- operators without operands have an order as well
example : toPostfix [.operator .star, .operator .openParen, .operator .union,
    .operator .closeParen] = .ok [.operator .union, .operator .star] := by rfl

end EpsilonNfa
