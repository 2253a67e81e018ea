import EpsilonNfa.Proofs.Grammar.Balance

/-!
From a sequence of tokens to its tree. A sequence with balanced parentheses in which no operand is
missing has a derivation tree: reading it from left to right, each open group is a hole that holds
the trees before it, and a token either fills the innermost hole, opens one, or closes one.

    ( a b | ( c * d          holes:  ⟨–, –⟩   ⟨a b |, –⟩       part:  ⟨–, c *⟩ d
-/

namespace EpsilonNfa

/-- Where an operand is awaited: what stands before it in its group, the left side of a union and
    the left side of a concatenation. -/
structure Hole where
  upper : Option (Tree .expression)
  before : Option (Tree .term × Bool)

namespace Hole

/-- The hole at the beginning of a group. -/
def empty : Hole := ⟨none, none⟩

/-- The tokens before a hole in its group. -/
def tokens (h : Hole) : List Token :=
  (match h.upper with
    | some e => e.tokens ++ [.operator .union]
    | none => []) ++
  match h.before with
    | some (t, dotted) => t.tokens ++ Tree.dot dotted
    | none => []

/-- The term that ends with `f`. -/
def term (h : Hole) (f : Tree .factor) : Tree .term :=
  match h.before with
  | some (t, dotted) => .concat dotted t f
  | none => .ofFactor f

/-- The expression that ends with `f`. -/
def expression (h : Hole) (f : Tree .factor) : Tree .expression :=
  match h.upper with
  | some e => .union e (h.term f)
  | none => .ofTerm (h.term f)

/-- The hole after `f`, when a concatenation follows. -/
def next (h : Hole) (f : Tree .factor) (dotted : Bool) : Hole :=
  ⟨h.upper, some (h.term f, dotted)⟩

@[simp]
theorem tokens_empty : empty.tokens = [] := rfl

theorem tokens_expression (h : Hole) (f : Tree .factor) :
    (h.expression f).tokens = h.tokens ++ f.tokens := by
  obtain ⟨_ | e, _ | ⟨t, dotted⟩⟩ := h <;> simp [expression, term, tokens, Tree.tokens]

theorem tokens_next (h : Hole) (f : Tree .factor) (dotted : Bool) :
    (h.next f dotted).tokens = h.tokens ++ f.tokens ++ Tree.dot dotted := by
  obtain ⟨_ | e, _ | ⟨t, dotted⟩⟩ := h <;> simp [next, term, tokens, Tree.tokens]

end Hole

/-- What has been read of the innermost group: up to a hole, or an operand more. -/
inductive Part where
  | awaiting (h : Hole)
  | ended (h : Hole) (f : Tree .factor)

namespace Part

/-- An operand ends here. -/
def hasEnded : Part → Bool
  | awaiting _ => false
  | ended _ _ => true

/-- The tokens of a part. -/
def tokens : Part → List Token
  | awaiting h => h.tokens
  | ended h f => h.tokens ++ f.tokens

/-- The hole of the operand that comes next, after a concatenation without a dot if need be. -/
def hole : Part → Hole
  | awaiting h => h
  | ended h f => h.next f false

theorem tokens_hole (part : Part) : part.hole.tokens = part.tokens := by
  cases part with
  | awaiting h => rfl
  | ended h f => simp [hole, tokens, Hole.tokens_next, Tree.dot]

end Part

/-- The tokens before the innermost group, whose parenthesis is the last of them. -/
def tokensBelow : List Hole → List Token
  | [] => []
  | h :: below => tokensBelow below ++ h.tokens ++ [.operator .openParen]

theorem gaps_cons_eq_zero {ended : Bool} {token : Token} {rest : List Token} :
    gaps ended (token :: rest) = 0 ↔
      (ended = true ∨ token.beginsOperand = true) ∧ gaps token.endsOperand rest = 0 := by
  rw [gaps, Nat.add_eq_zero_iff]
  cases ended <;> simp

/-- A token that begins no operand follows one. -/
theorem Part.eq_ended {part : Part} {token : Token}
    (h : part.hasEnded = true ∨ token.beginsOperand = true) (htoken : token.beginsOperand = false) :
    ∃ g f, part = ended g f := by
  cases part with
  | awaiting g => simp [hasEnded, htoken] at h
  | ended g f => exact ⟨g, f, rfl⟩

/-- What has been read, and a rest without gaps that closes its groups, is an expression. -/
theorem exists_tokens_eq {rest : List Token} (below : List Hole) (part : Part)
    (hgaps : gaps part.hasEnded rest = 0) (hnesting : nesting below.length rest = some 0) :
    ∃ e : Tree .expression, e.tokens = tokensBelow below ++ part.tokens ++ rest := by
  induction rest generalizing below part with
  | nil =>
    cases part with
    | awaiting h => simp [gaps, Part.hasEnded] at hgaps
    | ended h f =>
      simp only [nesting, Option.some.injEq, List.length_eq_zero_iff] at hnesting
      subst hnesting
      exact ⟨h.expression f, by simp [tokensBelow, Part.tokens, Hole.tokens_expression]⟩
  | cons token rest ih =>
    obtain ⟨hfits, hrest⟩ := gaps_cons_eq_zero.1 hgaps
    cases token with
    | symbol s =>
      obtain ⟨e, he⟩ := ih below (.ended part.hole (.ofAtom (.symbol s))) hrest hnesting
      exact ⟨e, by simp [he, Part.tokens, part.tokens_hole, Tree.tokens]⟩
    | operator o =>
      cases o with
      | openParen =>
        obtain ⟨e, he⟩ := ih (part.hole :: below) (.awaiting .empty) hrest hnesting
        exact ⟨e, by simp [he, tokensBelow, Part.tokens, part.tokens_hole]⟩
      | closeParen =>
        obtain ⟨h, f, rfl⟩ := Part.eq_ended hfits rfl
        cases below with
        | nil => cases hnesting
        | cons g below =>
          let group : Tree .factor := .ofAtom (.group (h.expression f))
          obtain ⟨e, he⟩ := ih below (.ended g group) hrest hnesting
          refine ⟨e, ?_⟩
          simp [he, group, tokensBelow, Part.tokens, Tree.tokens, Hole.tokens_expression]
      | star =>
        obtain ⟨h, f, rfl⟩ := Part.eq_ended hfits rfl
        obtain ⟨e, he⟩ := ih below (.ended h f.star) hrest hnesting
        exact ⟨e, by simp [he, Part.tokens, Tree.tokens]⟩
      | union =>
        obtain ⟨h, f, rfl⟩ := Part.eq_ended hfits rfl
        obtain ⟨e, he⟩ := ih below (.awaiting ⟨some (h.expression f), none⟩) hrest hnesting
        exact ⟨e, by simp [he, Part.tokens, Hole.tokens, Hole.tokens_expression]⟩
      | concat =>
        obtain ⟨h, f, rfl⟩ := Part.eq_ended hfits rfl
        obtain ⟨e, he⟩ := ih below (.awaiting (h.next f true)) hrest hnesting
        exact ⟨e, by simp [he, Part.tokens, Hole.tokens_next, Tree.dot]⟩

end EpsilonNfa
