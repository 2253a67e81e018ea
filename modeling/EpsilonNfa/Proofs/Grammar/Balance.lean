import EpsilonNfa.Proofs.Grammar.Reordering
import Mathlib.Data.List.TakeWhile

/-!
What the yard keeps on any sequence of tokens, an expression or not. Its open parentheses are those
of the tokens that have passed, and what is out or waits is, but for parentheses, what has passed.
So a sequence that can be put in operator-last order has balanced parentheses, and the order is a
permutation of its other tokens.
-/

namespace EpsilonNfa

/-- The open groups after a sequence, when `n` were open before it; none if it closes a group that
    is not open. -/
def nesting : Nat → List Token → Option Nat
  | n, [] => some n
  | n, .operator .openParen :: rest => nesting (n + 1) rest
  | 0, .operator .closeParen :: _ => none
  | n + 1, .operator .closeParen :: rest => nesting n rest
  | n, _ :: rest => nesting n rest

/-- A token other than a parenthesis. -/
def Token.isBare : Token → Bool
  | operator .openParen | operator .closeParen => false
  | _ => true

/-- The tokens of a sequence without its parentheses. -/
def bare (tokens : List Token) : List Token :=
  tokens.filter Token.isBare

@[simp]
theorem bare_append (xs ys : List Token) : bare (xs ++ ys) = bare xs ++ bare ys :=
  List.filter_append ..

/-- The first token opens or closes a group by itself. -/
theorem nesting_cons (n : Nat) (token : Token) (rest : List Token) :
    nesting n (token :: rest) = (nesting n [token]).bind fun m => nesting m rest := by
  match token, n with
  | .symbol _, n => rfl
  | .operator .star, n => rfl
  | .operator .concat, n => rfl
  | .operator .union, n => rfl
  | .operator .openParen, n => rfl
  | .operator .closeParen, 0 => rfl
  | .operator .closeParen, n + 1 => rfl

theorem nesting_cons_of_isBare {token : Token} (h : token.isBare = true) (n : Nat)
    (rest : List Token) : nesting n (token :: rest) = nesting n rest := by
  rcases token with s | (_ | _ | _ | _ | _)
  · rfl
  · rfl
  · rfl
  · rfl
  · cases h
  · cases h

namespace Yard

/-- All tokens of a yard, out or waiting. -/
def content (x : Yard) : List Token :=
  x.output ++ x.waiting.map .operator

/-- The open parentheses of a yard. -/
def opens (x : Yard) : Nat :=
  x.waiting.count .openParen

variable {x y : Yard} {p : Operator → Bool}

/-- Sending out what waits loses nothing. -/
theorem content_release_perm (p : Operator → Bool) (x : Yard) :
    (x.release p).content.Perm x.content := by
  have hsplit : x.waiting.map Token.operator =
      (x.waiting.takeWhile p).map .operator ++ (x.waiting.dropWhile p).map .operator := by
    rw [← List.map_append, List.takeWhile_append_dropWhile]
  simp only [content, release]
  rw [hsplit, ← List.append_assoc]
  refine List.Perm.append_right _ ?_
  exact ((List.reverse_perm _).append_right _).trans List.perm_append_comm

/-- An operator other than an open parenthesis can leave without changing how many are open. -/
theorem opens_release (hp : p .openParen = false) (x : Yard) : (x.release p).opens = x.opens := by
  have htaken : (x.waiting.takeWhile p).count .openParen = 0 := by
    rw [List.count_eq_zero]
    intro hmem
    have := List.mem_takeWhile_imp hmem
    rw [hp] at this
    cases this
  have hsplit := congrArg (List.count .openParen)
    (List.takeWhile_append_dropWhile (p := p) (l := x.waiting))
  rw [List.count_append, htaken, Nat.zero_add] at hsplit
  exact hsplit

/-- A closing parenthesis that passes drops the open one that it meets first. -/
theorem release_of_step_closeParen (h : x.step (.operator .closeParen) = some y) :
    x.release (· ≠ .openParen) = ⟨y.output, .openParen :: y.waiting⟩ := by
  rw [step] at h
  split at h
  · cases h
  · next output o below hrelease =>
    cases h
    have hdrop : x.waiting.dropWhile (· ≠ .openParen) = o :: below := congrArg waiting hrelease
    have ho : o = .openParen := by
      have := List.head?_dropWhile_not (· ≠ Operator.openParen) x.waiting
      rw [hdrop] at this
      simpa using this
    rw [hrelease, ho]

/-- An operator other than a parenthesis passes by waiting on top of what it does not send out. -/
theorem step_of_isBare {o : Operator} (ho : (Token.operator o).isBare = true) (x : Yard) :
    x.step (.operator o) = some ⟨(x.release (·.yieldsTo o)).output,
      o :: (x.release (·.yieldsTo o)).waiting⟩ := by
  cases o with
  | star | concat | union => rfl
  | openParen | closeParen => cases ho

theorem content_of_step_isBare {o : Operator} (ho : (Token.operator o).isBare = true)
    (h : x.step (.operator o) = some y) : y.content.Perm (.operator o :: x.content) := by
  rw [step_of_isBare ho] at h
  cases h
  exact List.perm_middle.trans ((content_release_perm (·.yieldsTo o) x).cons _)

theorem opens_of_step_isBare {o : Operator} (ho : (Token.operator o).isBare = true)
    (h : x.step (.operator o) = some y) : y.opens = x.opens := by
  rw [step_of_isBare ho] at h
  cases h
  have hne : o ≠ .openParen := by
    rintro rfl
    cases ho
  rw [← opens_release (p := (·.yieldsTo o)) rfl x]
  exact List.count_cons_of_ne hne

/-- A token that passes is added to those of the yard. -/
theorem bare_content_of_step {token : Token} (h : x.step token = some y) :
    (bare y.content).Perm (bare (token :: x.content)) := by
  match token with
  | .symbol s =>
    cases h
    exact .refl _
  | .operator .openParen =>
    cases h
    simp [content, bare, Token.isBare]
  | .operator .closeParen =>
    have hperm := (content_release_perm (· ≠ .openParen) x).filter Token.isBare
    rw [release_of_step_closeParen h] at hperm
    simpa [content, bare, Token.isBare] using hperm
  | .operator .star => exact (content_of_step_isBare rfl h).filter _
  | .operator .concat => exact (content_of_step_isBare rfl h).filter _
  | .operator .union => exact (content_of_step_isBare rfl h).filter _

/-- A token that passes opens or closes a group of the yard as it does in the sequence. -/
theorem nesting_of_step {token : Token} (h : x.step token = some y) (rest : List Token) :
    nesting x.opens (token :: rest) = nesting y.opens rest := by
  match token with
  | .symbol s =>
    cases h
    rfl
  | .operator .openParen =>
    cases h
    simp [nesting, opens]
  | .operator .closeParen =>
    have hopens := opens_release (p := (· ≠ .openParen)) (by simp) x
    rw [release_of_step_closeParen h] at hopens
    rw [← hopens]
    simp [nesting, opens]
  | .operator .star => rw [nesting_cons_of_isBare rfl, opens_of_step_isBare rfl h]
  | .operator .concat => rw [nesting_cons_of_isBare rfl, opens_of_step_isBare rfl h]
  | .operator .union => rw [nesting_cons_of_isBare rfl, opens_of_step_isBare rfl h]

/-- A sequence that passes is added to the tokens of the yard. -/
theorem Passes.bare_content {tokens : List Token} (h : x.Passes tokens y) :
    (bare y.content).Perm (bare tokens ++ bare x.content) := by
  induction h with
  | nil => exact .refl _
  | @cons x y z token rest hstep _ ih =>
    have hy := bare_content_of_step hstep
    rw [← List.singleton_append, bare_append] at hy
    rw [← List.singleton_append, bare_append, List.append_assoc]
    calc bare z.content
      _ |>.Perm (bare rest ++ bare y.content) := ih
      _ |>.Perm (bare rest ++ (bare [token] ++ bare x.content)) := hy.append_left _
      _ |>.Perm (bare [token] ++ (bare rest ++ bare x.content)) := List.perm_append_comm_assoc ..

theorem Passes.nesting {tokens : List Token} (h : x.Passes tokens y) :
    EpsilonNfa.nesting x.opens tokens = some y.opens := by
  induction h with
  | nil => rfl
  | cons hstep _ ih => rw [nesting_of_step hstep, ih]

/-- A yard that can be flushed has no open parenthesis, and nothing of it is lost. -/
theorem flush_eq_some {ordered : List Token} (h : x.flush = some ordered) :
    x.opens = 0 ∧ ordered.Perm x.content := by
  rw [flush] at h
  split at h
  · next output hrelease =>
    cases h
    have hopens := opens_release (p := (· ≠ .openParen)) (by simp) x
    have hcontent := content_release_perm (· ≠ .openParen) x
    rw [hrelease] at hopens hcontent
    refine ⟨hopens.symm, (List.reverse_perm _).trans ?_⟩
    simpa [content] using hcontent
  · cases h

end Yard

theorem exists_passes_of_toPostfix {tokens ordered : List Token}
    (h : toPostfix tokens = .ok ordered) :
    ∃ y, Yard.empty.Passes tokens y ∧ y.flush = some ordered := by
  rw [toPostfix] at h
  split at h
  · cases h
  · next y hrun =>
    split at h
    · next out hflush =>
      cases h
      exact ⟨y, Yard.run_eq_ok_iff.1 hrun, hflush⟩
    · cases h

/-- A sequence that can be put in operator-last order has balanced parentheses, and keeps all its
    other tokens. -/
theorem balanced_of_toPostfix {tokens ordered : List Token} (h : toPostfix tokens = .ok ordered) :
    nesting 0 tokens = some 0 ∧ (bare ordered).Perm (bare tokens) := by
  obtain ⟨y, hpass, hflush⟩ := exists_passes_of_toPostfix h
  obtain ⟨hopens, hperm⟩ := Yard.flush_eq_some hflush
  have hnesting := hpass.nesting
  rw [hopens] at hnesting
  refine ⟨hnesting, (hperm.filter _).trans ?_⟩
  have hcontent := hpass.bare_content
  rwa [show bare Yard.empty.content = [] from rfl, List.append_nil] at hcontent

end EpsilonNfa
