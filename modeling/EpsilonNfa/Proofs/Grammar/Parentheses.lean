import EpsilonNfa.Proofs.Grammar.Balance

/-!
What becomes of parentheses that do not match. The yard stops at the first one that closes a group
which is not open, it cannot be flushed when a group is open at the end, and any other sequence
passes. So `nesting` alone decides the outcome of `toPostfix`:

    nesting 0 tokens     toPostfix tokens
    none                 fault: the text up to the first close without a partner
    some (n + 1)         fault: the whole text
    some 0               the other tokens, and no parenthesis
-/

namespace EpsilonNfa

/-! ### Counting parentheses -/

theorem nesting_append (n : Nat) (xs ys : List Token) :
    nesting n (xs ++ ys) = (nesting n xs).bind fun m => nesting m ys := by
  induction xs generalizing n with
  | nil => rfl
  | cons x xs ih =>
    rw [List.cons_append, nesting_cons, nesting_cons n x xs, Option.bind_assoc]
    simp only [ih]

theorem nesting_singleton_eq_none_iff {n : Nat} {token : Token} :
    nesting n [token] = none ↔ token = .operator .closeParen ∧ n = 0 := by
  match token, n with
  | .symbol _, n => simp [nesting]
  | .operator .star, n => simp [nesting]
  | .operator .concat, n => simp [nesting]
  | .operator .union, n => simp [nesting]
  | .operator .openParen, n => simp [nesting]
  | .operator .closeParen, 0 => simp [nesting]
  | .operator .closeParen, n + 1 => simp [nesting]

/-- A sequence that closes a group which is not open has a first parenthesis that does. -/
theorem exists_of_nesting_eq_none {n : Nat} {tokens : List Token} (h : nesting n tokens = none) :
    ∃ before after, tokens = before ++ .operator .closeParen :: after ∧
      nesting n before = some 0 := by
  induction tokens generalizing n with
  | nil => cases h
  | cons token rest ih =>
    rw [nesting_cons, Option.bind_eq_none_iff] at h
    cases htoken : nesting n [token] with
    | none =>
      obtain ⟨rfl, rfl⟩ := nesting_singleton_eq_none_iff.1 htoken
      exact ⟨[], rest, rfl, rfl⟩
    | some m =>
      obtain ⟨before, after, rfl, hbefore⟩ := ih (h m htoken)
      exact ⟨token :: before, after, rfl, by rw [nesting_cons, htoken]; exact hbefore⟩

/-- The groups open at the end are those that were opened and not closed. -/
theorem count_of_nesting_eq_some {n m : Nat} {tokens : List Token}
    (h : nesting n tokens = some m) :
    n + tokens.count (.operator .openParen) = m + tokens.count (.operator .closeParen) := by
  induction tokens generalizing n with
  | nil =>
    cases h
    rfl
  | cons token rest ih =>
    match token, n with
    | .operator .openParen, n =>
      have := ih (n := n + 1) h
      simp
      omega
    | .operator .closeParen, n + 1 =>
      have := ih (n := n) h
      simp
      omega
    | .symbol _, n => simpa using ih (n := n) h
    | .operator .star, n => simpa using ih (n := n) h
    | .operator .concat, n => simpa using ih (n := n) h
    | .operator .union, n => simpa using ih (n := n) h

/-- A group that is not open is closed exactly when some prefix closes too many. -/
theorem nesting_eq_none_iff {n : Nat} {tokens : List Token} : nesting n tokens = none ↔
    ∃ part, part <+: tokens ∧
      n + part.count (.operator .openParen) < part.count (.operator .closeParen) := by
  constructor
  · intro h
    obtain ⟨before, after, rfl, hbefore⟩ := exists_of_nesting_eq_none h
    have hcount := count_of_nesting_eq_some hbefore
    refine ⟨before ++ [.operator .closeParen], ⟨after, by simp⟩, ?_⟩
    simp
    omega
  · rintro ⟨part, ⟨rest, rfl⟩, hpart⟩
    rw [nesting_append]
    cases hnesting : nesting n part with
    | none => rfl
    | some m =>
      have := count_of_nesting_eq_some hnesting
      omega

/-! ### The yard -/

namespace Yard

variable {x y : Yard} {tokens : List Token}

theorem waiting_release_eq_nil_iff : (x.release (· ≠ .openParen)).waiting = [] ↔ x.opens = 0 := by
  rw [release, opens, List.dropWhile_eq_nil_iff, List.count_eq_zero]
  exact ⟨fun h hmem => by simpa using h _ hmem,
    fun h o ho => by simpa using fun heq : o = .openParen => h (heq ▸ ho)⟩

/-- Only a closing parenthesis can fail to pass, and only when no group is open. -/
theorem step_eq_none_iff {token : Token} :
    x.step token = none ↔ token = .operator .closeParen ∧ x.opens = 0 := by
  match token with
  | .operator .closeParen =>
    rw [← waiting_release_eq_nil_iff, step]
    split
    · next hrelease => rw [hrelease]; simp
    · next hrelease => rw [hrelease]; simp
  | .symbol _ => simp [step]
  | .operator .openParen => simp [step]
  | .operator .star => simp [step]
  | .operator .concat => simp [step]
  | .operator .union => simp [step]

theorem flush_eq_none_iff : x.flush = none ↔ x.opens ≠ 0 := by
  rw [Ne, ← waiting_release_eq_nil_iff, flush]
  split
  · next hrelease => rw [hrelease]; simp
  · next hrelease => rw [hrelease]; simp

/-- A sequence passes as far as its groups are open when they are closed. -/
theorem exists_passes {n : Nat} (h : EpsilonNfa.nesting x.opens tokens = some n) :
    ∃ y, x.Passes tokens y ∧ y.opens = n := by
  induction tokens generalizing x with
  | nil => exact ⟨x, .nil x, Option.some.inj h⟩
  | cons token rest ih =>
    cases hstep : x.step token with
    | none =>
      obtain ⟨rfl, hopens⟩ := step_eq_none_iff.1 hstep
      rw [hopens] at h
      cases h
    | some y =>
      rw [nesting_of_step hstep] at h
      obtain ⟨z, hpass, hz⟩ := ih h
      exact ⟨z, .cons hstep hpass, hz⟩

/-- After tokens that pass, a run goes on from where they lead. -/
theorem Passes.run_append (h : x.Passes tokens y) (seen rest : List Token) :
    x.run seen (tokens ++ rest) = y.run (tokens.reverse ++ seen) rest := by
  induction h generalizing seen with
  | nil => rfl
  | cons hstep _ ih =>
    rw [List.cons_append, run, hstep]
    simp only [ih, List.reverse_cons, List.append_assoc, List.singleton_append]

/-- No parenthesis is out, and none that closes a group waits. -/
structure Clean (x : Yard) : Prop where
  output : ∀ token ∈ x.output, token.isBare = true
  waiting : .closeParen ∉ x.waiting

theorem clean_empty : empty.Clean := ⟨by simp [empty], by simp [empty]⟩

/-- What is sent out, short of an open parenthesis, is no parenthesis. -/
theorem Clean.release {p : Operator → Bool} (hp : p .openParen = false) (h : x.Clean) :
    (x.release p).Clean := by
  constructor
  · intro token htoken
    rcases List.mem_append.1 htoken with hsent | hout
    · obtain ⟨o, ho, rfl⟩ := List.mem_map.1 (List.mem_reverse.1 hsent)
      have hpo := List.mem_takeWhile_imp ho
      have hwaits : o ∈ x.waiting := (List.takeWhile_prefix p).subset ho
      cases o with
      | star | concat | union => rfl
      | openParen => rw [hp] at hpo; cases hpo
      | closeParen => exact absurd hwaits h.waiting
    · exact h.output token hout
  · exact fun hmem => h.waiting ((List.dropWhile_suffix p).subset hmem)

theorem Clean.step_of_isBare {o : Operator} (ho : (Token.operator o).isBare = true) (h : x.Clean)
    (hstep : x.step (.operator o) = some y) : y.Clean := by
  rw [EpsilonNfa.Yard.step_of_isBare ho] at hstep
  cases hstep
  have hrelease := h.release (p := (·.yieldsTo o)) rfl
  refine ⟨hrelease.output, fun hmem => ?_⟩
  rcases List.mem_cons.1 hmem with rfl | hmem
  · cases ho
  · exact hrelease.waiting hmem

theorem Clean.step {token : Token} (h : x.Clean) (hstep : x.step token = some y) : y.Clean := by
  match token with
  | .symbol s =>
    cases hstep
    exact ⟨by simpa [Token.isBare] using h.output, h.waiting⟩
  | .operator .openParen =>
    cases hstep
    exact ⟨h.output, by simpa using h.waiting⟩
  | .operator .closeParen =>
    have hrelease := h.release (p := (· ≠ .openParen)) rfl
    rw [release_of_step_closeParen hstep] at hrelease
    exact ⟨hrelease.output, fun hmem => hrelease.waiting (List.mem_cons_of_mem _ hmem)⟩
  | .operator .star => exact h.step_of_isBare rfl hstep
  | .operator .concat => exact h.step_of_isBare rfl hstep
  | .operator .union => exact h.step_of_isBare rfl hstep

theorem Clean.passes (h : x.Clean) (hpass : x.Passes tokens y) : y.Clean := by
  induction hpass with
  | nil => exact h
  | cons hstep _ ih => exact ih (h.step hstep)

theorem Clean.flush {ordered : List Token} (h : x.Clean) (hflush : x.flush = some ordered) :
    ∀ token ∈ ordered, token.isBare = true := by
  have hrelease := h.release (p := (· ≠ .openParen)) rfl
  rw [Yard.flush] at hflush
  split at hflush
  · next output heq =>
    cases hflush
    rw [heq] at hrelease
    exact fun token htoken => hrelease.output token (List.mem_reverse.1 htoken)
  · cases hflush

end Yard

/-! ### Operator-last order -/

variable {tokens ordered : List Token}

/-- The fault of a parenthesis that closes no open group is the text up to the first of them. -/
theorem exists_toPostfix_of_nesting_eq_none (h : nesting 0 tokens = none) :
    ∃ before after, tokens = before ++ .operator .closeParen :: after ∧
      nesting 0 before = some 0 ∧
      toPostfix tokens =
        .error (.unmatchedClose (Token.display (before ++ [.operator .closeParen]))) := by
  obtain ⟨before, after, rfl, hbefore⟩ := exists_of_nesting_eq_none h
  obtain ⟨y, hpass, hopens⟩ := Yard.exists_passes (x := .empty) hbefore
  have hstep : y.step (.operator .closeParen) = none := Yard.step_eq_none_iff.2 ⟨rfl, hopens⟩
  refine ⟨before, after, rfl, hbefore, ?_⟩
  rw [toPostfix, hpass.run_append, Yard.run, hstep]
  simp

/-- A group that stays open is reported with the whole text. -/
theorem toPostfix_of_nesting_eq_succ {n : Nat} (h : nesting 0 tokens = some (n + 1)) :
    toPostfix tokens = .error (.unclosedGroup (Token.display tokens)) := by
  obtain ⟨y, hpass, hopens⟩ := Yard.exists_passes (x := .empty) h
  have hflush : y.flush = none := Yard.flush_eq_none_iff.2 (by omega)
  rw [toPostfix, Yard.run_eq_ok_iff.2 hpass]
  simp only [hflush]

theorem exists_toPostfix_of_nesting_eq_zero (h : nesting 0 tokens = some 0) :
    ∃ ordered, toPostfix tokens = .ok ordered := by
  obtain ⟨y, hpass, hopens⟩ := Yard.exists_passes (x := .empty) h
  cases hflush : y.flush with
  | none => exact absurd hopens (Yard.flush_eq_none_iff.1 hflush)
  | some ordered =>
    refine ⟨ordered, ?_⟩
    rw [toPostfix, Yard.run_eq_ok_iff.2 hpass]
    simp only [hflush]

/-- No parenthesis is left in operator-last order. -/
theorem isBare_of_toPostfix (h : toPostfix tokens = .ok ordered) :
    ∀ token ∈ ordered, token.isBare = true := by
  obtain ⟨y, hpass, hflush⟩ := exists_passes_of_toPostfix h
  exact (Yard.clean_empty.passes hpass).flush hflush

/-- Operator-last order keeps all tokens but the parentheses. -/
theorem perm_of_toPostfix (h : toPostfix tokens = .ok ordered) : ordered.Perm (bare tokens) := by
  have hperm := (balanced_of_toPostfix h).2
  rwa [bare, List.filter_eq_self.2 (isBare_of_toPostfix h)] at hperm

end EpsilonNfa
