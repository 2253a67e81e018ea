import EpsilonNfa.Proofs.Grammar.Expansion

/-!
The yard on an expression. Passing the tokens of a tree leaves above what waited before them only
operators that bind at least as tightly as the tree's nonterminal, and these, sent out, complete the
postorder:

    output            waiting
    out               ops            before
    out'              w ++ ops       after, with  out' ++ w (outermost last) = out ++ postorder

So each incoming operator finds on top exactly what belongs to its left operand.
-/

namespace EpsilonNfa

/-- The least priority of an operator that may wait when a tree of this kind has passed. -/
def Nonterminal.floor : Nonterminal → Nat
  | expression => 0
  | term => 1
  | factor => 2
  | atom => 3

/-- An operator binds at least as tightly as priority `p`. -/
def Operator.binds (p : Nat) (o : Operator) : Bool :=
  match o.priority? with
  | some q => p ≤ q
  | none => false

theorem Operator.binds_mono {p q : Nat} (h : p ≤ q) {o : Operator} (ho : o.binds q = true) :
    o.binds p = true := by
  unfold binds at ho ⊢
  split
  · next r hr =>
    simp only [hr, decide_eq_true_eq] at ho ⊢
    omega
  · next hr => simp [hr] at ho

theorem Operator.binds_self {p : Nat} {o : Operator} (h : o.priority? = some p) :
    o.binds p = true := by
  simp [binds, h]

theorem Operator.ne_openParen_of_binds {p : Nat} {o : Operator} (h : o.binds p = true) :
    o ≠ .openParen := by
  rintro rfl
  cases h

theorem Operator.yieldsTo_eq_binds {incoming : Operator} {p : Nat}
    (h : incoming.priority? = some p) (top : Operator) : top.yieldsTo incoming = top.binds p := by
  unfold yieldsTo binds
  rw [h]
  cases top.priority? <;> rfl

namespace Yard

/-- The first of the waiting operators does not satisfy `p`. -/
def Blocks (p : Operator → Bool) (waiting : List Operator) : Prop :=
  ∀ o ∈ waiting.head?, p o = false

/-- `x.Passes tokens y`: from the yard `x` the tokens pass one by one and leave the yard `y`. -/
inductive Passes : Yard → List Token → Yard → Prop where
  | nil (x : Yard) : Passes x [] x
  | cons {x y z : Yard} {token : Token} {rest : List Token} :
      x.step token = some y → Passes y rest z → Passes x (token :: rest) z

variable {x y z : Yard} {out : List Token} {w ops : List Operator} {p : Operator → Bool}

theorem Passes.single {token : Token} (h : x.step token = some y) : x.Passes [token] y :=
  .cons h (.nil y)

theorem Passes.append {xs ys : List Token} (hxs : x.Passes xs y) (hys : y.Passes ys z) :
    x.Passes (xs ++ ys) z := by
  induction hxs with
  | nil => exact hys
  | cons hstep _ ih => exact .cons hstep (ih hys)

/-- A run succeeds exactly when the tokens pass, whatever was seen before. -/
theorem run_eq_ok_iff {tokens seen : List Token} :
    x.run seen tokens = .ok y ↔ x.Passes tokens y := by
  constructor
  · intro h
    induction tokens generalizing x seen with
    | nil =>
      cases h
      exact .nil _
    | cons token rest ih =>
      rw [run] at h
      split at h
      · next hstep => exact .cons hstep (ih h)
      · cases h
  · intro h
    induction h generalizing seen with
    | nil => rfl
    | cons hstep _ ih =>
      rw [run, hstep]
      exact ih

theorem Blocks.mono {m n : Nat} (hle : m ≤ n) (h : Blocks (Operator.binds m) ops) :
    Blocks (Operator.binds n) ops := by
  intro o ho
  cases hn : o.binds n with
  | false => rfl
  | true =>
    have := Operator.binds_mono hle hn
    rw [h o ho] at this
    cases this

theorem takeWhile_of_blocks (h : Blocks p ops) : ops.takeWhile p = [] := by
  cases ops with
  | nil => rfl
  | cons o ops => simp [h o rfl]

theorem dropWhile_of_blocks (h : Blocks p ops) : ops.dropWhile p = ops := by
  cases ops with
  | nil => rfl
  | cons o ops => simp [h o rfl]

/-- Exactly the upper part of what waits is sent out. -/
theorem release_append (p : Operator → Bool) (out : List Token)
    {w ops : List Operator} (hw : ∀ o ∈ w, p o = true) (hops : Blocks p ops) :
    release p ⟨out, w ++ ops⟩ = ⟨(w.map Token.operator).reverse ++ out, ops⟩ := by
  simp [release, List.takeWhile_append_of_pos hw, List.dropWhile_append_of_pos hw,
    takeWhile_of_blocks hops, dropWhile_of_blocks hops]

theorem step_close (out : List Token) (ops : List Operator) (hw : ∀ o ∈ w, o ≠ .openParen) :
    step ⟨out, w ++ .openParen :: ops⟩ (.operator .closeParen) =
      some ⟨(w.map Token.operator).reverse ++ out, ops⟩ := by
  have hblocks : Blocks (· ≠ .openParen) (.openParen :: ops) := by simp [Blocks]
  have hrelease := release_append (· ≠ .openParen) out (w := w) (by simpa using hw) hblocks
  rw [step, hrelease]

theorem step_operator (out : List Token) {o : Operator} {n : Nat} (ho : o.priority? = some n)
    (hw : ∀ o ∈ w, o.binds n = true) (hops : Blocks (Operator.binds n) ops) :
    step ⟨out, w ++ ops⟩ (.operator o) =
      some ⟨(w.map Token.operator).reverse ++ out, o :: ops⟩ := by
  have hyields : (fun top => top.yieldsTo o) = Operator.binds n :=
    funext (Operator.yieldsTo_eq_binds ho)
  have hrelease := release_append _ out hw hops
  cases o with
  | star | concat | union => simp only [step, hyields, hrelease]
  | openParen | closeParen => cases ho

/-- What waits at the end goes out, unless a parenthesis is open. -/
theorem flush_of_forall (out : List Token) (hw : ∀ o ∈ w, o ≠ .openParen) :
    flush ⟨out, w⟩ = some ((w.map Token.operator).reverse ++ out).reverse := by
  have hblocks : Blocks (· ≠ .openParen) [] := by simp [Blocks]
  have hrelease := release_append (· ≠ .openParen) out (w := w) (by simpa using hw) hblocks
  rw [List.append_nil] at hrelease
  rw [flush, hrelease]

end Yard

/-! ### Trees -/

/-- Passing `tokens` above operators that bind less tightly than `p` leaves operators above them
    that do bind as tightly, and when these are sent out, `ordered` is out. -/
def Reorders (p : Nat) (tokens ordered : List Token) : Prop :=
  ∀ out ops, Yard.Blocks (Operator.binds p) ops → ∃ w out',
    Yard.Passes ⟨out, ops⟩ tokens ⟨out', w ++ ops⟩ ∧ (∀ o ∈ w, o.binds p = true) ∧
      (w.map Token.operator).reverse ++ out' = ordered.reverse ++ out

namespace Reorders

open Yard

variable {p q : Nat} {xs xs' ys ys' : List Token}

theorem mono (hle : p ≤ q) (h : Reorders q xs xs') : Reorders p xs xs' := by
  intro out ops hops
  obtain ⟨w, out', hpass, hw, hout⟩ := h out ops (hops.mono hle)
  exact ⟨w, out', hpass, fun o ho => Operator.binds_mono hle (hw o ho), hout⟩

theorem symbol (s : Symbol) : Reorders p [.symbol s] [.symbol s] := by
  intro out ops _
  exact ⟨[], .symbol s :: out, .single rfl, by simp, rfl⟩

/-- The operator finds its left operand complete and waits below its right operand. -/
theorem binary {o : Operator} (ho : o.priority? = some p) (hxs : Reorders p xs xs')
    (hys : Reorders (p + 1) ys ys') :
    Reorders p (xs ++ .operator o :: ys) (xs' ++ ys' ++ [.operator o]) := by
  intro out ops hops
  obtain ⟨w, out₁, hpass₁, hw, hout₁⟩ := hxs out ops hops
  have hstep := step_operator out₁ ho hw hops
  have habove : Blocks (Operator.binds (p + 1)) (o :: ops) := by
    simp [Blocks, Operator.binds, ho]
  obtain ⟨v, out₂, hpass₂, hv, hout₂⟩ := hys _ (o :: ops) habove
  refine ⟨v ++ [o], out₂, ?_, ?_, ?_⟩
  · rw [List.append_assoc]
    exact hpass₁.append (.cons hstep hpass₂)
  · intro o' ho'
    rcases List.mem_append.1 ho' with ho' | ho'
    · exact Operator.binds_mono (Nat.le_succ p) (hv o' ho')
    · rw [List.mem_singleton.1 ho']
      exact Operator.binds_self ho
  · rw [hout₁] at hout₂
    simp [hout₂]

/-- A star finds its operand complete. -/
theorem star (h : Reorders 2 xs xs') :
    Reorders 2 (xs ++ [.operator .star]) (xs' ++ [.operator .star]) := by
  intro out ops hops
  obtain ⟨w, out', hpass, hw, hout⟩ := h out ops hops
  have hstep := step_operator out' (o := .star) rfl hw hops
  refine ⟨[.star], _, hpass.append (.single hstep), ?_, ?_⟩
  · intro o ho
    rw [List.mem_singleton.1 ho]
    exact Operator.binds_self rfl
  · rw [hout]
    simp

/-- A parenthesis stops what waits below it, and nothing of the group is left to wait. -/
theorem group (h : Reorders 0 xs xs') :
    Reorders p (.operator .openParen :: (xs ++ [.operator .closeParen])) xs' := by
  intro out ops _
  have hstop : Blocks (Operator.binds 0) (.openParen :: ops) := by
    rintro o ⟨⟩
    rfl
  obtain ⟨w, out', hpass, hw, hout⟩ := h out (.openParen :: ops) hstop
  have hstep := step_close out' ops fun o ho =>
    Operator.ne_openParen_of_binds (hw o ho)
  refine ⟨[], _, .cons rfl (hpass.append (.single hstep)), by simp, ?_⟩
  simpa using hout

end Reorders

/-- The yard reorders every tree, at the priority of its nonterminal. -/
theorem Tree.reorders {n : Nonterminal} (t : Tree n) : Reorders n.floor t.spelled t.ordered := by
  induction t with
  | ofTerm t ih => exact ih.mono (by decide)
  | union e t ihe iht => exact .binary rfl ihe iht
  | ofFactor f ih => exact ih.mono (by decide)
  | concat dotted t f iht ihf => exact .binary rfl iht ihf
  | ofAtom a ih => exact ih.mono (by decide)
  | star f ih => exact ih.star
  | symbol s => exact .symbol s
  | group e ih => exact ih.group

/-- The tokens of an expression, in operator-last order, are its postorder. -/
theorem Tree.toPostfix_expandConcatenation (e : Tree .expression) :
    toPostfix (expandConcatenation e.tokens) = .ok e.ordered := by
  obtain ⟨w, out, hpass, hw, hout⟩ := e.reorders [] [] (by simp [Yard.Blocks])
  rw [List.append_nil] at hpass hout
  have hflush := Yard.flush_of_forall out fun o ho =>
    Operator.ne_openParen_of_binds (hw o ho)
  rw [hout, List.reverse_reverse] at hflush
  rw [e.expandConcatenation_tokens, toPostfix, Yard.empty, Yard.run_eq_ok_iff.2 hpass]
  simp only [hflush]

end EpsilonNfa
