import EpsilonNfa.Proofs.Builder.Operands
import EpsilonNfa.Proofs.Builder.Size
import EpsilonNfa.Proofs.Builder.Stack
import Mathlib.Algebra.Ring.Nat

/-!
How far the counter goes. A token adds at most two states to those that lie on the stack, and takes
at most two numbers of its own and one for each state that it moves:

    states on the stack      0     ≤ 2      ≤ 4      ...   ≤ 2n
    numbers taken              ≤ 2     ≤ 4      ≤ 6  ...

which makes at most `n * (n + 1)` numbers for `n` tokens. Nothing is asked of the sequence or of the
fragments on the stack: a run that ends with a fault in the middle has taken no more than one that
goes on.
-/

namespace EpsilonNfa

theorem Fragment.length_states_moved (base : Nat) (f : Fragment) :
    (f.moved base).states.length = f.states.length :=
  f.length_states_map (freshId base f.ids)

namespace Builder

/-- How many states the fragments of a stack list. -/
def held (stack : List Fragment) : Nat :=
  (stack.map fun f => f.states.length).sum

@[simp]
theorem held_nil : held [] = 0 := rfl

@[simp]
theorem held_cons (f : Fragment) (below : List Fragment) :
    held (f :: below) = f.states.length + held below := rfl

/-! ### One token -/

/-- A token takes at most two numbers more than states are held, and adds at most two states. -/
structure Grows (b : Builder) (stack : List Fragment)
    (result : Except BuildFault (List Fragment) × Builder) : Prop where
  le_next : b.next ≤ result.2.next
  next_le : result.2.next ≤ b.next + (held stack + 2)
  held_le : ∀ stack', result.1 = .ok stack' → held stack' ≤ held stack + 2

variable {b : Builder} {stack below : List Fragment}

/-- A token that is refused takes no number. -/
theorem grows_error (fault : BuildFault) : Grows b stack (.error fault, b) :=
  ⟨le_rfl, Nat.le_add_right .., nofun⟩

theorem grows_symbol (f : Fragment) {n : Nat} (hf : f.states.length ≤ 2) (hn : n ≤ 2) :
    Grows b stack (.ok (f :: stack), b.advance n) := by
  refine ⟨Nat.le_add_right .., Nat.add_le_add_left (by omega) _, ?_⟩
  rintro stack' ⟨⟩
  rw [held_cons]
  omega

/-- What a combinator takes and makes is bounded by what its operands hold. -/
theorem grows_push {result : Option Fragment} {n : Nat} (hn : n ≤ held stack + 2)
    (h : ∀ f, result = some f → f.states.length + held below ≤ held stack + 2) :
    Grows b stack (push below (result, b.advance n)) := by
  cases result with
  | none => exact ⟨Nat.le_add_right .., Nat.add_le_add_left hn _, nofun⟩
  | some f =>
    refine ⟨Nat.le_add_right .., Nat.add_le_add_left hn _, ?_⟩
    rintro stack' ⟨⟩
    exact h f rfl

theorem starStates_le (flags : Flags) : flags.starStates ≤ 2 := by
  rw [Flags.starStates]
  split_ifs <;> omega

theorem length_states_rounds (b : Builder) (inner : Fragment) :
    (b.rounds inner).states.length = b.flags.starStates + inner.states.length := by
  rw [rounds, Flags.starStates]
  split_ifs
  · rw [Fragment.length_states_iterateShared, Fragment.length_states_moved, Nat.add_comm]
  · rw [Fragment.length_states_iterate, Fragment.length_states_moved, Nat.add_comm]

theorem grows_step (b : Builder) (stack : List Fragment) (token : Token) :
    Grows b stack (b.step stack token) := by
  match token, stack with
  | .symbol (.letter c), stack => exact grows_symbol (.arrow b.next (b.next + 1) _) le_rfl le_rfl
  | .symbol .epsilon, stack => exact grows_symbol (.point b.next) (Nat.le_succ 1) (Nat.le_succ 1)
  | .operator .star, inner :: below =>
    have hown := starStates_le b.flags
    rw [step, kleeneStar_eq_ite]
    refine grows_push (by simp; omega) fun f hf => ?_
    obtain ⟨-, hf⟩ := Option.ite_none_right_eq_some.1 hf
    cases hf
    rw [length_states_rounds, held_cons]
    omega
  | .operator .concat, right :: left :: below =>
    rw [step, concatenation_eq_ite]
    refine grows_push (by simp; omega) fun f hf => ?_
    obtain ⟨-, hf⟩ := Option.ite_none_right_eq_some.1 hf
    cases hf
    rw [Fragment.length_states_concatenate, Fragment.length_states_moved, held_cons, held_cons]
    omega
  | .operator .union, lower :: upper :: below =>
    rw [step, alternation_eq_ite]
    refine grows_push ?_ fun f hf => ?_
    · simp only [held_cons]
      split_ifs <;> omega
    · obtain ⟨-, hf⟩ := Option.ite_none_right_eq_some.1 hf
      cases hf
      rw [Fragment.length_states_alternate, Fragment.length_states_moved,
        Fragment.length_states_moved, held_cons, held_cons]
      omega
  | .operator .star, [] => exact grows_error _
  | .operator .concat, [] => exact grows_error _
  | .operator .concat, [_] => exact grows_error _
  | .operator .union, [] => exact grows_error _
  | .operator .union, [_] => exact grows_error _
  | .operator .openParen, _ => exact grows_error _
  | .operator .closeParen, _ => exact grows_error _

/-! ### A sequence of tokens -/

/-- The counter never goes back. -/
theorem next_le_run (b : Builder) (stack : List Fragment) (tokens : List Token) :
    b.next ≤ (b.run stack tokens).2.next := by
  induction tokens generalizing b stack with
  | nil => exact le_rfl
  | cons token rest ih =>
    have hgrows := grows_step b stack token
    rw [run]
    rcases hstep : b.step stack token with ⟨fault | stack', b'⟩
    · rw [hstep] at hgrows
      exact hgrows.le_next
    · rw [hstep] at hgrows
      exact hgrows.le_next.trans (ih b' stack')

/-- Every token takes two numbers more than the one before it could, at most. -/
theorem next_run_le (b : Builder) (stack : List Fragment) (tokens : List Token) :
    (b.run stack tokens).2.next ≤
      b.next + tokens.length * (held stack + tokens.length + 1) := by
  induction tokens generalizing b stack with
  | nil => exact Nat.le_add_right ..
  | cons token rest ih =>
    have hgrows := grows_step b stack token
    rw [run, List.length_cons, Nat.succ_mul]
    rcases hstep : b.step stack token with ⟨fault | stack', b'⟩
    · rw [hstep] at hgrows
      have hnext : b'.next ≤ b.next + (held stack + 2) := hgrows.next_le
      show b'.next ≤ _
      omega
    · rw [hstep] at hgrows
      have hnext : b'.next ≤ b.next + (held stack + 2) := hgrows.next_le
      have hheld : held stack' ≤ held stack + 2 := hgrows.held_le stack' rfl
      calc (b'.run stack' rest).2.next
        _ ≤ b'.next + rest.length * (held stack' + rest.length + 1) := ih b' stack'
        _ ≤ b'.next + rest.length * (held stack + (rest.length + 1) + 1 + 1) := by
          refine Nat.add_le_add_left (Nat.mul_le_mul_left _ ?_) _
          omega
        _ = b'.next + (rest.length * (held stack + (rest.length + 1) + 1) + rest.length) := by
          rw [Nat.mul_succ]
        _ ≤ _ := by omega

/-! ### The construction -/

theorem build_snd (b : Builder) (tokens : List Token) :
    (b.build tokens).2 = (b.run [] tokens).2 := by
  rw [build]
  rcases b.run [] tokens with ⟨fault | _ | ⟨f, _ | ⟨g, rest⟩⟩, b'⟩
  · rfl
  · rfl
  · rfl
  · rfl

theorem next_le_build (b : Builder) (tokens : List Token) : b.next ≤ (b.build tokens).2.next := by
  rw [build_snd]
  exact next_le_run b [] tokens

theorem next_build_le (b : Builder) (tokens : List Token) :
    (b.build tokens).2.next ≤ b.next + tokens.length * (tokens.length + 1) := by
  have h := next_run_le b [] tokens
  rwa [held_nil, Nat.zero_add, ← build_snd] at h

/-- What is built lies between the counter before and the counter after. -/
theorem within_of_build {b : Builder} {tokens : List Token} {f : Fragment}
    (h : (b.build tokens).1 = .ok f) : f.Within b.next (b.build tokens).2.next := by
  cases hcheck : checkArity tokens with
  | ok =>
    obtain ⟨g, n, hbuild, hwithin⟩ := b.build_of_checkArity_ok hcheck
    rw [hbuild] at h ⊢
    cases h
    exact hwithin
  | error fault =>
    obtain ⟨n, hbuild⟩ := b.build_of_checkArity_error hcheck
    rw [hbuild] at h
    cases h

end Builder

end EpsilonNfa
