import EpsilonNfa.Proofs.Builder.Construction
import Mathlib.Algebra.Ring.Nat

/-!
The size of what the construction makes, read off the sequence. Every token adds a fixed number of
states and of transitions:

    token          states     transitions
    letter           2            1
    epsilon          1            0
    concatenation    0            1
    union            2            4
    star             2 or 1       4 or 3     (two states of its own, or one)

A link adds a bridge for each exit of its operands, so for the transitions it matters that every
assembly has one exit.
-/

namespace EpsilonNfa

/-! ### Tokens -/

namespace Token

/-- A symbol that reads a letter. -/
def isLetter : Token → Bool
  | symbol (.letter _) => true
  | _ => false

/-- The states that a token adds, where stars have one of their own or two. -/
def states (shared : Bool) : Token → Nat
  | symbol (.letter _) => 2
  | symbol .epsilon => 1
  | operator .union => 2
  | operator .star => if shared then 1 else 2
  | operator _ => 0

/-- The transitions that a token adds. -/
def moves (shared : Bool) : Token → Nat
  | symbol (.letter _) => 1
  | symbol .epsilon => 0
  | operator .concat => 1
  | operator .union => 4
  | operator .star => if shared then 3 else 4
  | operator _ => 0

variable (shared : Bool) (tokens : List Token)

theorem sum_map_states : (tokens.map (states shared)).sum =
    2 * tokens.countP isLetter + tokens.count (symbol .epsilon)
      + 2 * tokens.count (operator .union)
      + (if shared then 1 else 2) * tokens.count (operator .star) := by
  induction tokens with
  | nil => simp
  | cons token rest ih =>
    rw [List.map_cons, List.sum_cons, ih]
    rcases token with (_ | _) | (_ | _ | _ | _ | _) <;> cases shared <;>
      simp [states, isLetter, List.countP_cons] <;> omega

theorem sum_map_moves : (tokens.map (moves shared)).sum =
    tokens.countP isLetter + tokens.count (operator .concat) + 4 * tokens.count (operator .union)
      + (if shared then 3 else 4) * tokens.count (operator .star) := by
  induction tokens with
  | nil => simp
  | cons token rest ih =>
    rw [List.map_cons, List.sum_cons, ih]
    rcases token with (_ | _) | (_ | _ | _ | _ | _) <;> cases shared <;>
      simp [moves, isLetter, List.countP_cons] <;> omega

end Token

/-! ### Links -/

namespace Fragment

variable (left right upper lower inner : Fragment) (start exit : Nat)

theorem length_states_map (f : Fragment) (σ : Nat → Nat) :
    (f.map σ).states.length = f.states.length :=
  List.length_map _

theorem length_states_concatenate : (left.concatenate right).states.length =
    left.states.length + right.states.length :=
  List.length_append

theorem length_transitions_concatenate : (left.concatenate right).transitions.length =
    left.transitions.length + right.transitions.length + left.accept.length := by
  simp [concatenate, Nat.add_assoc]

theorem length_states_alternate : (alternate start exit upper lower).states.length =
    upper.states.length + lower.states.length + 2 := by
  simp [alternate]

theorem length_transitions_alternate : (alternate start exit upper lower).transitions.length =
    upper.transitions.length + lower.transitions.length
      + (upper.accept.length + lower.accept.length) + 2 := by
  simp [alternate, Nat.add_assoc]

theorem length_states_iterate :
    (iterate start exit inner).states.length = inner.states.length + 2 := rfl

theorem length_transitions_iterate : (iterate start exit inner).transitions.length =
    2 * inner.accept.length + inner.transitions.length + 2 := by
  simp [iterate, Nat.mul_comm]

theorem length_states_iterateShared :
    (iterateShared start inner).states.length = inner.states.length + 1 := rfl

theorem length_transitions_iterateShared : (iterateShared start inner).transitions.length =
    2 * inner.accept.length + inner.transitions.length + 1 := by
  simp [iterateShared, Nat.mul_comm]

end Fragment

/-! ### Assemblies -/

namespace Assembled

open Fragment Expression

variable {shared : Bool} {e : Expression} {f : Fragment}

/-- Every assembly has one exit. -/
theorem length_accept (h : Assembled shared e f) : f.accept.length = 1 := by
  induction h with
  | point id => rfl
  | arrow c _ => rfl
  | concatenate _ _ _ _ ihr => exact ihr
  | alternate _ _ _ _ _ => rfl
  | iterate _ _ _ _ => rfl
  | iterateShared _ _ _ _ => rfl

theorem length_states (h : Assembled shared e f) :
    f.states.length = (e.postorder.map (Token.states shared)).sum := by
  induction h with
  | point id => rfl
  | arrow c _ => rfl
  | concatenate _ _ _ ihl ihr =>
    rw [length_states_concatenate, ihl, ihr]
    simp [postorder, Token.states]
  | alternate _ _ _ ihu ihl =>
    rw [length_states_alternate, ihu, ihl]
    simp [postorder, Token.states, Nat.add_assoc]
  | iterate hs _ _ ih =>
    rw [length_states_iterate, ih]
    simp [postorder, Token.states, hs]
  | iterateShared hs _ _ ih =>
    rw [length_states_iterateShared, ih]
    simp [postorder, Token.states, hs]

theorem length_transitions (h : Assembled shared e f) :
    f.transitions.length = (e.postorder.map (Token.moves shared)).sum := by
  induction h with
  | point id => rfl
  | arrow c _ => rfl
  | concatenate hleft _ _ ihl ihr =>
    rw [length_transitions_concatenate, ihl, ihr, hleft.length_accept]
    simp [postorder, Token.moves, Nat.add_assoc]
  | alternate hupper hlower _ ihu ihl =>
    rw [length_transitions_alternate, ihu, ihl, hupper.length_accept, hlower.length_accept]
    simp [postorder, Token.moves, Nat.add_assoc]
  | iterate hs hinner _ ih =>
    rw [length_transitions_iterate, ih, hinner.length_accept]
    simp [postorder, Token.moves, hs]
    omega
  | iterateShared hs hinner _ ih =>
    rw [length_transitions_iterateShared, ih, hinner.length_accept]
    simp [postorder, Token.moves, hs]
    omega

end Assembled

/-! ### The construction -/

/-- From a sequence that passes the arity check, with `c` letters, `e` silent symbols, `k`
    concatenations, `u` unions and `s` stars, the construction makes a fragment of exactly so many
    states and transitions. -/
theorem Builder.size_of_build (b : Builder) {tokens : List Token} (h : checkArity tokens = .ok ()) :
    let c := tokens.countP Token.isLetter
    let e := tokens.count (.symbol .epsilon)
    let k := tokens.count (.operator .concat)
    let u := tokens.count (.operator .union)
    let s := tokens.count (.operator .star)
    ∃ f, (b.build tokens).1 = .ok f ∧
      f.states.length = 2 * c + e + 2 * u + (if b.flags.sharedStar then 1 else 2) * s ∧
      f.transitions.length = c + k + 4 * u + (if b.flags.sharedStar then 3 else 4) * s := by
  obtain ⟨e, f, rfl, hbuild, hassembled⟩ := b.exists_assembled_build h
  refine ⟨f, hbuild, ?_, ?_⟩
  · rw [hassembled.length_states, Token.sum_map_states]
  · rw [hassembled.length_transitions, Token.sum_map_moves]

/-- A star with one state of its own over a union of two letters and the empty word, before a
    letter. -/
theorem Builder.size_of_build_star :
    let b : Builder := ⟨{ sharedStar := true }, 7⟩
    let tokens : List Token := [.symbol (.letter 'a'), .symbol (.letter 'b'), .operator .union,
      .symbol .epsilon, .operator .union, .operator .star, .symbol (.letter 'a'),
      .operator .concat]
    checkArity tokens = .ok () ∧
      ∃ f, (b.build tokens).1 = .ok f ∧ f.states.length = 12 ∧ f.transitions.length = 15 := by
  intro b tokens
  have h : checkArity tokens = .ok () := rfl
  exact ⟨h, b.size_of_build h⟩

end EpsilonNfa
