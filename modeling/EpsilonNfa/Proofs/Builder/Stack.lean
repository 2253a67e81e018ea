import EpsilonNfa.Pattern.Arity
import EpsilonNfa.Proofs.Builder.Combinators

/-!
The stack of fragments against the count of operands. One token finds as many fragments on the stack
as the arity check counts, and both go wrong on the same token with the same fault:

    depth  ──token──▶  depth'  or fault
      │ length           │ length
    stack  ──token──▶  stack'  or the same fault

The fragments on a stack lie on numbers that the builder has handed out, so an operand is always
closed and never dangling.
-/

namespace EpsilonNfa

namespace Builder

/-- Every fragment of a stack lies on numbers from `low` up to the counter. -/
structure Stacked (low : Nat) (b : Builder) (stack : List Fragment) : Prop where
  low_le : low ≤ b.next
  within : ∀ f ∈ stack, f.Within low b.next

variable {b : Builder} {low : Nat} {stack below : List Fragment}

theorem stacked_nil (h : low ≤ b.next) : Stacked low b [] :=
  ⟨h, fun _ hf => absurd hf List.not_mem_nil⟩

theorem Stacked.tail {f : Fragment} (h : Stacked low b (f :: below)) : Stacked low b below :=
  ⟨h.low_le, fun g hg => h.within g (List.mem_cons_of_mem f hg)⟩

theorem Stacked.head {f : Fragment} (h : Stacked low b (f :: below)) : f.Within low b.next :=
  h.within f List.mem_cons_self

/-- A fragment made later goes on top of what lies below. -/
theorem Stacked.push {f : Fragment} {n : Nat} (h : Stacked low b below)
    (hf : f.Within low (b.next + n)) : Stacked low (b.advance n) (f :: below) where
  low_le := h.low_le.trans (Nat.le_add_right ..)
  within g hg := by
    rcases List.mem_cons.1 hg with rfl | hg
    · exact hf
    · exact (h.within g hg).mono le_rfl (Nat.le_add_right ..)

/-! ### One token -/

/-- A token that the arity check counts passes, and leaves a stack of the counted depth. -/
theorem step_of_depthAfter_ok (hs : Stacked low b stack) {token : Token} {depth : Nat}
    (h : token.depthAfter stack.length = .ok depth) : ∃ stack' n,
    b.step stack token = (.ok stack', b.advance n) ∧ Stacked low (b.advance n) stack' ∧
      stack'.length = depth := by
  match token, stack with
  | .symbol s, stack =>
    obtain ⟨f, n, hf, hwithin, -⟩ := b.literal_spec s
    refine ⟨f :: stack, n, ?_, hs.push (hwithin.mono hs.low_le le_rfl), ?_⟩
    · simp [step, hf]
    · simpa using h
  | .operator .star, inner :: below =>
    obtain ⟨f, n, hf, hwithin, -⟩ := b.kleeneStar_spec hs.head.wellFormed
    refine ⟨f :: below, n, ?_, hs.tail.push (hwithin.mono hs.low_le le_rfl), ?_⟩
    · simp [step, hf, push]
    · simpa using h
  | .operator .concat, right :: left :: below =>
    obtain ⟨f, n, hf, hwithin, -⟩ := b.concatenation_spec hs.tail.head hs.head.wellFormed
    refine ⟨f :: below, n, ?_, hs.tail.tail.push hwithin, ?_⟩
    · simp [step, hf, push]
    · simpa using h
  | .operator .union, lower :: upper :: below =>
    obtain ⟨f, n, hf, hwithin, -⟩ := b.alternation_spec hs.tail.head.wellFormed hs.head.wellFormed
    refine ⟨f :: below, n, ?_, hs.tail.tail.push (hwithin.mono hs.low_le le_rfl), ?_⟩
    · simp [step, hf, push]
    · simpa using h

/-- A token that the arity check refuses is refused for the same fault, and costs no number. -/
theorem step_of_depthAfter_error {token : Token} {fault : PatternFault}
    (h : token.depthAfter stack.length = .error fault) :
    b.step stack token = (.error (.pattern fault), b) := by
  match token, stack with
  | .operator .openParen, _ => cases h; rfl
  | .operator .closeParen, _ => cases h; rfl
  | .operator .star, [] => cases h; rfl
  | .operator .concat, [] => cases h; rfl
  | .operator .concat, [_] => cases h; rfl
  | .operator .union, [] => cases h; rfl
  | .operator .union, [_] => cases h; rfl

/-! ### A sequence of tokens -/

theorem run_of_depthAfter_ok (hs : Stacked low b stack) {tokens : List Token} {depth : Nat}
    (h : depthAfter stack.length tokens = .ok depth) : ∃ stack' n,
    b.run stack tokens = (.ok stack', b.advance n) ∧ Stacked low (b.advance n) stack' ∧
      stack'.length = depth := by
  induction tokens generalizing b stack with
  | nil =>
    cases h
    exact ⟨stack, 0, rfl, hs, rfl⟩
  | cons token rest ih =>
    rw [depthAfter] at h
    split at h
    · next d hd =>
      obtain ⟨next, m, hstep, hnext, rfl⟩ := step_of_depthAfter_ok hs hd
      obtain ⟨stack', n, hrun, hstack', hdepth⟩ := ih hnext h
      refine ⟨stack', m + n, ?_, ?_, hdepth⟩
      · rw [run, hstep, ← advance_advance]
        exact hrun
      · rwa [← advance_advance]
    · cases h

theorem run_of_depthAfter_error (hs : Stacked low b stack) {tokens : List Token}
    {fault : PatternFault} (h : depthAfter stack.length tokens = .error fault) :
    ∃ n, b.run stack tokens = (.error (.pattern fault), b.advance n) := by
  induction tokens generalizing b stack with
  | nil => cases h
  | cons token rest ih =>
    rw [depthAfter] at h
    split at h
    · next d hd =>
      obtain ⟨next, m, hstep, hnext, rfl⟩ := step_of_depthAfter_ok hs hd
      obtain ⟨n, hrun⟩ := ih hnext h
      refine ⟨m + n, ?_⟩
      rw [run, hstep, ← advance_advance]
      exact hrun
    · next hd =>
      cases h
      refine ⟨0, ?_⟩
      rw [run, step_of_depthAfter_error hd]
      rfl

/-! ### The whole construction -/

/-- A sequence that passes the arity check is built, on fresh numbers. -/
theorem build_of_checkArity_ok (b : Builder) {tokens : List Token}
    (h : checkArity tokens = .ok ()) :
    ∃ f n, b.build tokens = (.ok f, b.advance n) ∧ f.Within b.next (b.next + n) := by
  rw [checkArity] at h
  split at h
  · next hd =>
    obtain ⟨stack, n, hrun, hs, hlen⟩ := run_of_depthAfter_ok (stacked_nil (b := b) le_rfl) hd
    obtain ⟨f, rfl⟩ := List.length_eq_one_iff.1 hlen
    exact ⟨f, n, by rw [build, hrun], hs.head⟩
  · cases h
  · cases h

/-- A sequence that fails the arity check fails to build, for the same fault. -/
theorem build_of_checkArity_error (b : Builder) {tokens : List Token} {fault : PatternFault}
    (h : checkArity tokens = .error fault) :
    ∃ n, b.build tokens = (.error (.pattern fault), b.advance n) := by
  rw [checkArity] at h
  split at h
  · cases h
  · next depth hne hd =>
    cases h
    obtain ⟨stack, n, hrun, -, rfl⟩ := run_of_depthAfter_ok (stacked_nil (b := b) le_rfl) hd
    refine ⟨n, ?_⟩
    rw [build, hrun]
    match stack with
    | [] => rfl
    | [_] => exact absurd rfl hne
    | _ :: _ :: _ => rfl
  · next fault hd =>
    cases h
    obtain ⟨n, hrun⟩ := run_of_depthAfter_error (stacked_nil (b := b) le_rfl) hd
    exact ⟨n, by rw [build, hrun]⟩

/-- Success and fault of the construction, read off the arity check. -/
theorem map_build (b : Builder) (tokens : List Token) :
    (b.build tokens).1.map (fun _ => ()) = (checkArity tokens).mapError .pattern := by
  cases h : checkArity tokens with
  | ok =>
    obtain ⟨f, n, hbuild, -⟩ := b.build_of_checkArity_ok h
    rw [hbuild]
    rfl
  | error fault =>
    obtain ⟨n, hbuild⟩ := b.build_of_checkArity_error h
    rw [hbuild]
    rfl

end Builder

end EpsilonNfa
