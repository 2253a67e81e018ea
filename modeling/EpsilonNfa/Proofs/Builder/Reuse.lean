import EpsilonNfa.Proofs.Automaton.Renaming
import EpsilonNfa.Proofs.Builder.Conventions
import EpsilonNfa.Proofs.Builder.Wrapping

/-!
A builder can be used again. Whatever it did before, all that is left of it is how far its counter
has gone; and a builder further on does the same as one at the start, with every number further on
by as much, in every operation and to the end of every run, failing ones too:

    stack            ──token──▶  stack'            or a fault
      │ + k                        │ + k
    stack shifted    ──token──▶  stack' shifted    or the same fault

Tables and drawings do not show the numbers, so they are those of a new builder.
-/

namespace EpsilonNfa

variable {k : Nat}

/-! ### Shifted fragments -/

theorem freshId?_shift (base : Nat) (ids : List Nat) (i : Nat) :
    freshId? (base + k) (ids.map (· + k)) (i + k) = (freshId? base ids i).map (· + k) := by
  induction ids generalizing base with
  | nil => rfl
  | cons listed rest ih =>
    rw [List.map_cons, freshId?, freshId?, Nat.add_right_comm, ih (base + 1)]
    cases freshId? (base + 1) rest i with
    | some fresh => rfl
    | none =>
      by_cases h : listed = i
      · simp [h]
      · simp [h]

namespace Fragment

/-- A fragment with every number further on by `k`. -/
def shift (k : Nat) (f : Fragment) : Fragment :=
  f.map (· + k)

variable {f : Fragment}

theorem map_map (f : Fragment) (σ τ : Nat → Nat) : (f.map σ).map τ = f.map (τ ∘ σ) := by
  simp [map, Transition.map, Function.comp_def]

theorem length_states_shift (k : Nat) (f : Fragment) :
    (f.shift k).states.length = f.states.length :=
  f.length_states_map (· + k)

theorem closed_map_iff {σ : Nat → Nat} (hσ : Function.Injective σ) :
    (f.map σ).Closed ↔ f.Closed := by
  refine ⟨fun h => ?_, fun h => h.map σ⟩
  have hids {i : Nat} (hi : σ i ∈ (f.map σ).ids) : i ∈ f.ids := by
    rwa [ids_map, List.mem_map_of_injective hσ] at hi
  exact {
    start_mem := hids h.start_mem
    accept_mem := fun i hi => hids (h.accept_mem (σ i) (List.mem_map_of_mem hi))
    source_mem := fun t ht => hids (h.source_mem _ (mem_transitions_map.2 ⟨t, ht, rfl⟩))
    target_mem := fun t ht => hids (h.target_mem _ (mem_transitions_map.2 ⟨t, ht, rfl⟩)) }

theorem closed_shift_iff : (f.shift k).Closed ↔ f.Closed :=
  closed_map_iff (add_left_injective k)

/-- Fresh numbers further on are the fresh numbers, further on. -/
theorem moved_shift (hf : f.Closed) (base : Nat) :
    (f.shift k).moved (base + k) = (f.moved base).shift k := by
  rw [shift, shift, moved, moved, map_map, map_map, ids_map]
  refine map_congr hf fun i hi => ?_
  have h : freshId? (base + k) (f.ids.map (· + k)) (i + k) = some (freshId base f.ids i + k) := by
    rw [freshId?_shift, freshId?_eq_some base hi, Option.map_some]
  show (freshId? (base + k) (f.ids.map (· + k)) (i + k)).getD 0 = _
  rw [h]
  rfl

end Fragment

namespace Builder

/-- What an operation gives, with every number further on by `k`. -/
def shifted {α : Type} (k : Nat) (shift : α → α) (result : α × Builder) : α × Builder :=
  (shift result.1, result.2.advance k)

variable {b : Builder} {stack : List Fragment}

theorem advance_comm (b : Builder) (m n : Nat) :
    (b.advance m).advance n = (b.advance n).advance m := by
  rw [advance_advance, advance_advance, Nat.add_comm]

/-! ### Combinators -/

theorem literal_shift (s : Symbol) :
    (b.advance k).literal s = shifted k (Fragment.shift k) (b.literal s) := by
  cases s with
  | epsilon =>
    rw [literal_epsilon, literal_epsilon, advance_comm]
    rfl
  | letter c =>
    rw [literal_letter, literal_letter, advance_comm, next_advance, Nat.add_right_comm]
    rfl

theorem concatenation_shift (left right : Fragment) :
    (b.advance k).concatenation (left.shift k) (right.shift k) =
      shifted k (Option.map (Fragment.shift k)) (b.concatenation left right) := by
  rw [concatenation_eq_ite, concatenation_eq_ite, advance_comm, Fragment.length_states_shift]
  refine Prod.ext ?_ rfl
  by_cases hr : right.Closed
  · simp only [shifted, Fragment.closed_shift_iff, if_pos hr, next_advance, Fragment.moved_shift hr,
      Option.map_some]
    simp only [Fragment.shift, Fragment.map_concatenate]
  · simp only [shifted, Fragment.closed_shift_iff, if_neg hr, Option.map_none]

theorem alternation_shift (upper lower : Fragment) :
    (b.advance k).alternation (upper.shift k) (lower.shift k) =
      shifted k (Option.map (Fragment.shift k)) (b.alternation upper lower) := by
  simp only [alternation_eq_ite, advance_comm _ k, Fragment.length_states_shift,
    Fragment.closed_shift_iff]
  refine Prod.ext ?_ rfl
  by_cases h : upper.Closed ∧ lower.Closed
  · simp only [shifted, if_pos h, Option.map_some, next_advance, Nat.add_right_comm _ k,
      Fragment.moved_shift h.1, Fragment.moved_shift h.2]
    simp only [Fragment.shift, Fragment.map_alternate]
  · simp only [shifted, if_neg h, Option.map_none]

theorem rounds_shift {inner : Fragment} (hi : inner.Closed) :
    (b.advance k).rounds (inner.shift k) = (b.rounds inner).shift k := by
  simp only [rounds, flags_advance, next_advance, Nat.add_right_comm _ k, Fragment.moved_shift hi]
  split_ifs
  · simp only [Fragment.shift, Fragment.map_iterateShared]
  · simp only [Fragment.shift, Fragment.map_iterate]

theorem kleeneStar_shift (inner : Fragment) :
    (b.advance k).kleeneStar (inner.shift k) =
      shifted k (Option.map (Fragment.shift k)) (b.kleeneStar inner) := by
  simp only [kleeneStar_eq_ite, advance_comm _ k, Fragment.length_states_shift,
    Fragment.closed_shift_iff, flags_advance]
  refine Prod.ext ?_ rfl
  by_cases hi : inner.Closed
  · simp only [shifted, if_pos hi, Option.map_some, rounds_shift hi]
  · simp only [shifted, if_neg hi, Option.map_none]

/-! ### One token -/

/-- The stack that a token leaves, with every number further on. -/
abbrev shiftStack (k : Nat) :
    Except BuildFault (List Fragment) → Except BuildFault (List Fragment) :=
  Except.map (List.map (Fragment.shift k))

theorem push_shift (below : List Fragment) (result : Option Fragment × Builder) :
    push (below.map (Fragment.shift k)) (shifted k (Option.map (Fragment.shift k)) result) =
      shifted k (shiftStack k) (push below result) := by
  rcases result with ⟨_ | f, b'⟩
  · rfl
  · rfl

theorem step_shift (token : Token) :
    (b.advance k).step (stack.map (Fragment.shift k)) token =
      shifted k (shiftStack k) (b.step stack token) := by
  match token, stack with
  | .symbol s, stack =>
    rw [step, literal_shift]
    rfl
  | .operator .star, [] => rfl
  | .operator .star, inner :: below =>
    rw [List.map_cons, step, kleeneStar_shift, push_shift, step]
  | .operator .concat, [] => rfl
  | .operator .concat, [_] => rfl
  | .operator .concat, right :: left :: below =>
    rw [List.map_cons, List.map_cons, step, concatenation_shift, push_shift, step]
  | .operator .union, [] => rfl
  | .operator .union, [_] => rfl
  | .operator .union, lower :: upper :: below =>
    rw [List.map_cons, List.map_cons, step, alternation_shift, push_shift, step]
  | .operator .openParen, _ => rfl
  | .operator .closeParen, _ => rfl

/-! ### A sequence of tokens -/

theorem run_shift (tokens : List Token) :
    (b.advance k).run (stack.map (Fragment.shift k)) tokens =
      shifted k (shiftStack k) (b.run stack tokens) := by
  induction tokens generalizing b stack with
  | nil => rfl
  | cons token rest ih =>
    rw [run, run, step_shift]
    rcases b.step stack token with ⟨fault | stack', b'⟩
    · rfl
    · exact ih

/-- A builder further on builds the same, further on. -/
theorem build_shift (b : Builder) (k : Nat) (tokens : List Token) :
    (b.advance k).build tokens =
      shifted k (Except.map (Fragment.shift k)) (b.build tokens) := by
  have hrun : (b.advance k).run [] tokens = shifted k (shiftStack k) (b.run [] tokens) :=
    @run_shift k b [] tokens
  rw [build, build, hrun]
  rcases b.run [] tokens with ⟨fault | _ | ⟨f, _ | ⟨g, rest⟩⟩, b'⟩
  · rfl
  · rfl
  · rfl
  · simp [shifted, Except.map]

/-! ### Histories -/

/-- Any calls on `b`, whatever their operands and whether they fail or not, leave the builder `c`
    behind. -/
inductive Leads (b : Builder) : Builder → Prop where
  | refl : Leads b b
  | fresh {c : Builder} : Leads b c → Leads b c.fresh.2
  | empty {c : Builder} : Leads b c → Leads b c.empty.2
  | literal {c : Builder} (s : Symbol) : Leads b c → Leads b (c.literal s).2
  | concatenation {c : Builder} (left right : Fragment) :
      Leads b c → Leads b (c.concatenation left right).2
  | alternation {c : Builder} (upper lower : Fragment) :
      Leads b c → Leads b (c.alternation upper lower).2
  | kleeneStar {c : Builder} (inner : Fragment) : Leads b c → Leads b (c.kleeneStar inner).2
  | build {c : Builder} (tokens : List Token) : Leads b c → Leads b (c.build tokens).2

theorem flags_build (b : Builder) (tokens : List Token) :
    (b.build tokens).2.flags = b.flags := by
  have h : b.build tokens = resultUnder b.flags (b.build tokens) := build_under b fun _ => rfl
  rw [h]
  rfl

/-- No call changes the conventions. -/
theorem Leads.flags_eq {b c : Builder} (h : Leads b c) : c.flags = b.flags := by
  induction h with
  | refl => rfl
  | fresh _ ih => exact ih
  | empty _ ih => exact ih
  | literal s _ ih => cases s <;> exact ih
  | concatenation left right _ ih => rwa [concatenation_eq_ite, flags_advance]
  | alternation upper lower _ ih => rwa [alternation_eq_ite, flags_advance]
  | kleeneStar inner _ ih => rwa [kleeneStar_eq_ite, flags_advance]
  | build tokens _ ih => rwa [flags_build]

/-- The table and the drawing of the automaton of a fragment. -/
def finished (f : Fragment) : Table × String :=
  (Table.ofAutomaton (.ofFragment f), (Automaton.ofFragment f).toDot)

theorem finished_shift (k : Nat) (f : Fragment) : finished (f.shift k) = finished f := by
  have hinjective : Function.Injective (· + k) := add_left_injective k
  rw [finished, finished, Fragment.shift, Automaton.table_map hinjective,
    Automaton.toDot_map hinjective]

/-- A builder is a new one, further on. -/
theorem advance_new (b : Builder) : (new b.flags).advance b.next = b := by
  rw [advance, new, Nat.zero_add]

theorem build_eq_shifted (b : Builder) (tokens : List Token) :
    b.build tokens =
      shifted b.next (Except.map (Fragment.shift b.next)) ((new b.flags).build tokens) := by
  rw [← build_shift, advance_new]

theorem map_finished_build (b : Builder) (tokens : List Token) :
    (b.build tokens).1.map finished = ((new b.flags).build tokens).1.map finished := by
  rw [build_eq_shifted]
  rcases (new b.flags).build tokens with ⟨fault | f, b'⟩
  · rfl
  · exact congrArg Except.ok (finished_shift b.next f)

/-- A builder gives what a new one under the same conventions gives, with every number further on by
    its counter, or the same fault, and its counter goes on as far. Tables and drawings are the same
    after any calls. A counter of `limit` values does that, too, as long as it does not start
    over. -/
theorem build_of_used (b : Builder) (tokens : List Token) :
    let first := (new b.flags).build tokens
    (b.build tokens).1 = first.1.map (Fragment.map (· + b.next)) ∧
    (b.build tokens).2.next = b.next + first.2.next ∧
    (∀ c, Leads b c → (c.build tokens).1.map finished = (b.build tokens).1.map finished) ∧
    ∀ limit, b.next + first.2.next < limit →
      let wrapped := Wrapping.build limit (new b.flags) tokens
      (Wrapping.build limit b tokens).1 = wrapped.1.map (Fragment.map (· + b.next)) ∧
      (Wrapping.build limit b tokens).2.next = b.next + wrapped.2.next := by
  intro first
  have hbuild := build_eq_shifted b tokens
  have hresult : (b.build tokens).1 = first.1.map (Fragment.map (· + b.next)) := by
    rw [hbuild]
    rfl
  have hnext : (b.build tokens).2.next = b.next + first.2.next := by
    rw [hbuild, Nat.add_comm]
    rfl
  refine ⟨hresult, hnext, fun c hc => ?_, fun limit hlimit => ?_⟩
  · rw [map_finished_build c, map_finished_build b, hc.flags_eq]
  · have hwrapped : Wrapping.build limit (new b.flags) tokens = first :=
      Wrapping.build_eq (Nat.lt_of_le_of_lt (Nat.le_add_left ..) hlimit)
    have hplain : Wrapping.build limit b tokens = b.build tokens :=
      Wrapping.build_eq (by rwa [hnext])
    rw [hwrapped, hplain]
    exact ⟨hresult, hnext⟩

/-- After a star over an operand that could not be moved, and a sequence with an operator that finds
    no operand. -/
theorem build_of_used_after_failures :
    let b := new { sharedStar := true }
    let dangling : Fragment := { tangled with accept := [3, 9] }
    let c := ((b.kleeneStar dangling).2.build [.symbol .epsilon, .operator .concat]).2
    let tokens : List Token := [.symbol (.letter 'a'), .symbol (.letter 'b'), .operator .union,
      .operator .star]
    Leads b c ∧ c.next = 5 ∧
      (c.build tokens).1 = (b.build tokens).1.map (Fragment.map (· + 5)) ∧
      (c.build tokens).1.map finished = (b.build tokens).1.map finished ∧
      (Wrapping.build (2 ^ 64) c tokens).1 =
        (Wrapping.build (2 ^ 64) b tokens).1.map (Fragment.map (· + 5)) := by
  intro b dangling c tokens
  have hleads : Leads b c := .build _ (.kleeneStar dangling .refl)
  have hc : c = b.advance 5 := by
    show ((b.kleeneStar dangling).2.build _).2 = _
    rw [kleeneStar_eq_ite]
    rfl
  clear_value c
  subst hc
  obtain ⟨-, -, hfinished, -⟩ := build_of_used b tokens
  obtain ⟨hresult, -, -, hwrapped⟩ := build_of_used (b.advance 5) tokens
  have hlimit : (b.advance 5).next + ((new (b.advance 5).flags).build tokens).2.next < 2 ^ 64 :=
    (Nat.add_le_add_left (next_build_le _ tokens) 5).trans_lt (by decide)
  exact ⟨hleads, rfl, hresult, hfinished _ hleads, (hwrapped _ hlimit).1⟩

end Builder

end EpsilonNfa
