import EpsilonNfa.Proofs.Builder.Construction
import EpsilonNfa.Proofs.Builder.Growth

/-!
The construction on a counter of fixed width, which has `limit` values and starts over at zero after
the last one. Every fresh number is taken from it one by one, those for moved states too, and is the
plain one modulo the limit (`relabel_eq_mod`). As long as the plain counter stays below the limit the
two constructions do the same, because the counter only goes up: where it ends below the limit it was
below all the way.

    next       0 ── 1 ── 2 ── … ── limit - 1
               ▲                       │
               └───────────────────────┘
-/

namespace EpsilonNfa

theorem freshId?_cons (base listed : Nat) (rest : List Nat) (i : Nat) :
    freshId? base (listed :: rest) i =
      (freshId? (base + 1) rest i).or (if listed = i then some base else none) := by
  rw [freshId?]
  cases freshId? (base + 1) rest i <;> rfl

/-- Numbers that agree modulo the limit are followed by fresh numbers that do. -/
theorem freshId?_mod {limit base base' : Nat} (h : base % limit = base' % limit) (ids : List Nat)
    (i : Nat) :
    (freshId? base ids i).map (· % limit) = (freshId? base' ids i).map (· % limit) := by
  induction ids generalizing base base' with
  | nil => rfl
  | cons listed rest ih =>
    have hnext : (base + 1) % limit = (base' + 1) % limit := by
      rw [Nat.add_mod, h, ← Nat.add_mod]
    rw [freshId?_cons, freshId?_cons, Option.map_or, Option.map_or, ih hnext]
    split
    · rw [Option.map_some, Option.map_some, h]
    · rfl

namespace Wrapping

open Builder (push)

section

variable (limit : Nat)

/-- A fresh state number, and the counter one further. -/
def fresh (b : Builder) : Nat × Builder :=
  (b.next, { b with next := (b.next + 1) % limit })

/-- A fresh number for each listed state, in order; a state that is listed twice has the later
    one. -/
def assign (b : Builder) : List Nat → (Nat → Option Nat) × Builder
  | [] => (fun _ => none, b)
  | listed :: rest =>
    let (number, b) := fresh limit b
    let (later?, b) := assign b rest
    (fun id => (later? id).or (if listed = id then some number else none), b)

/-- Moves an operand to fresh numbers, one for each state it lists. -/
def relabel : Mover := fun b f =>
  let (number?, b) := assign limit b f.ids
  (f.translate? number?, b)

/-- The fragment that reads one symbol. -/
def literal (b : Builder) (symbol : Symbol) : Fragment × Builder :=
  let (start, b) := fresh limit b
  match symbol with
  | .epsilon => (.point start, b)
  | .letter _ =>
    let (exit, b) := fresh limit b
    (.arrow start exit symbol, b)

/-- `upper` or `lower`. -/
def alternation (b : Builder) (upper lower : Fragment) : Option Fragment × Builder :=
  let (start, b) := fresh limit b
  let (exit, b) := fresh limit b
  match relabel limit b upper with
  | (none, b) => (none, b)
  | (some upper, b) =>
    match relabel limit b lower with
    | (none, b) => (none, b)
    | (some lower, b) => (some (.alternate start exit upper lower), b)

/-- `inner`, any number of times. -/
def kleeneStar (b : Builder) (inner : Fragment) : Option Fragment × Builder :=
  let (start, b) := fresh limit b
  if b.flags.sharedStar then
    match relabel limit b inner with
    | (none, b) => (none, b)
    | (some inner, b) => (some (.iterateShared start inner), b)
  else
    let (exit, b) := fresh limit b
    match relabel limit b inner with
    | (none, b) => (none, b)
    | (some inner, b) => (some (.iterate start exit inner), b)

/-- One token of the sequence; what is refused takes no number. -/
def step (b : Builder) (stack : List Fragment) (token : Token) :
    Except BuildFault (List Fragment) × Builder :=
  match token, stack with
  | .symbol s, stack =>
    let (f, b) := literal limit b s
    (.ok (f :: stack), b)
  | .operator .star, inner :: below => push below (kleeneStar limit b inner)
  | .operator .concat, right :: left :: below =>
    push below (b.concatenationWith (relabel limit) left right)
  | .operator .union, lower :: upper :: below => push below (alternation limit b upper lower)
  | token, stack => b.step stack token

/-- The tokens of a sequence one by one, up to the first fault. -/
def run (b : Builder) (stack : List Fragment) :
    List Token → Except BuildFault (List Fragment) × Builder
  | [] => (.ok stack, b)
  | token :: rest =>
    match step limit b stack token with
    | (.ok stack, b) => run b stack rest
    | (.error fault, b) => (.error fault, b)

/-- The fragment of an operator-last sequence. -/
def build (b : Builder) (tokens : List Token) : Except BuildFault Fragment × Builder :=
  match run limit b [] tokens with
  | (.ok [f], b) => (.ok f, b)
  | (.ok stack, b) => (.error (.pattern (.fragmentCount stack.length)), b)
  | (.error fault, b) => (.error fault, b)

end

variable {limit : Nat} {b : Builder} {stack : List Fragment}

/-! ### Fresh numbers -/

/-- A builder that has handed out `n` more numbers, perhaps beyond the last one. -/
def advance (limit : Nat) (b : Builder) (n : Nat) : Builder :=
  { b with next := (b.next + n) % limit }

theorem fresh_eq_advance : fresh limit b = (b.next, advance limit b 1) := rfl

theorem advance_advance (m n : Nat) :
    advance limit (advance limit b m) n = advance limit b (m + n) := by
  simp [advance, Nat.add_assoc]

theorem advance_zero (h : b.next < limit) : advance limit b 0 = b := by
  rw [advance, Nat.add_zero, Nat.mod_eq_of_lt h]

theorem next_advance_lt (h : b.next < limit) (n : Nat) : (advance limit b n).next < limit :=
  Nat.mod_lt _ (Nat.zero_lt_of_lt h)

/-- The fresh numbers are those of the plain counter, modulo the limit. -/
theorem assign_eq_mod (h : b.next < limit) (ids : List Nat) :
    assign limit b ids =
      (fun i => (freshId? b.next ids i).map (· % limit), advance limit b ids.length) := by
  induction ids generalizing b with
  | nil =>
    rw [assign, List.length_nil, advance_zero h]
    rfl
  | cons listed rest ih =>
    have hnext : (advance limit b 1).next % limit = (b.next + 1) % limit := Nat.mod_mod _ _
    simp only [assign, fresh_eq_advance, ih (next_advance_lt h 1), advance_advance,
      List.length_cons, Nat.add_comm rest.length]
    refine Prod.ext (funext fun i => ?_) rfl
    simp only [freshId?_cons, Option.map_or, freshId?_mod hnext]
    split
    · rw [Option.map_some, Nat.mod_eq_of_lt h]
    · rfl

/-- A closed operand is moved to the numbers that the plain counter gives, modulo the limit. -/
theorem relabel_eq_mod (h : b.next < limit) (f : Fragment) :
    relabel limit b f =
      (if f.Closed then some (f.map fun i => freshId b.next f.ids i % limit) else none,
        advance limit b f.states.length) := by
  have hlength : f.ids.length = f.states.length := List.length_map _
  have hmoved : f.translate? (fun i => (freshId? b.next f.ids i).map (· % limit)) =
      if f.Closed then some (f.map fun i => freshId b.next f.ids i % limit) else none := by
    by_cases hf : f.Closed
    · rw [if_pos hf]
      refine Fragment.translate?_eq_map hf fun i hi => ?_
      rw [freshId?_eq_some b.next hi, Option.map_some]
    · rw [if_neg hf, Option.eq_none_iff_forall_ne_some]
      intro g hg
      refine hf (Fragment.closed_of_translate? (fun i hi => ?_) hg)
      rw [Option.isSome_map] at hi
      exact freshId?_isSome_iff.1 hi
  rw [relabel, assign_eq_mod h, hlength]
  exact Prod.ext hmoved rfl

/-! ### Fresh numbers below the limit -/

theorem fresh_eq (h : b.next + 1 < limit) : fresh limit b = (b.next, b.advance 1) := by
  rw [fresh, Nat.mod_eq_of_lt h]
  rfl

theorem relabel_eq {f : Fragment} (h : b.next + f.states.length < limit) :
    relabel limit b f = b.relabel f := by
  have hadvance : advance limit b f.states.length = b.advance f.states.length := by
    rw [advance, Nat.mod_eq_of_lt h]
    rfl
  rw [relabel_eq_mod (by omega), Builder.relabel_eq_ite, hadvance]
  by_cases hf : f.Closed
  · have hmoved : f.map (fun i => freshId b.next f.ids i % limit) = f.moved b.next := by
      refine Fragment.map_congr hf fun i hi => Nat.mod_eq_of_lt ?_
      have hlength : f.ids.length = f.states.length := List.length_map _
      have := freshId?_bounds (freshId?_eq_some b.next hi)
      omega
    rw [if_pos hf, if_pos hf, hmoved]
  · rw [if_neg hf, if_neg hf]

/-! ### Combinators -/

theorem literal_eq {s : Symbol} (h : (b.literal s).2.next < limit) :
    literal limit b s = b.literal s := by
  cases s with
  | epsilon =>
    have h : b.next + 1 < limit := h
    rw [literal, fresh_eq h, Builder.literal_epsilon]
  | letter c =>
    have h : b.next + 2 < limit := h
    have hexit : (b.advance 1).next + 1 < limit := h
    rw [literal, fresh_eq (by omega), Builder.literal_letter]
    simp only [fresh_eq hexit]
    rfl

theorem concatenation_eq {left right : Fragment}
    (h : (b.concatenation left right).2.next < limit) :
    b.concatenationWith (relabel limit) left right = b.concatenation left right := by
  rw [Builder.concatenation_eq_ite] at h
  rw [Builder.concatenationWith, relabel_eq h]
  rfl

/-- Two fresh numbers below the limit. -/
theorem fresh_advance (h : b.next + 2 < limit) :
    fresh limit b = (b.next, b.advance 1) ∧
      fresh limit (b.advance 1) = (b.next + 1, b.advance 2) :=
  ⟨fresh_eq (by omega), fresh_eq h⟩

/-- A move after `n` fresh numbers. -/
theorem relabel_advance {f : Fragment} {n : Nat} (h : b.next + (n + f.states.length) < limit) :
    relabel limit (b.advance n) f =
      (if f.Closed then some (f.moved (b.next + n)) else none,
        b.advance (n + f.states.length)) := by
  have hbelow : (b.advance n).next + f.states.length < limit := by
    rwa [Builder.next_advance, Nat.add_assoc]
  rw [relabel_eq hbelow, Builder.relabel_eq_ite, Builder.advance_advance, Builder.next_advance]

theorem alternation_eq {upper lower : Fragment} (h : (b.alternation upper lower).2.next < limit) :
    alternation limit b upper lower = b.alternation upper lower := by
  rw [Builder.alternation_eq_ite] at h ⊢
  rw [Builder.next_advance] at h
  have hnew : b.next + 2 < limit := by omega
  obtain ⟨hstart, hexit⟩ := fresh_advance hnew
  have hupper : relabel limit (b.advance 2) upper = _ := relabel_advance (by omega)
  by_cases hu : upper.Closed
  · rw [if_pos hu] at h hupper
    have hlower : relabel limit (b.advance (2 + upper.states.length)) lower = _ :=
      relabel_advance h
    by_cases hl : lower.Closed
    · simp only [alternation, hstart, hexit, hupper, hlower, hu, hl, and_self, if_true,
        Nat.add_assoc]
    · simp only [alternation, hstart, hexit, hupper, hlower, hu, hl, and_false, if_true, if_false]
  · simp only [alternation, hstart, hexit, hupper, hu, false_and, if_false, Nat.add_zero]

theorem kleeneStar_eq {inner : Fragment} (h : (b.kleeneStar inner).2.next < limit) :
    kleeneStar limit b inner = b.kleeneStar inner := by
  rw [Builder.kleeneStar_eq_ite, Flags.starStates, Builder.rounds] at h ⊢
  rw [Builder.next_advance] at h
  cases hs : b.flags.sharedStar with
  | false =>
    rw [hs, if_neg Bool.false_ne_true] at h
    have hnew : b.next + 2 < limit := by omega
    obtain ⟨hstart, hexit⟩ := fresh_advance hnew
    have hinner : relabel limit (b.advance 2) inner = _ := relabel_advance h
    by_cases hi : inner.Closed
    · simp only [kleeneStar, hstart, hexit, hinner, hi, hs, Builder.flags_advance, if_true, if_false,
        Bool.false_eq_true]
    · simp only [kleeneStar, hstart, hexit, hinner, hi, hs, Builder.flags_advance, if_false,
        Bool.false_eq_true]
  | true =>
    rw [hs, if_pos rfl] at h
    have hnew : b.next + 1 < limit := by omega
    have hinner : relabel limit (b.advance 1) inner = _ := relabel_advance h
    by_cases hi : inner.Closed
    · simp only [kleeneStar, fresh_eq hnew, hinner, hi, hs, Builder.flags_advance, if_true]
    · simp only [kleeneStar, fresh_eq hnew, hinner, hi, hs, Builder.flags_advance, if_true,
        if_false]

/-! ### Sequences -/

theorem push_snd (below : List Fragment) (result : Option Fragment × Builder) :
    (push below result).2 = result.2 := by
  rcases result with ⟨_ | f, b⟩
  · rfl
  · rfl

theorem step_eq {token : Token} (h : (b.step stack token).2.next < limit) :
    step limit b stack token = b.step stack token := by
  match token, stack with
  | .symbol s, stack =>
    rw [step, literal_eq h, Builder.step]
  | .operator .star, inner :: below =>
    rw [Builder.step, push_snd] at h
    rw [step, kleeneStar_eq h, Builder.step]
  | .operator .concat, right :: left :: below =>
    rw [Builder.step, push_snd] at h
    rw [step, concatenation_eq h, Builder.step]
  | .operator .union, lower :: upper :: below =>
    rw [Builder.step, push_snd] at h
    rw [step, alternation_eq h, Builder.step]
  | .operator .star, [] => rfl
  | .operator .concat, [] => rfl
  | .operator .concat, [_] => rfl
  | .operator .union, [] => rfl
  | .operator .union, [_] => rfl
  | .operator .openParen, _ => rfl
  | .operator .closeParen, _ => rfl

theorem run_eq {tokens : List Token} (h : (b.run stack tokens).2.next < limit) :
    run limit b stack tokens = b.run stack tokens := by
  induction tokens generalizing b stack with
  | nil => rfl
  | cons token rest ih =>
    rw [Builder.run] at h ⊢
    rcases hstep : b.step stack token with ⟨fault | stack', b'⟩
    · rw [hstep] at h
      rw [run, step_eq (by rw [hstep]; exact h), hstep]
    · rw [hstep] at h
      have hnext : b'.next < limit := (b'.next_le_run stack' rest).trans_lt h
      rw [run, step_eq (by rw [hstep]; exact hnext), hstep]
      exact ih h

/-- Where the plain counter ends below the limit, a counter that would start over there makes no
    difference. -/
theorem build_eq {tokens : List Token} (h : (b.build tokens).2.next < limit) :
    build limit b tokens = b.build tokens := by
  rw [Builder.build_snd] at h
  rw [build, run_eq h]
  rfl

-- four values are too few for a union of two letters: its states share numbers
example : (build 4 (.new .none) [.symbol (.letter 'a'), .symbol (.letter 'b'),
    .operator .union]).1.toOption.map Fragment.ids = some [0, 1, 2, 3, 0, 1] := by decide

end Wrapping

/-- For `n` tokens, whether they are built or not, the counter goes on by at most `n * (n + 1)`, and
    what is built has different numbers between the counter before and the counter after. So where
    that many more numbers fit in 64 bits, a counter of 64 bits makes no difference. -/
theorem Builder.numbers_of_build (b : Builder) (tokens : List Token) :
    let n := tokens.length
    let next := (b.build tokens).2.next
    b.next ≤ next ∧ next ≤ b.next + n * (n + 1) ∧
    (∀ f, (b.build tokens).1 = .ok f →
      f.ids.Nodup ∧ ∀ i ∈ f.mentioned, b.next ≤ i ∧ i < next) ∧
    (b.next + n * (n + 1) < 2 ^ 64 → Wrapping.build (2 ^ 64) b tokens = b.build tokens) := by
  refine ⟨b.next_le_build tokens, b.next_build_le tokens, fun f hf => ?_, fun hlimit => ?_⟩
  · have hwithin := within_of_build hf
    refine ⟨hwithin.numbered.nodup, fun i hi => ?_⟩
    exact hwithin.numbered.bounds i (hwithin.toClosed.mem_ids_of_mem_mentioned hi)
  · exact Wrapping.build_eq ((b.next_build_le tokens).trans_lt hlimit)

/-- A star over a union, moved once more by a concatenation; and the same with an operator that
    finds no operand, which takes its numbers before it fails. -/
theorem Builder.numbers_of_build_nested :
    let b : Builder := ⟨.none, 1000⟩
    let tokens : List Token := [.symbol (.letter 'a'), .symbol (.letter 'b'), .symbol .epsilon,
      .operator .union, .operator .star, .operator .concat]
    let broken : List Token := tokens ++ [.operator .union]
    (∃ f, (b.build tokens).1 = .ok f ∧ f.ids.Nodup ∧
      (∀ i ∈ f.mentioned, 1000 ≤ i ∧ i < (b.build tokens).2.next) ∧
      Wrapping.build (2 ^ 64) b tokens = b.build tokens) ∧
    (b.build broken).1 = .error (.pattern (.missingOperand .union)) ∧
    (b.build broken).2.next ≤ 1056 ∧
    Wrapping.build (2 ^ 64) b broken = b.build broken := by
  intro b tokens broken
  obtain ⟨f, n, hbuild, -⟩ : ∃ f n, b.build tokens = (.ok f, b.advance n) ∧ _ :=
    b.build_of_checkArity_ok rfl
  obtain ⟨m, hbroken⟩ : ∃ m, b.build broken =
      (.error (.pattern (.missingOperand .union)), b.advance m) := b.build_of_checkArity_error rfl
  obtain ⟨-, -, hnumbers, hlimit⟩ := b.numbers_of_build tokens
  obtain ⟨-, hle, -, hlimit'⟩ := b.numbers_of_build broken
  obtain ⟨hnodup, hbounds⟩ := hnumbers f (congrArg Prod.fst hbuild)
  exact ⟨⟨f, congrArg Prod.fst hbuild, hnodup, hbounds, hlimit (by decide)⟩,
    congrArg Prod.fst hbroken, hle, hlimit' (by decide)⟩

end EpsilonNfa
