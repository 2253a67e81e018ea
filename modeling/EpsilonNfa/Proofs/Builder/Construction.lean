import EpsilonNfa.Proofs.Builder.Combinators
import EpsilonNfa.Proofs.Fragment.Assembly

/-!
The construction with the move of its operands left open. `buildWith relabel` is the construction as
it is, and `buildWith stay` is the one in which operands keep their numbers. Whatever the move, as
long as it renames an operand one to one and takes no number but those of the operand and fresh
ones, the construction succeeds on the sequence of an expression and gives an assembly of it.

The fragments on the stack lie on separate stretches of numbers, in the order in which they were
made, and a moved operand has what was its own and what is fresh:

    left     right           │ next        what `right` may have after its move
    ───────  ──────────────  │ ────────▶   ──────────────  and  ────────▶
-/

namespace EpsilonNfa

/-- A way to bring an operand to the numbers that it is to have. -/
abbrev Mover := Builder → Fragment → Option Fragment × Builder

namespace Builder

/-- The operand keeps its numbers. -/
def stay : Mover := fun b f => (some f, b)

section

variable (move : Mover)

/-- `left`, then `right`. -/
def concatenationWith (b : Builder) (left right : Fragment) : Option Fragment × Builder :=
  match move b right with
  | (none, b) => (none, b)
  | (some right, b) => (some (left.concatenate right), b)

/-- `upper` or `lower`. -/
def alternationWith (b : Builder) (upper lower : Fragment) : Option Fragment × Builder :=
  let (start, b) := b.fresh
  let (exit, b) := b.fresh
  match move b upper with
  | (none, b) => (none, b)
  | (some upper, b) =>
    match move b lower with
    | (none, b) => (none, b)
    | (some lower, b) => (some (.alternate start exit upper lower), b)

/-- `inner`, any number of times. -/
def kleeneStarWith (b : Builder) (inner : Fragment) : Option Fragment × Builder :=
  let (start, b) := b.fresh
  if b.flags.sharedStar then
    match move b inner with
    | (none, b) => (none, b)
    | (some inner, b) => (some (.iterateShared start inner), b)
  else
    let (exit, b) := b.fresh
    match move b inner with
    | (none, b) => (none, b)
    | (some inner, b) => (some (.iterate start exit inner), b)

/-- One token of the sequence; what takes no operand is done as ever. -/
def stepWith (b : Builder) (stack : List Fragment) (token : Token) :
    Except BuildFault (List Fragment) × Builder :=
  match token, stack with
  | .operator .star, inner :: below => push below (b.kleeneStarWith move inner)
  | .operator .concat, right :: left :: below => push below (b.concatenationWith move left right)
  | .operator .union, lower :: upper :: below => push below (b.alternationWith move upper lower)
  | token, stack => b.step stack token

/-- The tokens of a sequence one by one, up to the first fault. -/
def runWith (b : Builder) (stack : List Fragment) :
    List Token → Except BuildFault (List Fragment) × Builder
  | [] => (.ok stack, b)
  | token :: rest =>
    match b.stepWith move stack token with
    | (.ok stack, b) => runWith b stack rest
    | (.error fault, b) => (.error fault, b)

/-- The fragment of an operator-last sequence. -/
def buildWith (b : Builder) (tokens : List Token) : Except BuildFault Fragment × Builder :=
  match b.runWith move [] tokens with
  | (.ok [f], b) => (.ok f, b)
  | (.ok stack, b) => (.error (.pattern (.fragmentCount stack.length)), b)
  | (.error fault, b) => (.error fault, b)

end

/-! ### The construction as it is -/

theorem stepWith_relabel (b : Builder) (stack : List Fragment) (token : Token) :
    b.stepWith relabel stack token = b.step stack token := by
  unfold stepWith
  split <;> rfl

theorem runWith_relabel (b : Builder) (stack : List Fragment) (tokens : List Token) :
    b.runWith relabel stack tokens = b.run stack tokens := by
  induction tokens generalizing b stack with
  | nil => rfl
  | cons token rest ih =>
    rw [runWith, run, stepWith_relabel]
    rcases b.step stack token with ⟨fault | stack', b'⟩
    · rfl
    · exact ih b' stack'

/-- Moving operands to fresh numbers is the construction as it is. -/
theorem buildWith_relabel (b : Builder) (tokens : List Token) :
    b.buildWith relabel tokens = b.build tokens := by
  rw [buildWith, runWith_relabel]
  rfl

end Builder

/-! ### Moves -/

/-- A move renames an operand one to one, and takes numbers of the operand and fresh ones alone. -/
def Mover.Sound (move : Mover) : Prop :=
  ∀ (b : Builder) (f : Fragment), f.WellFormed b.next → ∃ σ n,
    move b f = (some (f.map σ), b.advance n) ∧
    (∀ p ∈ f.ids, ∀ q ∈ f.ids, σ p = σ q → p = q) ∧
    ∀ i ∈ f.ids, σ i ∈ f.ids ∨ b.next ≤ σ i ∧ σ i < b.next + n

namespace Builder

theorem sound_relabel : Mover.Sound relabel := by
  intro b f hf
  refine ⟨freshId b.next f.ids, f.states.length, b.relabel_eq hf.toClosed, freshId_injective, ?_⟩
  intro i hi
  refine .inr (Fragment.bounds_of_mem_moved (f := f) ?_)
  rw [Fragment.moved, Fragment.ids_map]
  exact List.mem_map_of_mem hi

theorem sound_stay : Mover.Sound stay := by
  intro b f _
  have hmove : Transition.map id = id := rfl
  have hid : f.map id = f := by
    simp [Fragment.map, hmove]
  exact ⟨id, 0, by rw [hid]; rfl, fun _ _ _ _ h => h, fun i hi => .inl hi⟩

variable {move : Mover} {shared : Bool} {e : Expression} {f : Fragment} {low mid : Nat}

/-- A moved operand is an assembly of its expression, on numbers of its own or fresh ones. -/
theorem exists_moved (hmove : move.Sound) {b : Builder} (hf : Assembled shared e f)
    (hbounds : ∀ i ∈ f.ids, low ≤ i ∧ i < mid) (hmid : mid ≤ b.next) : ∃ f' n,
    move b f = (some f', b.advance n) ∧ Assembled shared e f' ∧
      ∀ i ∈ f'.ids, low ≤ i ∧ (i < mid ∨ b.next ≤ i) ∧ i < b.next + n := by
  have hwf : f.WellFormed b.next := ⟨hf.closed, hf.nodup, fun i hi => by
    have := hbounds i hi
    omega⟩
  obtain ⟨σ, n, hmoved, hinjective, hσ⟩ := hmove b f hwf
  refine ⟨f.map σ, n, hmoved, hf.map hinjective, fun i hi => ?_⟩
  have hstart := hbounds f.start hf.closed.start_mem
  rw [Fragment.ids_map] at hi
  obtain ⟨p, hp, rfl⟩ := List.mem_map.1 hi
  rcases hσ p hp with hown | hfresh
  · have := hbounds _ hown
    omega
  · omega

/-! ### Combinators on moved operands -/

variable {b b₁ b₂ : Builder} {left right right' upper upper' lower lower' inner inner' : Fragment}

theorem concatenationWith_eq (left : Fragment) (h : move b right = (some right', b₁)) :
    b.concatenationWith move left right = (some (left.concatenate right'), b₁) := by
  rw [concatenationWith, h]

theorem alternationWith_eq (hu : move (b.advance 2) upper = (some upper', b₁))
    (hl : move b₁ lower = (some lower', b₂)) : b.alternationWith move upper lower =
      (some (.alternate b.next (b.next + 1) upper' lower'), b₂) := by
  simp only [alternationWith, fresh_eq, advance_advance, next_advance, hu, hl]

theorem kleeneStarWith_eq (hs : b.flags.sharedStar = false)
    (h : move (b.advance 2) inner = (some inner', b₁)) :
    b.kleeneStarWith move inner = (some (.iterate b.next (b.next + 1) inner'), b₁) := by
  simp [kleeneStarWith, fresh_eq, advance_advance, hs, h]

theorem kleeneStarWith_eq_of_shared (hs : b.flags.sharedStar = true)
    (h : move (b.advance 1) inner = (some inner', b₁)) :
    b.kleeneStarWith move inner = (some (.iterateShared b.next inner'), b₁) := by
  simp [kleeneStarWith, fresh_eq, hs, h]

theorem runWith_cons {stack stack' : List Fragment} {token : Token}
    (h : b.stepWith move stack token = (.ok stack', b₁)) (rest : List Token) :
    b.runWith move stack (token :: rest) = b₁.runWith move stack' rest := by
  rw [runWith, h]

theorem stepWith_star (h : b.kleeneStarWith move inner = (some f, b₁)) (below : List Fragment) :
    b.stepWith move (inner :: below) (.operator .star) = (.ok (f :: below), b₁) := by
  rw [stepWith, h, push]

theorem stepWith_concat (h : b.concatenationWith move left right = (some f, b₁))
    (below : List Fragment) :
    b.stepWith move (right :: left :: below) (.operator .concat) = (.ok (f :: below), b₁) := by
  rw [stepWith, h, push]

theorem stepWith_union (h : b.alternationWith move upper lower = (some f, b₁))
    (below : List Fragment) :
    b.stepWith move (lower :: upper :: below) (.operator .union) = (.ok (f :: below), b₁) := by
  rw [stepWith, h, push]

/-! ### The run through an expression -/

/-- From the builder `b` the sequence of `e` puts the assembly `f` on any stack and takes the next
    `n` numbers, some of which are those of `f`. -/
structure Yields (move : Mover) (b : Builder) (e : Expression) (f : Fragment) (n : Nat) : Prop where
  run_eq : ∀ stack rest, b.runWith move stack (e.postorder ++ rest) =
    (b.advance n).runWith move (f :: stack) rest
  assembled : Assembled b.flags.sharedStar e f
  bounds : ∀ i ∈ f.ids, b.next ≤ i ∧ i < b.next + n

namespace Yields

variable {e e' : Expression} {m n : Nat}

theorem symbol (move : Mover) (b : Builder) (s : Symbol) : ∃ f n, Yields move b (.symbol s) f n := by
  cases s with
  | epsilon =>
    refine ⟨.point b.next, 1, fun _ _ => rfl, .point b.next, ?_⟩
    simp
  | letter c =>
    refine ⟨.arrow b.next (b.next + 1) (.letter c), 2, fun _ _ => rfl, .arrow c ?_, ?_⟩
    · simp
    · simp

theorem concat (hmove : move.Sound) (hl : Yields move b e left m)
    (hr : Yields move (b.advance m) e' right n) : ∃ f k, Yields move b (e.concat e') f k := by
  obtain ⟨right', k, hmoved, hr', hbounds⟩ :=
    exists_moved (b := (b.advance m).advance n) hmove hr.assembled hr.bounds (by simp)
  simp only [next_advance] at hbounds
  refine ⟨left.concatenate right', m + n + k, fun stack rest => ?_,
    .concatenate hl.assembled hr' ?_, fun i hi => ?_⟩
  · have hstep := stepWith_concat (concatenationWith_eq left hmoved) stack
    rw [Expression.postorder, List.append_assoc, List.append_assoc, hl.run_eq, hr.run_eq,
      List.singleton_append, runWith_cons hstep, advance_advance, advance_advance,
      ← Nat.add_assoc]
  · rw [Fragment.ids_concatenate, List.nodup_append']
    refine ⟨hl.assembled.nodup, hr'.nodup, fun i hi hi' => ?_⟩
    have := hl.bounds i hi
    have := hbounds i hi'
    omega
  · rw [Fragment.ids_concatenate, List.mem_append] at hi
    rcases hi with hi | hi
    · have := hl.bounds i hi
      omega
    · have := hbounds i hi
      omega

theorem union (hmove : move.Sound) (hu : Yields move b e upper m)
    (hl : Yields move (b.advance m) e' lower n) : ∃ f k, Yields move b (e.union e') f k := by
  obtain ⟨upper', j, hmovedu, hu', hboundsu⟩ :=
    exists_moved (b := ((b.advance m).advance n).advance 2) hmove hu.assembled hu.bounds
      (by simp; omega)
  obtain ⟨lower', k, hmovedl, hl', hboundsl⟩ :=
    exists_moved (b := (((b.advance m).advance n).advance 2).advance j) hmove hl.assembled
      hl.bounds (by simp; omega)
  simp only [next_advance] at hboundsu hboundsl
  -- the new states lie between what the operands had and what they have got
  have hnew (i : Nat) (hi : i = b.next + m + n ∨ i = b.next + m + n + 1) :
      i ∉ upper'.ids ∧ i ∉ lower'.ids := by
    refine ⟨fun hmem => ?_, fun hmem => ?_⟩
    · have := hboundsu i hmem
      omega
    · have := hboundsl i hmem
      omega
  refine ⟨.alternate (b.next + m + n) (b.next + m + n + 1) upper' lower', m + n + 2 + j + k,
    fun stack rest => ?_, .alternate hu' hl' ?_, fun i hi => ?_⟩
  · have hstep := stepWith_union (alternationWith_eq hmovedu hmovedl) stack
    rw [Expression.postorder, List.append_assoc, List.append_assoc, hu.run_eq, hl.run_eq,
      List.singleton_append, runWith_cons hstep]
    simp only [next_advance, advance_advance, ← Nat.add_assoc]
  · simp only [Fragment.ids_alternate, List.nodup_cons, List.mem_cons, List.mem_append, not_or,
      List.nodup_append']
    refine ⟨⟨by omega, hnew _ (.inl rfl)⟩, hnew _ (.inr rfl), hu'.nodup, hl'.nodup,
      fun i hi hi' => ?_⟩
    have := hboundsu i hi
    have := hboundsl i hi'
    omega
  · simp only [Fragment.ids_alternate, List.mem_cons, List.mem_append] at hi
    rcases hi with rfl | rfl | hi | hi
    · omega
    · omega
    · have := hboundsu i hi
      omega
    · have := hboundsl i hi
      omega

theorem star (hmove : move.Sound) (hs : b.flags.sharedStar = false)
    (hi : Yields move b e inner n) : ∃ f k, Yields move b e.star f k := by
  obtain ⟨inner', k, hmoved, hi', hbounds⟩ :=
    exists_moved (b := (b.advance n).advance 2) hmove hi.assembled hi.bounds (by simp)
  simp only [next_advance] at hbounds
  refine ⟨.iterate (b.next + n) (b.next + n + 1) inner', n + 2 + k, fun stack rest => ?_,
    .iterate hs hi' ?_, fun i hi => ?_⟩
  · have hstep := stepWith_star (kleeneStarWith_eq (b := b.advance n) hs hmoved) stack
    rw [Expression.postorder, List.append_assoc, hi.run_eq, List.singleton_append,
      runWith_cons hstep, advance_advance, advance_advance, next_advance, ← Nat.add_assoc]
  · simp only [Fragment.ids_iterate, List.nodup_cons, List.mem_cons, not_or]
    refine ⟨⟨by omega, fun hmem => ?_⟩, fun hmem => ?_, hi'.nodup⟩
    · have := hbounds _ hmem
      omega
    · have := hbounds _ hmem
      omega
  · simp only [Fragment.ids_iterate, List.mem_cons] at hi
    rcases hi with rfl | rfl | hi
    · omega
    · omega
    · have := hbounds i hi
      omega

theorem starShared (hmove : move.Sound) (hs : b.flags.sharedStar = true)
    (hi : Yields move b e inner n) : ∃ f k, Yields move b e.star f k := by
  obtain ⟨inner', k, hmoved, hi', hbounds⟩ :=
    exists_moved (b := (b.advance n).advance 1) hmove hi.assembled hi.bounds (by simp)
  simp only [next_advance] at hbounds
  refine ⟨.iterateShared (b.next + n) inner', n + 1 + k, fun stack rest => ?_,
    .iterateShared hs hi' ?_, fun i hi => ?_⟩
  · have hstep := stepWith_star (kleeneStarWith_eq_of_shared (b := b.advance n) hs hmoved) stack
    rw [Expression.postorder, List.append_assoc, hi.run_eq, List.singleton_append,
      runWith_cons hstep, advance_advance, advance_advance, next_advance, ← Nat.add_assoc]
  · rw [Fragment.ids_iterateShared, List.nodup_cons]
    refine ⟨fun hmem => ?_, hi'.nodup⟩
    have := hbounds _ hmem
    omega
  · rw [Fragment.ids_iterateShared, List.mem_cons] at hi
    rcases hi with rfl | hi
    · omega
    · have := hbounds i hi
      omega

end Yields

theorem exists_yields (hmove : move.Sound) (e : Expression) (b : Builder) :
    ∃ f n, Yields move b e f n := by
  induction e generalizing b with
  | symbol s => exact Yields.symbol move b s
  | star e ih =>
    obtain ⟨inner, n, hi⟩ := ih b
    cases hs : b.flags.sharedStar with
    | false => exact hi.star hmove hs
    | true => exact hi.starShared hmove hs
  | concat e e' ihl ihr =>
    obtain ⟨left, m, hl⟩ := ihl b
    obtain ⟨right, n, hr⟩ := ihr (b.advance m)
    exact hl.concat hmove hr
  | union e e' ihu ihl =>
    obtain ⟨upper, m, hu⟩ := ihu b
    obtain ⟨lower, n, hl⟩ := ihl (b.advance m)
    exact hu.union hmove hl

/-- The construction from the sequence of an expression gives an assembly of it. -/
theorem exists_assembled_buildWith (hmove : move.Sound) (e : Expression) (b : Builder) : ∃ f,
    (b.buildWith move e.postorder).1 = .ok f ∧ Assembled b.flags.sharedStar e f := by
  obtain ⟨f, n, h⟩ := exists_yields hmove e b
  have hrun := h.run_eq [] []
  rw [List.append_nil] at hrun
  refine ⟨f, ?_, h.assembled⟩
  rw [buildWith, hrun]
  rfl

/-- The construction as it is gives an assembly, from every sequence that passes the arity check. -/
theorem exists_assembled_build (b : Builder) {tokens : List Token}
    (h : checkArity tokens = .ok ()) : ∃ e f, e.postorder = tokens ∧
      (b.build tokens).1 = .ok f ∧ Assembled b.flags.sharedStar e f := by
  obtain ⟨e, rfl⟩ := checkArity_eq_ok_iff.1 h
  obtain ⟨f, hbuild, hf⟩ := exists_assembled_buildWith sound_relabel e b
  rw [buildWith_relabel] at hbuild
  exact ⟨e, f, rfl, hbuild, hf⟩

end Builder

end EpsilonNfa
