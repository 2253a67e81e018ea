import EpsilonNfa.Fragment.Builder

/-!
Where the construction reads its conventions. Of the two flags it looks at one, the shared star, and
at that in one place, when a star is built. So two builders with the same counter go side by side
through any sequence on which they agree about stars, or which has none: they put the same fragments
on the stack, take the same numbers and meet the same fault.

    b               ──token──▶  stack, b'
    b.under flags   ──token──▶  stack, b'.under flags
-/

namespace EpsilonNfa.Builder

/-- The builder with the same counter under other conventions. -/
def under (flags : Flags) (b : Builder) : Builder :=
  { b with flags }

/-- What an operation gives, with its builder under other conventions. -/
def resultUnder {α : Type} (flags : Flags) (result : α × Builder) : α × Builder :=
  (result.1, result.2.under flags)

variable {flags : Flags} {b : Builder} {stack : List Fragment}

/-! ### Combinators -/

theorem relabel_under (f : Fragment) :
    (b.under flags).relabel f = resultUnder flags (b.relabel f) := rfl

theorem literal_under (s : Symbol) :
    (b.under flags).literal s = resultUnder flags (b.literal s) := by
  cases s <;> rfl

theorem concatenation_under (left right : Fragment) :
    (b.under flags).concatenation left right = resultUnder flags (b.concatenation left right) := by
  rw [concatenation, concatenation, relabel_under]
  rcases b.relabel right with ⟨_ | right', b'⟩
  · rfl
  · rfl

theorem alternation_under (upper lower : Fragment) :
    (b.under flags).alternation upper lower = resultUnder flags (b.alternation upper lower) := by
  have hfresh : (b.under flags).fresh.2.fresh.2 = b.fresh.2.fresh.2.under flags := rfl
  simp only [alternation, hfresh, relabel_under]
  rcases b.fresh.2.fresh.2.relabel upper with ⟨_ | upper', b'⟩
  · rfl
  · simp only [resultUnder, relabel_under]
    rcases b'.relabel lower with ⟨_ | lower', b''⟩
    · rfl
    · rfl

/-- A star is built alike where both conventions share its state or neither does. -/
theorem kleeneStar_under (h : flags.sharedStar = b.flags.sharedStar) (inner : Fragment) :
    (b.under flags).kleeneStar inner = resultUnder flags (b.kleeneStar inner) := by
  have hflags : (b.under flags).fresh.2.flags.sharedStar = b.fresh.2.flags.sharedStar := h
  have hfresh : (b.under flags).fresh.2 = b.fresh.2.under flags := rfl
  have hfresh' : (b.under flags).fresh.2.fresh.2 = b.fresh.2.fresh.2.under flags := rfl
  simp only [kleeneStar, hflags]
  split
  · rw [hfresh, relabel_under]
    rcases b.fresh.2.relabel inner with ⟨_ | inner', b'⟩
    · rfl
    · rfl
  · rw [hfresh', relabel_under]
    rcases b.fresh.2.fresh.2.relabel inner with ⟨_ | inner', b'⟩
    · rfl
    · rfl

/-! ### One token -/

theorem push_under (below : List Fragment) (result : Option Fragment × Builder) :
    push below (resultUnder flags result) = resultUnder flags (push below result) := by
  rcases result with ⟨_ | f, b'⟩
  · rfl
  · rfl

/-- A token is done alike under conventions that agree about stars, or when it is no star. -/
theorem step_under {token : Token}
    (h : token = .operator .star → flags.sharedStar = b.flags.sharedStar) :
    (b.under flags).step stack token = resultUnder flags (b.step stack token) := by
  match token, stack with
  | .symbol s, stack => simp only [step, literal_under, resultUnder]
  | .operator .star, [] => rfl
  | .operator .star, inner :: below => simp only [step, kleeneStar_under (h rfl), push_under]
  | .operator .concat, [] => rfl
  | .operator .concat, [_] => rfl
  | .operator .concat, right :: left :: below => simp only [step, concatenation_under, push_under]
  | .operator .union, [] => rfl
  | .operator .union, [_] => rfl
  | .operator .union, lower :: upper :: below => simp only [step, alternation_under, push_under]
  | .operator .openParen, _ => rfl
  | .operator .closeParen, _ => rfl

/-- No token changes the conventions. -/
theorem flags_step (b : Builder) (stack : List Fragment) (token : Token) :
    (b.step stack token).2.flags = b.flags := by
  -- the builder is itself under its own conventions
  have h : b.step stack token = resultUnder b.flags (b.step stack token) :=
    step_under (b := b) fun _ => rfl
  rw [h]
  rfl

/-! ### A sequence of tokens -/

theorem run_under {tokens : List Token}
    (h : .operator .star ∈ tokens → flags.sharedStar = b.flags.sharedStar) :
    (b.under flags).run stack tokens = resultUnder flags (b.run stack tokens) := by
  induction tokens generalizing b stack with
  | nil => rfl
  | cons token rest ih =>
    rw [run, run, step_under fun heq => h (heq ▸ List.mem_cons_self)]
    have hflags := b.flags_step stack token
    rcases hstep : b.step stack token with ⟨fault | stack', b'⟩
    · rfl
    · rw [hstep] at hflags
      exact ih fun hmem => by rw [h (List.mem_cons_of_mem token hmem), ← hflags]

/-- A sequence is built alike under conventions that agree about stars, or when it has none. -/
theorem build_under (b : Builder) {tokens : List Token}
    (h : .operator .star ∈ tokens → flags.sharedStar = b.flags.sharedStar) :
    (b.under flags).build tokens = resultUnder flags (b.build tokens) := by
  rw [build, build, run_under h]
  rcases b.run [] tokens with ⟨fault | _ | ⟨f, _ | ⟨g, rest⟩⟩, b'⟩
  · rfl
  · rfl
  · rfl
  · rfl

end EpsilonNfa.Builder
