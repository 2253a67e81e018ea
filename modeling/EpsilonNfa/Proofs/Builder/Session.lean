import EpsilonNfa.Proofs.Builder.Stack

/-!
Sessions: any calls on one builder, in any order. An operand of a call is any fragment made before
in the session, as often as one likes, so a fragment can be combined with itself or with its own
results. The invariant is that whatever was made lies below the counter and every fragment is
well-formed; a call keeps it because the numbers it hands out start at the counter.
-/

namespace EpsilonNfa

/-- What a call makes. -/
inductive Product where
  | state (s : State)
  | fragment (f : Fragment)

/-- The numbers of a product's states. -/
def Product.ids : Product → List Nat
  | state s => [s.id]
  | fragment f => f.ids

/-- A fragment that has been made before. -/
abbrev Operand (made : List Product) :=
  { f : Fragment // Product.fragment f ∈ made }

/-- A call on a builder, after the products `made`. -/
inductive Call (made : List Product) where
  | genState
  | empty
  | literal (s : Symbol)
  | concatenation (left right : Operand made)
  | alternation (upper lower : Operand made)
  | kleeneStar (inner : Operand made)
  | build (tokens : List Token)

variable {made : List Product}

/-- The states that the result of a call has in common with an operand: a concatenation keeps its
    left operand in place, and every other result is all new. -/
def Call.kept : Call made → List Nat
  | concatenation left _ => left.val.ids
  | _ => []

/-- The answer of a combinator. -/
def Builder.combined : Option Fragment × Builder → Except BuildFault Product × Builder
  | (some f, b) => (.ok (.fragment f), b)
  | (none, b) => (.error .dangling, b)

/-- The answer of a call, and the builder after it. -/
def Builder.answer (b : Builder) : Call made → Except BuildFault Product × Builder
  | .genState => (.ok (.state (.unnamed b.fresh.1)), b.fresh.2)
  | .empty => (.ok (.fragment b.empty.1), b.empty.2)
  | .literal s => (.ok (.fragment (b.literal s).1), (b.literal s).2)
  | .concatenation left right => combined (b.concatenation left.val right.val)
  | .alternation upper lower => combined (b.alternation upper.val lower.val)
  | .kleeneStar inner => combined (b.kleeneStar inner.val)
  | .build tokens => ((b.build tokens).1.map .fragment, (b.build tokens).2)

/-- A builder and what has been made on it, the latest first. -/
structure Session where
  builder : Builder
  made : List Product

namespace Session

/-- The session before the first call. -/
def new (flags : Flags) : Session := ⟨.new flags, []⟩

/-- The session after one more call; a call that fails makes nothing. -/
def after (s : Session) (c : Call s.made) : Session :=
  match s.builder.answer c with
  | (.ok product, b) => ⟨b, product :: s.made⟩
  | (.error _, b) => ⟨b, s.made⟩

/-- The sessions that calls lead to. -/
inductive Reachable (flags : Flags) : Session → Prop where
  | new : Reachable flags (new flags)
  | after {s : Session} : Reachable flags s → (c : Call s.made) → Reachable flags (s.after c)

end Session

/-! ### One call -/

/-- A product below the counter `next`; a fragment is well-formed, too. -/
def Product.Sound (next : Nat) : Product → Prop
  | state s => s.id < next
  | fragment f => f.WellFormed next

variable {b : Builder} {next next' : Nat}

theorem Product.Sound.lt {p : Product} (h : p.Sound next) : ∀ i ∈ p.ids, i < next := by
  cases p with
  | state s =>
    intro i hi
    obtain rfl := List.mem_singleton.1 hi
    exact h
  | fragment f => exact h.lt_next

theorem Product.Sound.mono {p : Product} (h : p.Sound next) (hle : next ≤ next') :
    p.Sound next' := by
  cases p with
  | state s => exact Nat.lt_of_lt_of_le h hle
  | fragment f => exact (h.within.mono le_rfl hle).wellFormed

/-- A call makes `p` and hands out the numbers from `b.next` up to `b.next + n`. -/
structure Builder.Makes (b : Builder) (c : Call made) (p : Product) (n : Nat) : Prop where
  answer_eq : b.answer c = (.ok p, b.advance n)
  sound : p.Sound (b.next + n)
  ids_eq : ∃ new, p.ids = c.kept ++ new ∧ ∀ i ∈ new, b.next ≤ i

theorem Operand.wellFormed (hs : ∀ p ∈ made, p.Sound next) (f : Operand made) :
    f.val.WellFormed next :=
  hs _ f.property

/-- A call whose operands are well-formed makes a product, or its sequence is not an expression. -/
theorem Builder.answer_spec (hs : ∀ p ∈ made, p.Sound b.next) (c : Call made) :
    (∃ p n, b.Makes c p n) ∨ ∃ fault n, b.answer c = (.error (.pattern fault), b.advance n) := by
  have hfresh {f : Fragment} {n : Nat} (hf : f.Within b.next (b.next + n)) :
      ∃ new, f.ids = [] ++ new ∧ ∀ i ∈ new, b.next ≤ i :=
    ⟨f.ids, rfl, fun i hi => (hf.numbered.bounds i hi).1⟩
  cases c with
  | genState =>
    refine .inl ⟨_, 1, rfl, ?_, [b.next], rfl, by simp⟩
    exact Nat.lt_succ_self b.next
  | empty =>
    obtain ⟨f, n, hf, hwithin, -⟩ := b.empty_spec
    exact .inl ⟨.fragment f, n, by rw [answer, hf], hwithin.wellFormed, hfresh hwithin⟩
  | literal s =>
    obtain ⟨f, n, hf, hwithin, -⟩ := b.literal_spec s
    exact .inl ⟨.fragment f, n, by rw [answer, hf], hwithin.wellFormed, hfresh hwithin⟩
  | concatenation left right =>
    obtain ⟨f, n, hf, hwithin, hids, -⟩ :=
      b.concatenation_spec (left.wellFormed hs).within (right.wellFormed hs)
    exact .inl ⟨.fragment f, n, by rw [answer, hf, combined], hwithin.wellFormed, hids⟩
  | alternation upper lower =>
    obtain ⟨f, n, hf, hwithin, -⟩ := b.alternation_spec (upper.wellFormed hs) (lower.wellFormed hs)
    exact .inl ⟨.fragment f, n, by rw [answer, hf, combined], hwithin.wellFormed, hfresh hwithin⟩
  | kleeneStar inner =>
    obtain ⟨f, n, hf, hwithin, -⟩ := b.kleeneStar_spec (inner.wellFormed hs)
    exact .inl ⟨.fragment f, n, by rw [answer, hf, combined], hwithin.wellFormed, hfresh hwithin⟩
  | build tokens =>
    cases h : checkArity tokens with
    | ok =>
      obtain ⟨f, n, hf, hwithin⟩ := b.build_of_checkArity_ok h
      exact .inl ⟨.fragment f, n, by rw [answer, hf]; rfl, hwithin.wellFormed, hfresh hwithin⟩
    | error fault =>
      obtain ⟨n, hf⟩ := b.build_of_checkArity_error h
      exact .inr ⟨fault, n, by rw [answer, hf]; rfl⟩

/-- A call never takes numbers back. -/
theorem Builder.next_le_answer (hs : ∀ p ∈ made, p.Sound b.next) (c : Call made) :
    b.next ≤ (b.answer c).2.next := by
  rcases Builder.answer_spec hs c with ⟨product, n, hmakes⟩ | ⟨fault, n, hfails⟩
  · rw [hmakes.answer_eq]
    exact Nat.le_add_right ..
  · rw [hfails]
    exact Nat.le_add_right ..

/-! ### Every session -/

namespace Session

variable {s : Session} {flags : Flags}

/-- A call keeps everything that was made sound, and what it makes is sound, too. -/
theorem sound_after (hs : ∀ p ∈ s.made, p.Sound s.builder.next) (c : Call s.made) :
    ∀ p ∈ (s.after c).made, p.Sound (s.after c).builder.next := by
  rcases Builder.answer_spec hs c with ⟨product, n, hmakes⟩ | ⟨fault, n, h⟩
  · simp only [after, hmakes.answer_eq]
    intro p hp
    rcases List.mem_cons.1 hp with rfl | hp
    · exact hmakes.sound
    · exact (hs p hp).mono (Nat.le_add_right ..)
  · simp only [after, h]
    exact fun p hp => (hs p hp).mono (Nat.le_add_right ..)

theorem Reachable.sound (h : s.Reachable flags) : ∀ p ∈ s.made, p.Sound s.builder.next := by
  induction h with
  | new => exact fun _ hp => absurd hp List.not_mem_nil
  | after _ c ih => exact sound_after ih c

/-- The builder after a call is that of the session. -/
theorem builder_after (s : Session) (c : Call s.made) :
    (s.after c).builder = (s.builder.answer c).2 := by
  rw [after]
  split <;> next h => rw [h]

/-- A call on sound products finds every state that it looks up, and what it makes has, apart from
    the states that it keeps, only states that nothing made before it has. -/
theorem answer_of_sound (hs : ∀ p ∈ s.made, p.Sound s.builder.next) (c : Call s.made) :
    (s.builder.answer c).1 ≠ .error .dangling ∧
      ∀ p, (s.builder.answer c).1 = .ok p →
        ∃ new, p.ids = c.kept ++ new ∧ ∀ i ∈ new, ∀ earlier ∈ s.made, i ∉ earlier.ids := by
  rcases Builder.answer_spec hs c with ⟨product, n, hmakes⟩ | ⟨fault, n, hfails⟩
  · rw [hmakes.answer_eq]
    refine ⟨nofun, ?_⟩
    rintro p ⟨⟩
    obtain ⟨new, hids, hnew⟩ := hmakes.ids_eq
    refine ⟨new, hids, fun i hi earlier he hmem => ?_⟩
    have h1 := hnew i hi
    have h2 := (hs earlier he).lt i hmem
    omega
  · rw [hfails]
    exact ⟨nofun, nofun⟩

/-- However a session went, every fragment made in it is well-formed; no call on it finds a state
    that is not listed; and what a call makes has, apart from the states that a concatenation takes
    over from its left operand, only states that nothing made before it has. -/
theorem wellFormed_of_reachable (h : s.Reachable flags) :
    (∀ f, .fragment f ∈ s.made → f.WellFormed s.builder.next) ∧
    ∀ c : Call s.made, (s.builder.answer c).1 ≠ .error .dangling ∧
      ∀ p, (s.builder.answer c).1 = .ok p →
        ∃ new, p.ids = c.kept ++ new ∧ ∀ i ∈ new, ∀ earlier ∈ s.made, i ∉ earlier.ids := by
  refine ⟨fun f hf => ?_, fun c => ?_⟩
  · exact h.sound _ hf
  · exact answer_of_sound h.sound c

/-- A letter concatenated with itself: the left copy stays in place and the right one moves. -/
theorem wellFormed_of_reachable_twice :
    let letter := Fragment.arrow 0 1 (.letter 'a')
    let s : Session := (new .none).after (.literal (.letter 'a'))
    let operand : Operand s.made := ⟨letter, List.mem_singleton.2 rfl⟩
    let t := s.after (.concatenation operand operand)
    t.Reachable .none ∧
      ((∀ f, .fragment f ∈ t.made → f.WellFormed t.builder.next) ∧
      ∀ c : Call t.made, (t.builder.answer c).1 ≠ .error .dangling ∧
        ∀ p, (t.builder.answer c).1 = .ok p →
          ∃ new, p.ids = c.kept ++ new ∧ ∀ i ∈ new, ∀ earlier ∈ t.made, i ∉ earlier.ids) := by
  intro letter s operand t
  have h : t.Reachable .none := .after (.after .new _) _
  exact ⟨h, wellFormed_of_reachable h⟩

end Session

end EpsilonNfa
