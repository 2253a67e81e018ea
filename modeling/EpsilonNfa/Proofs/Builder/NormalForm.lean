import EpsilonNfa.Proofs.Builder.Construction

/-!
The normal form of the construction, as long as a star has two states of its own: one exit, nothing
back to the start and nothing on from the exit, and few moves at every state.

    out of a state    one move that reads a letter, or at most two silent ones
    into a state      at most two moves

A link adds bridges to its operands. These lead from new states and from exits, which nothing has
left yet, to new states and to starts, which nothing has entered yet; so no state has moves of an
operand and of a bridge on the same side. A star in one state is different: it leads back to itself.
-/

namespace EpsilonNfa

/-! ### The moves at a state -/

/-- The transitions that have a state at one of their two sides. -/
def movesAt (side : Transition → Nat) (ts : List Transition) (i : Nat) : List Transition :=
  ts.filter (side · = i)

/-- The transitions that leave a state. -/
abbrev leaving (ts : List Transition) (i : Nat) : List Transition :=
  movesAt Transition.source ts i

/-- The transitions that enter a state. -/
abbrev entering (ts : List Transition) (i : Nat) : List Transition :=
  movesAt Transition.target ts i

/-- One transition that reads a letter, or at most two that read nothing. -/
def Branching (ts : List Transition) : Prop :=
  (∃ t c, ts = [t] ∧ t.symbol = .letter c) ∨ ts.length ≤ 2 ∧ ∀ t ∈ ts, t.symbol = .epsilon

/-- Few transitions at every state. -/
structure Sparse (ts : List Transition) : Prop where
  branching : ∀ i, Branching (leaving ts i)
  length_entering_le : ∀ i, (entering ts i).length ≤ 2

variable {side : Transition → Nat} {ts us : List Transition} {i : Nat}

theorem movesAt_append : movesAt side (ts ++ us) i = movesAt side ts i ++ movesAt side us i :=
  List.filter_append ts us

theorem movesAt_append_eq_nil_iff :
    movesAt side (ts ++ us) i = [] ↔ movesAt side ts i = [] ∧ movesAt side us i = [] := by
  rw [movesAt_append, List.append_eq_nil_iff]

theorem movesAt_eq_nil_iff : movesAt side ts i = [] ↔ ∀ t ∈ ts, side t ≠ i := by
  simp [movesAt]

theorem length_movesAt : (movesAt side ts i).length = (ts.map side).count i := by
  rw [movesAt, ← List.countP_eq_length_filter, List.count, List.countP_map]
  exact List.countP_congr fun t _ => by simp

/-- Where one list has no moves, the two together have those of the other. -/
theorem movesAt_append_eq_or (h : movesAt side ts i = [] ∨ movesAt side us i = []) :
    movesAt side (ts ++ us) i = movesAt side ts i ∨
      movesAt side (ts ++ us) i = movesAt side us i := by
  rw [movesAt_append]
  rcases h with h | h
  · exact .inr (by rw [h, List.nil_append])
  · exact .inl (by rw [h, List.append_nil])

theorem Branching.perm (h : Branching ts) (hperm : us.Perm ts) : Branching us := by
  rcases h with ⟨t, c, rfl, ht⟩ | ⟨hlength, hsilent⟩
  · exact .inl ⟨t, c, List.perm_singleton.1 hperm, ht⟩
  · refine .inr ⟨hperm.length_eq ▸ hlength, fun t ht => hsilent t (hperm.mem_iff.1 ht)⟩

theorem Sparse.perm (h : Sparse ts) (hperm : us.Perm ts) : Sparse us where
  branching i := (h.branching i).perm (hperm.filter _)
  length_entering_le i := (hperm.filter _).length_eq ▸ h.length_entering_le i

theorem Sparse.append (ht : Sparse ts) (hu : Sparse us)
    (hleaving : ∀ i, leaving ts i = [] ∨ leaving us i = [])
    (hentering : ∀ i, entering ts i = [] ∨ entering us i = []) : Sparse (ts ++ us) where
  branching i := by
    rcases movesAt_append_eq_or (hleaving i) with h | h
    · rw [leaving, h]
      exact ht.branching i
    · rw [leaving, h]
      exact hu.branching i
  length_entering_le i := by
    rcases movesAt_append_eq_or (hentering i) with h | h
    · rw [entering, h]
      exact ht.length_entering_le i
    · rw [entering, h]
      exact hu.length_entering_le i

/-- Silent transitions are sparse when no state is more than twice among their ends on one side. -/
theorem sparse_of_silent (hsilent : ∀ t ∈ ts, t.symbol = .epsilon)
    (hsource : ∀ i, (ts.map Transition.source).count i ≤ 2)
    (htarget : ∀ i, (ts.map Transition.target).count i ≤ 2) : Sparse ts where
  branching i := by
    refine .inr ⟨?_, fun t ht => hsilent t (List.mem_of_mem_filter ht)⟩
    rw [length_movesAt]
    exact hsource i
  length_entering_le i := by
    rw [length_movesAt]
    exact htarget i

/-- Bridges that fork from one state to two, and join two states in one. -/
theorem sparse_fork_join {start exit p q r s : Nat} (hp : p ≠ start) (hq : q ≠ start) (hpq : p ≠ q)
    (hr : r ≠ exit) (hs : s ≠ exit) (hrs : r ≠ s) :
    Sparse [.silent start r, .silent start s, .silent p exit, .silent q exit] := by
  refine sparse_of_silent (by simp [Transition.silent]) (fun i => ?_) fun i => ?_
  · simp only [Transition.silent, List.map_cons, List.map_nil, List.count_cons, beq_iff_eq]
    split_ifs <;> simp <;> omega
  · simp only [Transition.silent, List.map_cons, List.map_nil, List.count_cons, beq_iff_eq]
    split_ifs <;> simp <;> omega

/-- Bridges that lead from each of two states to each of two others. -/
theorem sparse_cross {start exit p r : Nat} (hp : p ≠ start) (hr : r ≠ exit) :
    Sparse [.silent start r, .silent start exit, .silent p r, .silent p exit] := by
  refine sparse_of_silent (by simp [Transition.silent]) (fun i => ?_) fun i => ?_
  · simp only [Transition.silent, List.map_cons, List.map_nil, List.count_cons, beq_iff_eq]
    split_ifs <;> simp
    omega
  · simp only [Transition.silent, List.map_cons, List.map_nil, List.count_cons, beq_iff_eq]
    split_ifs <;> simp
    omega

/-! ### Normal fragments -/

namespace Fragment

/-- The normal form, with the only exit `exit`. -/
structure Normal (f : Fragment) (exit : Nat) : Prop extends Sparse f.transitions where
  accept_eq : f.accept = [exit]
  entering_start : entering f.transitions f.start = []
  leaving_exit : leaving f.transitions exit = []

variable {f left right upper lower inner : Fragment} {start exit p q : Nat}

theorem Normal.mem_accept (h : f.Normal p) : p ∈ f.accept := by
  rw [h.accept_eq]
  exact List.mem_singleton_self p

theorem Closed.leaving_eq_nil (hf : f.Closed) (hi : i ∉ f.ids) : leaving f.transitions i = [] :=
  movesAt_eq_nil_iff.2 fun t ht => ne_of_mem_of_not_mem (hf.source_mem t ht) hi

theorem Closed.entering_eq_nil (hf : f.Closed) (hi : i ∉ f.ids) : entering f.transitions i = [] :=
  movesAt_eq_nil_iff.2 fun t ht => ne_of_mem_of_not_mem (hf.target_mem t ht) hi

/-! ### Two operands side by side

What they keep to themselves: nothing leaves an exit, and nothing enters a start. -/

section Pair

variable (hleft : left.Closed) (hright : right.Closed) (hd : left.ids.Disjoint right.ids)
include hleft hright hd

theorem sparse_append (hl : Sparse left.transitions) (hr : Sparse right.transitions) :
    Sparse (left.transitions ++ right.transitions) := by
  refine hl.append hr (fun i => ?_) fun i => ?_
  · by_cases hi : i ∈ left.ids
    · exact .inr (hright.leaving_eq_nil fun h => hd hi h)
    · exact .inl (hleft.leaving_eq_nil hi)
  · by_cases hi : i ∈ left.ids
    · exact .inr (hright.entering_eq_nil fun h => hd hi h)
    · exact .inl (hleft.entering_eq_nil hi)

theorem leaving_left (hl : left.Normal p) :
    leaving (left.transitions ++ right.transitions) p = [] := by
  have hp := hleft.accept_mem p hl.mem_accept
  exact movesAt_append_eq_nil_iff.2 ⟨hl.leaving_exit, hright.leaving_eq_nil fun h => hd hp h⟩

theorem leaving_right (hr : right.Normal q) :
    leaving (left.transitions ++ right.transitions) q = [] := by
  have hq := hright.accept_mem q hr.mem_accept
  exact movesAt_append_eq_nil_iff.2 ⟨hleft.leaving_eq_nil fun h => hd h hq, hr.leaving_exit⟩

theorem entering_left (hl : left.Normal p) :
    entering (left.transitions ++ right.transitions) left.start = [] :=
  movesAt_append_eq_nil_iff.2
    ⟨hl.entering_start, hright.entering_eq_nil fun h => hd hleft.start_mem h⟩

theorem entering_right (hr : right.Normal q) :
    entering (left.transitions ++ right.transitions) right.start = [] :=
  movesAt_append_eq_nil_iff.2
    ⟨hleft.entering_eq_nil fun h => hd h hright.start_mem, hr.entering_start⟩

end Pair

/-- Bridges keep the normal form when they lead from states that no operand leaves to states that no
    operand enters. -/
theorem normal_of_bridges {operands bridges : List Transition} (haccept : f.accept = [exit])
    (hperm : f.transitions.Perm (operands ++ bridges)) (hoperands : Sparse operands)
    (hbridges : Sparse bridges) (hstart : entering operands f.start = [])
    (hexit : leaving operands exit = [])
    (hsource : ∀ t ∈ bridges, leaving operands t.source = [] ∧ t.source ≠ exit)
    (htarget : ∀ t ∈ bridges, entering operands t.target = [] ∧ t.target ≠ f.start) :
    f.Normal exit where
  toSparse := by
    refine (hoperands.append hbridges (fun i => ?_) fun i => ?_).perm hperm
    · refine or_iff_not_imp_left.2 fun hi => movesAt_eq_nil_iff.2 fun t ht => ?_
      rintro rfl
      exact hi (hsource t ht).1
    · refine or_iff_not_imp_left.2 fun hi => movesAt_eq_nil_iff.2 fun t ht => ?_
      rintro rfl
      exact hi (htarget t ht).1
  accept_eq := haccept
  entering_start := by
    rw [movesAt_eq_nil_iff] at hstart ⊢
    intro t ht
    rcases List.mem_append.1 (hperm.mem_iff.1 ht) with ht | ht
    · exact hstart t ht
    · exact (htarget t ht).2
  leaving_exit := by
    rw [movesAt_eq_nil_iff] at hexit ⊢
    intro t ht
    rcases List.mem_append.1 (hperm.mem_iff.1 ht) with ht | ht
    · exact hexit t ht
    · exact (hsource t ht).2

/-! ### Links -/

theorem normal_point (id : Nat) : (point id).Normal id where
  branching _ := .inr ⟨Nat.zero_le 2, nofun⟩
  length_entering_le _ := Nat.zero_le 2
  accept_eq := rfl
  entering_start := rfl
  leaving_exit := rfl

theorem normal_arrow (h : start ≠ exit) (c : Char) :
    (arrow start exit (.letter c)).Normal exit where
  branching i := by
    by_cases hi : start = i
    · exact .inl ⟨⟨start, .letter c, exit⟩, c, by simp [movesAt, arrow, hi], rfl⟩
    · exact .inr ⟨by simp [movesAt, arrow, hi], by simp [movesAt, arrow, hi]⟩
  length_entering_le i := (List.length_filter_le _ _).trans (by simp [arrow])
  accept_eq := rfl
  entering_start := movesAt_eq_nil_iff.2 (by simpa [arrow] using h.symm)
  leaving_exit := movesAt_eq_nil_iff.2 (by simpa [arrow] using h)

theorem Normal.concatenate (hl : left.Normal p) (hr : right.Normal q) (hleft : left.Closed)
    (hright : right.Closed) (hd : left.ids.Disjoint right.ids) :
    (left.concatenate right).Normal q := by
  have hp := hleft.accept_mem p hl.mem_accept
  have hq : q ∉ left.ids := fun h => hd h (hright.accept_mem q hr.mem_accept)
  have hstart : right.start ∉ left.ids := fun h => hd h hright.start_mem
  have hmoves : (left.concatenate right).transitions =
      left.transitions ++ right.transitions ++ [.silent p right.start] := by
    simp [Fragment.concatenate, hl.accept_eq]
  refine normal_of_bridges hr.accept_eq (.of_eq hmoves)
    (sparse_append hleft hright hd hl.toSparse hr.toSparse) ?_
    (entering_left hleft hright hd hl) (leaving_right hleft hright hd hr) ?_ ?_
  · refine sparse_of_silent (by simp [Transition.silent]) (fun i => ?_) fun i => ?_
    · exact List.count_le_length.trans (by simp)
    · exact List.count_le_length.trans (by simp)
  · exact List.forall_mem_singleton.2
      ⟨leaving_left hleft hright hd hl, ne_of_mem_of_not_mem hp hq⟩
  · exact List.forall_mem_singleton.2
      ⟨entering_right hleft hright hd hr, (ne_of_mem_of_not_mem hleft.start_mem hstart).symm⟩

theorem normal_alternate (hu : upper.Normal p) (hl : lower.Normal q) (hupper : upper.Closed)
    (hlower : lower.Closed) (hn : (alternate start exit upper lower).ids.Nodup) :
    (alternate start exit upper lower).Normal exit := by
  simp only [ids_alternate, List.nodup_cons, List.mem_cons, List.mem_append, not_or,
    List.nodup_append'] at hn
  obtain ⟨⟨hse, hsu, hsl⟩, ⟨heu, hel⟩, -, -, hd⟩ := hn
  have hp := hupper.accept_mem p hu.mem_accept
  have hq := hlower.accept_mem q hl.mem_accept
  have hpq : p ≠ q := ne_of_mem_of_not_mem hp fun h => hd h hq
  have hstarts : upper.start ≠ lower.start :=
    ne_of_mem_of_not_mem hupper.start_mem fun h => hd h hlower.start_mem
  have hmoves : (alternate start exit upper lower).transitions =
      [.silent start upper.start, .silent start lower.start]
        ++ (upper.transitions ++ lower.transitions) ++ [.silent p exit, .silent q exit] := by
    simp [alternate, hu.accept_eq, hl.accept_eq]
  have hperm : (alternate start exit upper lower).transitions.Perm
      (upper.transitions ++ lower.transitions ++ [.silent start upper.start,
        .silent start lower.start, .silent p exit, .silent q exit]) := by
    rw [hmoves]
    exact (List.perm_append_comm.append_right _).trans (.of_eq (List.append_assoc ..))
  have hnew {i : Nat} (hiu : i ∉ upper.ids) (hil : i ∉ lower.ids) :
      leaving (upper.transitions ++ lower.transitions) i = [] ∧
        entering (upper.transitions ++ lower.transitions) i = [] :=
    ⟨movesAt_append_eq_nil_iff.2 ⟨hupper.leaving_eq_nil hiu, hlower.leaving_eq_nil hil⟩,
      movesAt_append_eq_nil_iff.2 ⟨hupper.entering_eq_nil hiu, hlower.entering_eq_nil hil⟩⟩
  refine normal_of_bridges rfl hperm (sparse_append hupper hlower hd hu.toSparse hl.toSparse) ?_
    (hnew hsu hsl).2 (hnew heu hel).1 ?_ ?_
  · exact sparse_fork_join (ne_of_mem_of_not_mem hp hsu) (ne_of_mem_of_not_mem hq hsl) hpq
      (ne_of_mem_of_not_mem hupper.start_mem heu) (ne_of_mem_of_not_mem hlower.start_mem hel)
      hstarts
  · simp only [List.forall_mem_cons, Transition.silent]
    exact ⟨⟨(hnew hsu hsl).1, hse⟩, ⟨(hnew hsu hsl).1, hse⟩,
      ⟨leaving_left hupper hlower hd hu, ne_of_mem_of_not_mem hp heu⟩,
      ⟨leaving_right hupper hlower hd hl, ne_of_mem_of_not_mem hq hel⟩, List.forall_mem_nil _⟩
  · simp only [List.forall_mem_cons, Transition.silent]
    exact ⟨⟨entering_left hupper hlower hd hu, ne_of_mem_of_not_mem hupper.start_mem hsu⟩,
      ⟨entering_right hupper hlower hd hl, ne_of_mem_of_not_mem hlower.start_mem hsl⟩,
      ⟨(hnew heu hel).2, Ne.symm hse⟩, ⟨(hnew heu hel).2, Ne.symm hse⟩, List.forall_mem_nil _⟩

theorem normal_iterate (h : inner.Normal p) (hinner : inner.Closed)
    (hn : (iterate start exit inner).ids.Nodup) : (iterate start exit inner).Normal exit := by
  simp only [ids_iterate, List.nodup_cons, List.mem_cons, not_or] at hn
  obtain ⟨⟨hse, hsi⟩, hei, -⟩ := hn
  have hp := hinner.accept_mem p h.mem_accept
  have hmoves : (iterate start exit inner).transitions = [.silent start inner.start,
      .silent start exit, .silent p inner.start, .silent p exit] ++ inner.transitions := by
    simp [iterate, h.accept_eq]
  refine normal_of_bridges rfl (.trans (.of_eq hmoves) List.perm_append_comm) h.toSparse ?_
    (hinner.entering_eq_nil hsi) (hinner.leaving_eq_nil hei) ?_ ?_
  · exact sparse_cross (ne_of_mem_of_not_mem hp hsi) (ne_of_mem_of_not_mem hinner.start_mem hei)
  · simp only [List.forall_mem_cons, Transition.silent]
    have hnew := hinner.leaving_eq_nil hsi
    have hpe := ne_of_mem_of_not_mem hp hei
    exact ⟨⟨hnew, hse⟩, ⟨hnew, hse⟩, ⟨h.leaving_exit, hpe⟩, ⟨h.leaving_exit, hpe⟩,
      List.forall_mem_nil _⟩
  · simp only [List.forall_mem_cons, Transition.silent]
    have hnew := hinner.entering_eq_nil hei
    have his := ne_of_mem_of_not_mem hinner.start_mem hsi
    exact ⟨⟨h.entering_start, his⟩, ⟨hnew, Ne.symm hse⟩, ⟨h.entering_start, his⟩,
      ⟨hnew, Ne.symm hse⟩, List.forall_mem_nil _⟩

end Fragment

/-- Every assembly whose stars have two states of their own is in normal form. -/
theorem Assembled.exists_normal {e : Expression} {f : Fragment} (h : Assembled false e f) :
    ∃ exit, f.Normal exit := by
  induction h with
  | point id => exact ⟨id, Fragment.normal_point id⟩
  | arrow c hn =>
    simp only [Fragment.ids_arrow, List.nodup_cons, List.mem_singleton] at hn
    exact ⟨_, Fragment.normal_arrow hn.1 c⟩
  | concatenate hleft hright hn ihl ihr =>
    obtain ⟨p, hl⟩ := ihl
    obtain ⟨q, hr⟩ := ihr
    rw [Fragment.ids_concatenate, List.nodup_append'] at hn
    exact ⟨q, hl.concatenate hr hleft.closed hright.closed hn.2.2⟩
  | alternate hupper hlower hn ihu ihl =>
    obtain ⟨p, hu⟩ := ihu
    obtain ⟨q, hl⟩ := ihl
    exact ⟨_, Fragment.normal_alternate hu hl hupper.closed hlower.closed hn⟩
  | iterate _ hinner hn ih =>
    obtain ⟨p, hi⟩ := ih
    exact ⟨_, Fragment.normal_iterate hi hinner.closed hn⟩
  | iterateShared hs _ _ _ => cases hs

/-- From every sequence that passes the arity check, the construction makes a fragment in normal
    form when its stars have two states of their own. -/
theorem Builder.exists_normal_build (b : Builder) (hs : b.flags.sharedStar = false)
    {tokens : List Token} (h : checkArity tokens = .ok ()) :
    ∃ f exit, (b.build tokens).1 = .ok f ∧ f.Normal exit := by
  obtain ⟨e, f, -, hbuild, hassembled⟩ := b.exists_assembled_build h
  rw [hs] at hassembled
  obtain ⟨exit, hnormal⟩ := hassembled.exists_normal
  exact ⟨f, exit, hbuild, hnormal⟩

/-- A star over a union with the empty word, after a letter: a silent literal is start and exit at
    once, and still takes no more than one bridge on either side. -/
theorem Builder.exists_normal_build_star :
    let b : Builder := ⟨{ emptyLanguage := true }, 7⟩
    let tokens : List Token := [.symbol (.letter 'a'), .symbol .epsilon, .symbol (.letter 'b'),
      .operator .union, .operator .star, .operator .concat]
    b.flags.sharedStar = false ∧ checkArity tokens = .ok () ∧
      ∃ f exit, (b.build tokens).1 = .ok f ∧ f.Normal exit := by
  intro b tokens
  have hs : b.flags.sharedStar = false := rfl
  have h : checkArity tokens = .ok () := rfl
  exact ⟨hs, h, b.exists_normal_build hs h⟩

end EpsilonNfa
