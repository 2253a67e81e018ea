import EpsilonNfa.Proofs.Automaton.Discovery
import EpsilonNfa.Proofs.Fragment.Assembly

/-!
Trim fragments: one exit, and every listed state on a walk from the start to it. Each link keeps
that, because a bridge leads from the exit of one operand on to the start of the next or to the new
exit; so every assembly is trim, with either kind of star.
-/

namespace EpsilonNfa

theorem Reaches.silent {ts : List Transition} {p q : Nat} (h : .silent p q ∈ ts) :
    Reaches ts p q :=
  .single h

namespace Fragment

/-- The only exit is `exit`, and every state can be reached from the start and can reach it. -/
structure Trim (f : Fragment) (exit : Nat) : Prop where
  accept_eq : f.accept = [exit]
  from_start : ∀ i ∈ f.ids, Reaches f.transitions f.start i
  to_exit : ∀ i ∈ f.ids, Reaches f.transitions i exit

variable {f left right upper lower inner : Fragment} {start exit p q : Nat}

theorem Trim.mem_accept (h : f.Trim p) : p ∈ f.accept := by
  rw [h.accept_eq]
  exact List.mem_singleton_self p

/-- A fragment is trim when a walk leads from its start to its only exit, and through every state
    besides these. -/
theorem trim_of_through (haccept : f.accept = [exit])
    (hthrough : Reaches f.transitions f.start exit)
    (h : ∀ i ∈ f.ids, i = f.start ∨ i = exit ∨
      Reaches f.transitions f.start i ∧ Reaches f.transitions i exit) : f.Trim exit where
  accept_eq := haccept
  from_start i hi := by
    rcases h i hi with rfl | rfl | ⟨hfrom, -⟩
    · exact .refl _ _
    · exact hthrough
    · exact hfrom
  to_exit i hi := by
    rcases h i hi with rfl | rfl | ⟨-, hto⟩
    · exact hthrough
    · exact .refl _ _
    · exact hto

/-- Between a state that leads into an operand and a state that its exit leads to, the states of the
    operand are on a walk. -/
theorem Trim.between (h : inner.Trim p) {ts : List Transition} (hsub : inner.transitions ⊆ ts)
    (henter : .silent start inner.start ∈ ts) (hleave : .silent p exit ∈ ts) {i : Nat}
    (hi : i ∈ inner.ids) : Reaches ts start i ∧ Reaches ts i exit :=
  ⟨(Reaches.silent henter).trans ((h.from_start i hi).mono hsub),
    ((h.to_exit i hi).mono hsub).trans (.silent hleave)⟩

/-! ### Links -/

theorem trim_point (id : Nat) : (point id).Trim id :=
  trim_of_through rfl (.refl _ _) fun _ hi => .inl (List.mem_singleton.1 hi)

theorem trim_arrow (start exit : Nat) (s : Symbol) : (arrow start exit s).Trim exit := by
  have hmove : ⟨start, s, exit⟩ ∈ (arrow start exit s).transitions := List.mem_singleton_self _
  refine trim_of_through rfl (.single hmove) fun i hi => ?_
  rw [ids_arrow, List.mem_cons, List.mem_singleton] at hi
  rcases hi with rfl | rfl
  · exact .inl rfl
  · exact .inr (.inl rfl)

theorem Trim.concatenate (hl : left.Trim p) (hr : right.Trim q) (hleft : left.Closed)
    (hright : right.Closed) : (left.concatenate right).Trim q := by
  have hsubl : left.transitions ⊆ (left.concatenate right).transitions :=
    fun t ht => mem_transitions_concatenate.2 (.inl ht)
  have hsubr : right.transitions ⊆ (left.concatenate right).transitions :=
    fun t ht => mem_transitions_concatenate.2 (.inr (.inl ht))
  have hbridge : Reaches (left.concatenate right).transitions p right.start :=
    .silent (mem_transitions_concatenate.2 (.inr (.inr ⟨p, hl.mem_accept, rfl⟩)))
  have hexit : p ∈ left.ids := hleft.accept_mem p hl.mem_accept
  have hfrom : Reaches (left.concatenate right).transitions left.start right.start :=
    ((hl.from_start p hexit).mono hsubl).trans hbridge
  have hto : Reaches (left.concatenate right).transitions p q :=
    hbridge.trans ((hr.to_exit _ hright.start_mem).mono hsubr)
  refine ⟨hr.accept_eq, fun i hi => ?_, fun i hi => ?_⟩
  · rw [ids_concatenate, List.mem_append] at hi
    rcases hi with hi | hi
    · exact (hl.from_start i hi).mono hsubl
    · exact hfrom.trans ((hr.from_start i hi).mono hsubr)
  · rw [ids_concatenate, List.mem_append] at hi
    rcases hi with hi | hi
    · exact ((hl.to_exit i hi).mono hsubl).trans hto
    · exact (hr.to_exit i hi).mono hsubr

theorem trim_alternate (hu : upper.Trim p) (hl : lower.Trim q) (hupper : upper.Closed) :
    (alternate start exit upper lower).Trim exit := by
  have hfirst : ∀ i ∈ upper.ids, Reaches (alternate start exit upper lower).transitions start i ∧
      Reaches (alternate start exit upper lower).transitions i exit := by
    refine fun i => hu.between (fun t ht => ?_) ?_ ?_
    · exact mem_transitions_alternate.2 (.inr (.inr (.inl ht)))
    · exact mem_transitions_alternate.2 (.inl rfl)
    · exact mem_transitions_alternate.2 (.inr (.inr (.inr (.inr ⟨p, .inl hu.mem_accept, rfl⟩))))
  have hsecond : ∀ i ∈ lower.ids, Reaches (alternate start exit upper lower).transitions start i ∧
      Reaches (alternate start exit upper lower).transitions i exit := by
    refine fun i => hl.between (fun t ht => ?_) ?_ ?_
    · exact mem_transitions_alternate.2 (.inr (.inr (.inr (.inl ht))))
    · exact mem_transitions_alternate.2 (.inr (.inl rfl))
    · exact mem_transitions_alternate.2 (.inr (.inr (.inr (.inr ⟨q, .inr hl.mem_accept, rfl⟩))))
  obtain ⟨henter, hleave⟩ := hfirst _ hupper.start_mem
  refine trim_of_through rfl (henter.trans hleave) fun i hi => ?_
  simp only [ids_alternate, List.mem_cons, List.mem_append] at hi
  rcases hi with rfl | rfl | hi | hi
  · exact .inl rfl
  · exact .inr (.inl rfl)
  · exact .inr (.inr (hfirst i hi))
  · exact .inr (.inr (hsecond i hi))

theorem trim_iterate (h : inner.Trim p) : (iterate start exit inner).Trim exit := by
  have hinner : ∀ i ∈ inner.ids, Reaches (iterate start exit inner).transitions start i ∧
      Reaches (iterate start exit inner).transitions i exit := by
    refine fun i => h.between (fun t ht => ?_) ?_ ?_
    · exact mem_transitions_iterate.2 (.inr (.inr (.inr ht)))
    · exact mem_transitions_iterate.2 (.inl rfl)
    · exact mem_transitions_iterate.2 (.inr (.inr (.inl ⟨p, h.mem_accept, .inr rfl⟩)))
  have hskip : .silent start exit ∈ (iterate start exit inner).transitions :=
    mem_transitions_iterate.2 (.inr (.inl rfl))
  refine trim_of_through rfl (.silent hskip) fun i hi => ?_
  simp only [ids_iterate, List.mem_cons] at hi
  rcases hi with rfl | rfl | hi
  · exact .inl rfl
  · exact .inr (.inl rfl)
  · exact .inr (.inr (hinner i hi))

theorem trim_iterateShared (h : inner.Trim p) : (iterateShared start inner).Trim start := by
  have hinner : ∀ i ∈ inner.ids, Reaches (iterateShared start inner).transitions start i ∧
      Reaches (iterateShared start inner).transitions i start := by
    refine fun i => h.between (fun t ht => ?_) ?_ ?_
    · exact mem_transitions_iterateShared.2 (.inr (.inr ht))
    · exact mem_transitions_iterateShared.2 (.inl rfl)
    · exact mem_transitions_iterateShared.2 (.inr (.inl ⟨p, h.mem_accept, .inr rfl⟩))
  refine trim_of_through rfl (.refl _ _) fun i hi => ?_
  simp only [ids_iterateShared, List.mem_cons] at hi
  rcases hi with rfl | hi
  · exact .inl rfl
  · exact .inr (.inr (hinner i hi))

end Fragment

/-- Every assembly is trim. -/
theorem Assembled.exists_trim {shared : Bool} {e : Expression} {f : Fragment}
    (h : Assembled shared e f) : ∃ exit, f.Trim exit := by
  induction h with
  | point id => exact ⟨id, Fragment.trim_point id⟩
  | arrow c _ => exact ⟨_, Fragment.trim_arrow _ _ _⟩
  | concatenate hleft hright _ ihl ihr =>
    obtain ⟨p, hl⟩ := ihl
    obtain ⟨q, hr⟩ := ihr
    exact ⟨q, hl.concatenate hr hleft.closed hright.closed⟩
  | alternate hupper _ _ ihu ihl =>
    obtain ⟨p, hu⟩ := ihu
    obtain ⟨q, hl⟩ := ihl
    exact ⟨_, Fragment.trim_alternate hu hl hupper.closed⟩
  | iterate _ _ _ ih =>
    obtain ⟨p, hi⟩ := ih
    exact ⟨_, Fragment.trim_iterate hi⟩
  | iterateShared _ _ _ ih =>
    obtain ⟨p, hi⟩ := ih
    exact ⟨_, Fragment.trim_iterateShared hi⟩

end EpsilonNfa
