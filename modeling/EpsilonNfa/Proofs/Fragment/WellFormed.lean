import EpsilonNfa.Proofs.Fragment.Linking
import EpsilonNfa.Proofs.Fragment.Relabelling

/-!
Well-formed fragments: closed, no state listed twice, and every number already handed out. Linking
fragments that share no state gives a well-formed fragment again.
-/

namespace EpsilonNfa.Fragment

/-- A closed fragment that lists no state twice and has only numbers below `next`. -/
structure WellFormed (next : Nat) (f : Fragment) : Prop extends f.Closed where
  nodup : f.ids.Nodup
  lt_next : ∀ i ∈ f.ids, i < next

/-- Different numbers from `low` up to `next`, which excludes `next` itself. -/
structure Numbered (low next : Nat) (l : List Nat) : Prop where
  nodup : l.Nodup
  bounds : ∀ i ∈ l, low ≤ i ∧ i < next

/-- A closed fragment whose states have different numbers from `low` up to `next`. -/
structure Within (low next : Nat) (f : Fragment) : Prop extends f.Closed where
  numbered : Numbered low next f.ids

variable {f upper lower left right inner : Fragment} {low mid next start exit : Nat}

/-! ### Numbers in a range -/

theorem Numbered.notMem {l : List Nat} {i : Nat} (h : Numbered low next l) (hi : i < low) :
    i ∉ l := by
  intro hmem
  have := (h.bounds i hmem).1
  omega

theorem Numbered.cons {l : List Nat} (hlt : low < next) (h : Numbered (low + 1) next l) :
    Numbered low next (low :: l) where
  nodup := by
    exact List.nodup_cons.2 ⟨h.notMem (by omega), h.nodup⟩
  bounds i hi := by
    rcases List.mem_cons.1 hi with rfl | hi
    · exact ⟨le_rfl, hlt⟩
    · have := h.bounds i hi
      omega

/-- Numbers below and from `mid` on do not meet. -/
theorem Numbered.disjoint {l m : List Nat} (hl : Numbered low mid l) (hm : Numbered mid next m) :
    l.Disjoint m := by
  intro i hi hi'
  have h1 := (hl.bounds i hi).2
  have h2 := (hm.bounds i hi').1
  omega

theorem Numbered.append {l m : List Nat} (hl : Numbered low mid l) (hm : Numbered mid next m)
    (h1 : low ≤ mid) (h2 : mid ≤ next) : Numbered low next (l ++ m) where
  nodup := List.nodup_append'.2 ⟨hl.nodup, hm.nodup, hl.disjoint hm⟩
  bounds i hi := by
    rcases List.mem_append.1 hi with hi | hi
    · have := hl.bounds i hi
      omega
    · have := hm.bounds i hi
      omega

theorem Within.mono {low' next' : Nat} (h : f.Within low next) (hlow : low' ≤ low)
    (hnext : next ≤ next') : f.Within low' next' where
  toClosed := h.toClosed
  numbered := ⟨h.numbered.nodup, fun i hi => by
    have := h.numbered.bounds i hi
    omega⟩

theorem Within.wellFormed (h : f.Within low next) : f.WellFormed next where
  toClosed := h.toClosed
  nodup := h.numbered.nodup
  lt_next i hi := (h.numbered.bounds i hi).2

theorem WellFormed.within (h : f.WellFormed next) : f.Within 0 next where
  toClosed := h.toClosed
  numbered := ⟨h.nodup, fun i hi => ⟨i.zero_le, h.lt_next i hi⟩⟩

/-- A fragment has a start, so its range is not empty. -/
theorem Within.low_lt (h : f.Within low next) : low < next := by
  have := h.numbered.bounds f.start h.start_mem
  omega

/-- Relabelling uses as many numbers as states are listed. -/
theorem within_moved (low : Nat) (hf : f.Closed) (hn : f.ids.Nodup) :
    (f.moved low).Within low (low + f.states.length) where
  toClosed := hf.moved
  numbered := ⟨nodup_moved hn, fun _ => bounds_of_mem_moved⟩

/-! ### Closed links -/

@[simp]
theorem ids_point (id : Nat) : (point id).ids = [id] := rfl

@[simp]
theorem ids_blind (id : Nat) : (blind id).ids = [id] := rfl

@[simp]
theorem ids_arrow (start exit : Nat) (s : Symbol) : (arrow start exit s).ids = [start, exit] := rfl

theorem closed_point (id : Nat) : (point id).Closed := by
  constructor <;> simp [point, ids, State.unnamed]

theorem closed_blind (id : Nat) : (blind id).Closed := by
  constructor <;> simp [blind, ids, State.unnamed]

theorem closed_arrow (start exit : Nat) (s : Symbol) : (arrow start exit s).Closed := by
  constructor <;> simp [arrow, ids, State.unnamed]

theorem Closed.concatenate (hl : left.Closed) (hr : right.Closed) :
    (left.concatenate right).Closed where
  start_mem := by
    rw [ids_concatenate]
    exact List.mem_append_left _ hl.start_mem
  accept_mem i hi := by
    rw [ids_concatenate]
    exact List.mem_append_right _ (hr.accept_mem i hi)
  source_mem t ht := by
    rw [ids_concatenate, List.mem_append]
    rcases mem_transitions_concatenate.1 ht with ht | ht | ⟨q, hq, rfl⟩
    · exact .inl (hl.source_mem t ht)
    · exact .inr (hr.source_mem t ht)
    · exact .inl (hl.accept_mem q hq)
  target_mem t ht := by
    rw [ids_concatenate, List.mem_append]
    rcases mem_transitions_concatenate.1 ht with ht | ht | ⟨q, hq, rfl⟩
    · exact .inl (hl.target_mem t ht)
    · exact .inr (hr.target_mem t ht)
    · exact .inr hr.start_mem

theorem closed_alternate (hu : upper.Closed) (hl : lower.Closed) :
    (alternate start exit upper lower).Closed where
  start_mem := by
    rw [ids_alternate]
    exact List.mem_cons_self
  accept_mem i hi := by
    obtain rfl := List.mem_singleton.1 hi
    simp
  source_mem t ht := by
    simp only [ids_alternate, List.mem_cons, List.mem_append]
    rcases mem_transitions_alternate.1 ht with rfl | rfl | ht | ht | ⟨q, hq | hq, rfl⟩
    · exact .inl rfl
    · exact .inl rfl
    · exact .inr (.inr (.inl (hu.source_mem t ht)))
    · exact .inr (.inr (.inr (hl.source_mem t ht)))
    · exact .inr (.inr (.inl (hu.accept_mem q hq)))
    · exact .inr (.inr (.inr (hl.accept_mem q hq)))
  target_mem t ht := by
    simp only [ids_alternate, List.mem_cons, List.mem_append]
    rcases mem_transitions_alternate.1 ht with rfl | rfl | ht | ht | ⟨q, -, rfl⟩
    · exact .inr (.inr (.inl hu.start_mem))
    · exact .inr (.inr (.inr hl.start_mem))
    · exact .inr (.inr (.inl (hu.target_mem t ht)))
    · exact .inr (.inr (.inr (hl.target_mem t ht)))
    · exact .inr (.inl rfl)

theorem closed_iterate (hi : inner.Closed) : (iterate start exit inner).Closed where
  start_mem := by
    rw [ids_iterate]
    exact List.mem_cons_self
  accept_mem i hi := by
    obtain rfl := List.mem_singleton.1 hi
    simp
  source_mem t ht := by
    simp only [ids_iterate, List.mem_cons]
    rcases mem_transitions_iterate.1 ht with rfl | rfl | ⟨q, hq, rfl | rfl⟩ | ht
    · exact .inl rfl
    · exact .inl rfl
    · exact .inr (.inr (hi.accept_mem q hq))
    · exact .inr (.inr (hi.accept_mem q hq))
    · exact .inr (.inr (hi.source_mem t ht))
  target_mem t ht := by
    simp only [ids_iterate, List.mem_cons]
    rcases mem_transitions_iterate.1 ht with rfl | rfl | ⟨q, -, rfl | rfl⟩ | ht
    · exact .inr (.inr hi.start_mem)
    · exact .inr (.inl rfl)
    · exact .inr (.inr hi.start_mem)
    · exact .inr (.inl rfl)
    · exact .inr (.inr (hi.target_mem t ht))

theorem closed_iterateShared (hi : inner.Closed) : (iterateShared start inner).Closed where
  start_mem := by
    rw [ids_iterateShared]
    exact List.mem_cons_self
  accept_mem i hi := by
    obtain rfl := List.mem_singleton.1 hi
    simp
  source_mem t ht := by
    simp only [ids_iterateShared, List.mem_cons]
    rcases mem_transitions_iterateShared.1 ht with rfl | ⟨q, hq, rfl | rfl⟩ | ht
    · exact .inl rfl
    · exact .inr (hi.accept_mem q hq)
    · exact .inr (hi.accept_mem q hq)
    · exact .inr (hi.source_mem t ht)
  target_mem t ht := by
    simp only [ids_iterateShared, List.mem_cons]
    rcases mem_transitions_iterateShared.1 ht with rfl | ⟨q, -, rfl | rfl⟩ | ht
    · exact .inr hi.start_mem
    · exact .inr hi.start_mem
    · exact .inl rfl
    · exact .inr (hi.target_mem t ht)

/-! ### Links on separate numbers

New states come first, and each operand lies above what comes before it. -/

theorem within_point (low : Nat) : (point low).Within low (low + 1) where
  toClosed := closed_point low
  numbered := ⟨by simp, by simp⟩

theorem within_blind (low : Nat) : (blind low).Within low (low + 1) where
  toClosed := closed_blind low
  numbered := ⟨by simp, by simp⟩

theorem within_arrow (low : Nat) (s : Symbol) : (arrow low (low + 1) s).Within low (low + 2) where
  toClosed := closed_arrow low (low + 1) s
  numbered := ⟨by simp, by simp⟩

theorem Within.concatenate (hl : left.Within low mid) (hr : right.Within mid next) :
    (left.concatenate right).Within low next where
  toClosed := hl.toClosed.concatenate hr.toClosed
  numbered := by
    rw [ids_concatenate]
    exact hl.numbered.append hr.numbered hl.low_lt.le hr.low_lt.le

theorem Within.alternate (hu : upper.Within (low + 2) mid) (hl : lower.Within mid next) :
    (Fragment.alternate low (low + 1) upper lower).Within low next where
  toClosed := closed_alternate hu.toClosed hl.toClosed
  numbered := by
    have h1 := hu.low_lt
    have h2 := hl.low_lt
    rw [ids_alternate]
    refine .cons (by omega) (.cons (by omega) ?_)
    exact hu.numbered.append hl.numbered h1.le h2.le

theorem Within.iterate (hi : inner.Within (low + 2) next) :
    (Fragment.iterate low (low + 1) inner).Within low next where
  toClosed := closed_iterate hi.toClosed
  numbered := by
    have := hi.low_lt
    rw [ids_iterate]
    exact .cons (by omega) (.cons (by omega) hi.numbered)

theorem Within.iterateShared (hi : inner.Within (low + 1) next) :
    (Fragment.iterateShared low inner).Within low next where
  toClosed := closed_iterateShared hi.toClosed
  numbered := by
    have := hi.low_lt
    rw [ids_iterateShared]
    exact .cons (by omega) hi.numbered

end EpsilonNfa.Fragment
