import EpsilonNfa.Proofs.Fragment.Language
import Mathlib.Data.List.Nodup
import Mathlib.Data.Set.Card

/-!
The search lists every state that can be reached from the start exactly once, the start first. The
invariant is `Searched`: what is listed is reached, and what lies before the cursor has its
successors listed; one step of the search keeps it, and at the end the cursor has passed everything.

    order    q₀ … │ … qₙ
                  cursor       before it: successors listed       everywhere: reached, listed once
-/

namespace EpsilonNfa

/-! ### Walks -/

variable {ts us : List Transition} {p q r : Nat}

theorem Reads.append {u v : List Char} (h : Reads ts p u q) (h' : Reads ts q v r) :
    Reads ts p (u ++ v) r := by
  induction h with
  | nil => exact h'
  | @cons t w q ht _ ih =>
    rw [List.append_assoc]
    exact .cons ht (ih h')

theorem Reads.mono {w : List Char} (hsub : ts ⊆ us) (h : Reads ts p w q) : Reads us p w q := by
  induction h with
  | nil => exact .nil _
  | cons ht _ ih => exact .cons (hsub ht) ih

/-- A walk over the transitions `ts` leads from `p` to `q`. -/
def Reaches (ts : List Transition) (p q : Nat) : Prop :=
  ∃ w, Reads ts p w q

namespace Reaches

theorem refl (ts : List Transition) (p : Nat) : Reaches ts p p :=
  ⟨[], .nil p⟩

theorem single {t : Transition} (ht : t ∈ ts) : Reaches ts t.source t.target :=
  ⟨_, .cons ht (.nil _)⟩

theorem trans (h : Reaches ts p q) (h' : Reaches ts q r) : Reaches ts p r := by
  obtain ⟨u, hu⟩ := h
  obtain ⟨v, hv⟩ := h'
  exact ⟨u ++ v, hu.append hv⟩

theorem mono (hsub : ts ⊆ us) (h : Reaches ts p q) : Reaches us p q := by
  obtain ⟨w, hw⟩ := h
  exact ⟨w, hw.mono hsub⟩

/-- A set that holds the beginning of a walk and follows every transition holds its end. -/
theorem mem_of_closed {l : List Nat} (hclosed : ∀ t ∈ ts, t.source ∈ l → t.target ∈ l)
    (h : Reaches ts p q) (hp : p ∈ l) : q ∈ l := by
  obtain ⟨w, hw⟩ := h
  induction hw with
  | nil => exact hp
  | cons ht _ ih => exact ih (hclosed _ ht hp)

end Reaches

/-! ### Listing -/

variable {order new : List Nat} {id : Nat}

theorem mem_successors {target : Nat} :
    target ∈ successors ts id ↔ ∃ t ∈ ts, t.source = id ∧ t.target = target := by
  simp [successors, and_assoc]

theorem mem_enlist : id ∈ enlist order new ↔ id ∈ order ∨ id ∈ new := by
  induction new generalizing order with
  | nil => simp [enlist]
  | cons a new ih =>
    rw [enlist, ih, List.mem_cons]
    split
    · next ha =>
      constructor
      · rintro (h | h)
        · exact .inl h
        · exact .inr (.inr h)
      · rintro (h | rfl | h)
        · exact .inl h
        · exact .inl ha
        · exact .inr h
    · rw [List.mem_append, List.mem_singleton, or_assoc]

theorem nodup_enlist (h : order.Nodup) : (enlist order new).Nodup := by
  induction new generalizing order with
  | nil => exact h
  | cons a new ih =>
    rw [enlist]
    split
    · exact ih h
    · next ha =>
      refine ih ?_
      rw [← List.concat_eq_append]
      exact List.Nodup.concat ha h

theorem prefix_enlist (order new : List Nat) : order <+: enlist order new := by
  induction new generalizing order with
  | nil => exact List.prefix_rfl
  | cons a new ih =>
    rw [enlist]
    refine List.IsPrefix.trans ?_ (ih _)
    split
    · exact List.prefix_rfl
    · exact List.prefix_append _ _

/-! ### The search -/

/-- The search from `start` stands at a cursor: everything listed is reached, listed once, and
    before the cursor all successors are listed, too. -/
structure Searched (ts : List Transition) (start : Nat) (order : List Nat) (cursor : Nat) :
    Prop where
  begins : [start] <+: order
  nodup : order.Nodup
  reaches : ∀ i ∈ order, Reaches ts start i
  followed : ∀ t ∈ ts, t.source ∈ order.take cursor → t.target ∈ order

namespace Searched

variable {start cursor : Nat}

theorem init (ts : List Transition) (start : Nat) : Searched ts start [start] 0 where
  begins := List.prefix_rfl
  nodup := List.nodup_singleton start
  reaches i hi := by
    rw [List.mem_singleton.1 hi]
    exact .refl ts start
  followed t _ ht := by simp at ht

/-- The state under the cursor adds its successors. -/
theorem step (h : Searched ts start order cursor) (hlt : cursor < order.length) :
    Searched ts start (enlist order (successors ts order[cursor])) (cursor + 1) where
  begins := h.begins.trans (prefix_enlist order _)
  nodup := nodup_enlist h.nodup
  reaches i hi := by
    rcases mem_enlist.1 hi with hi | hi
    · exact h.reaches i hi
    · obtain ⟨t, ht, hsource, rfl⟩ := mem_successors.1 hi
      have hcursor := h.reaches _ (List.getElem_mem hlt)
      rw [← hsource] at hcursor
      exact hcursor.trans (.single ht)
  followed t ht hsource := by
    rw [mem_enlist]
    obtain ⟨more, hmore⟩ := prefix_enlist order (successors ts order[cursor])
    rw [← hmore, List.take_append_of_le_length hlt, List.take_succ_eq_append_getElem hlt,
      List.mem_append, List.mem_singleton] at hsource
    rcases hsource with hbefore | hat
    · exact .inl (h.followed t ht hbefore)
    · exact .inr (mem_successors.2 ⟨t, ht, hat, rfl⟩)

/-- The search ends behind everything that it has listed. -/
theorem explore (h : Searched ts start order cursor) :
    Searched ts start (explore ts order cursor) (EpsilonNfa.explore ts order cursor).length := by
  fun_induction EpsilonNfa.explore ts order cursor with
  | case1 order cursor hlt ih => exact ih (h.step hlt)
  | case2 order cursor hge =>
    refine ⟨h.begins, h.nodup, h.reaches, ?_⟩
    have := h.followed
    rw [List.take_of_length_le (Nat.le_of_not_lt hge)] at this
    rwa [List.take_length]

end Searched

namespace Fragment

variable (f : Fragment)

theorem searched_discovery :
    Searched f.transitions f.start f.discovery f.discovery.length :=
  (Searched.init f.transitions f.start).explore

theorem nodup_discovery : f.discovery.Nodup :=
  f.searched_discovery.nodup

/-- The start is discovered first. -/
theorem discovery_eq_cons : ∃ rest, f.discovery = f.start :: rest := by
  obtain ⟨rest, hrest⟩ := f.searched_discovery.begins
  exact ⟨rest, hrest.symm⟩

/-- Exactly the states that can be reached from the start are discovered. -/
theorem mem_discovery_iff {i : Nat} : i ∈ f.discovery ↔ Reaches f.transitions f.start i := by
  constructor
  · exact f.searched_discovery.reaches i
  · intro h
    refine h.mem_of_closed (fun t ht hsource => ?_) ?_
    · refine f.searched_discovery.followed t ht ?_
      rwa [List.take_length]
    · obtain ⟨rest, hrest⟩ := f.discovery_eq_cons
      rw [hrest]
      exact List.mem_cons_self

/-- A closed fragment discovers states that it lists. -/
theorem Closed.mem_ids_of_mem_discovery {f : Fragment} (hf : f.Closed) {i : Nat}
    (hi : i ∈ f.discovery) : i ∈ f.ids :=
  (f.mem_discovery_iff.1 hi).mem_of_closed (fun t ht _ => hf.target_mem t ht) hf.start_mem

end Fragment

end EpsilonNfa
