/-!
Sets as increasing lists, so that a set is written in one way only. Main statements: `mem_insert`
and `mem_ofList`, what is in a set, and `eq_of_mem_iff`, that its elements fix it.
-/

namespace EpsilonNfa

/-- A set, kept as the increasing list of its elements. -/
@[ext]
structure OrderedSet (α : Type) [LT α] where
  toList : List α
  sorted : toList.Pairwise (· < ·)

namespace OrderedSet

/-- An element of an increasing list comes after its head or is the head. -/
theorem eq_or_lt_of_mem {α : Type} [LT α] {a x : α} {l : List α}
    (h : (a :: l).Pairwise (· < ·)) (hx : x ∈ a :: l) : x = a ∨ a < x := by
  rcases List.mem_cons.1 hx with rfl | hx
  · exact .inl rfl
  · exact .inr (List.rel_of_pairwise_cons h hx)

variable {α : Type} [LT α] [LE α] [Std.IsLinearOrder α] [Std.LawfulOrderLT α] [DecidableLT α]

instance [DecidableEq α] : DecidableEq (OrderedSet α) := fun s t =>
  decidable_of_iff (s.toList = t.toList) OrderedSet.ext_iff.symm

/-- The set without elements. -/
def empty : OrderedSet α := ⟨[], .nil⟩

/-- `a` at its place in an increasing list, unless it is there already. -/
def insertSorted (a : α) : List α → List α
  | [] => [a]
  | b :: rest =>
    if a < b then a :: b :: rest
    else if b < a then b :: insertSorted a rest
    else b :: rest

theorem mem_insertSorted {a x : α} {l : List α} : x ∈ insertSorted a l ↔ x = a ∨ x ∈ l := by
  induction l with
  | nil => simp [insertSorted]
  | cons b rest ih =>
    unfold insertSorted
    split
    · simp
    · split
      · simp only [List.mem_cons, ih]
        exact or_left_comm
      · next hab hba =>
        have : a = b := Std.Trichotomous.trichotomous a b hab hba
        simp [this]

theorem pairwise_insertSorted {a : α} {l : List α} (h : l.Pairwise (· < ·)) :
    (insertSorted a l).Pairwise (· < ·) := by
  induction h with
  | nil => simp [insertSorted]
  | @cons b rest hb hrest ih =>
    unfold insertSorted
    split
    · next hab =>
      refine .cons ?_ (.cons hb hrest)
      intro x hx
      rcases List.mem_cons.1 hx with rfl | hx
      · exact hab
      · exact Std.lt_trans hab (hb x hx)
    · split
      · next hba =>
        refine .cons ?_ ih
        intro x hx
        rcases mem_insertSorted.1 hx with rfl | hx
        · exact hba
        · exact hb x hx
      · exact .cons hb hrest

/-- The set with one element more. -/
def insert (a : α) (s : OrderedSet α) : OrderedSet α :=
  ⟨insertSorted a s.toList, pairwise_insertSorted s.sorted⟩

/-- The set of the elements of a list. -/
def ofList (l : List α) : OrderedSet α :=
  l.foldr insert empty

@[simp]
theorem mem_insert {a x : α} {s : OrderedSet α} :
    x ∈ (s.insert a).toList ↔ x = a ∨ x ∈ s.toList :=
  mem_insertSorted

@[simp]
theorem mem_ofList {x : α} {l : List α} : x ∈ (ofList l).toList ↔ x ∈ l := by
  induction l with
  | nil => simp [ofList, empty]
  | cons a rest ih =>
    have : ofList (a :: rest) = (ofList rest).insert a := rfl
    rw [this, mem_insert, ih, List.mem_cons]

omit [DecidableLT α] in
theorem eq_of_pairwise_of_mem_iff {l m : List α} (hl : l.Pairwise (· < ·))
    (hm : m.Pairwise (· < ·)) (h : ∀ x, x ∈ l ↔ x ∈ m) : l = m := by
  induction l generalizing m with
  | nil =>
    cases m with
    | nil => rfl
    | cons b m => exact absurd ((h b).2 List.mem_cons_self) List.not_mem_nil
  | cons a l ih =>
    cases m with
    | nil => exact absurd ((h a).1 List.mem_cons_self) List.not_mem_nil
    | cons b m =>
      have hab : a = b := by
        rcases eq_or_lt_of_mem hm ((h a).1 List.mem_cons_self) with hab | hba
        · exact hab
        · rcases eq_or_lt_of_mem hl ((h b).2 List.mem_cons_self) with hba' | hab
          · exact hba'.symm
          · exact absurd (Std.lt_trans hba hab) Std.lt_irrefl
      subst hab
      congr 1
      refine ih hl.of_cons hm.of_cons fun x => ⟨fun hx => ?_, fun hx => ?_⟩
      · rcases List.mem_cons.1 ((h x).1 (List.mem_cons_of_mem _ hx)) with rfl | hx'
        · exact absurd (List.rel_of_pairwise_cons hl hx) Std.lt_irrefl
        · exact hx'
      · rcases List.mem_cons.1 ((h x).2 (List.mem_cons_of_mem _ hx)) with rfl | hx'
        · exact absurd (List.rel_of_pairwise_cons hm hx) Std.lt_irrefl
        · exact hx'

omit [DecidableLT α] in
/-- Sets with the same elements are equal. -/
theorem eq_of_mem_iff {s t : OrderedSet α} (h : ∀ x, x ∈ s.toList ↔ x ∈ t.toList) : s = t :=
  OrderedSet.ext (eq_of_pairwise_of_mem_iff s.sorted t.sorted h)

end OrderedSet

end EpsilonNfa
