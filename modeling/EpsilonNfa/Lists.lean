/-!
Looking up the members of a list one by one: when every look-up succeeds, and what they find then.
-/

namespace EpsilonNfa

/-- Looking up known values one by one gives their list. -/
theorem mapM_eq_some_of_forall {α β : Type} {look : α → Option β} {known : α → β} :
    ∀ {l : List α}, (∀ a ∈ l, look a = some (known a)) → l.mapM look = some (l.map known)
  | [], _ => rfl
  | a :: l, h => by
    have hl : l.mapM look = some (l.map known) :=
      mapM_eq_some_of_forall fun b hb => h b (List.mem_cons_of_mem a hb)
    rw [List.mapM_cons, h a List.mem_cons_self, hl]
    rfl

/-- When all look-ups succeed, each of them does. -/
theorem isSome_of_mapM_eq_some {α β : Type} {look : α → Option β} :
    ∀ {l : List α} {found : List β}, l.mapM look = some found → ∀ a ∈ l, (look a).isSome
  | [], _, _ => nofun
  | a :: l, found, h => by
    rw [List.mapM_cons] at h
    obtain ⟨b, hb, h⟩ := Option.bind_eq_some_iff.1 h
    obtain ⟨rest, hrest, -⟩ := Option.bind_eq_some_iff.1 h
    rw [List.forall_mem_cons, hb]
    exact ⟨rfl, isSome_of_mapM_eq_some hrest⟩

/-- Looking at what was made of some things gives them back, if it does so for each of them. -/
theorem mapM_map_of_forall {α β : Type} {make : α → β} {look : β → Option α} {l : List α}
    (h : ∀ a ∈ l, look (make a) = some a) : (l.map make).mapM look = some l := by
  rw [List.mapM_map]
  refine (mapM_eq_some_of_forall h).trans ?_
  rw [List.map_id']

/-- When a look-up finds exactly what was made of a thing, so do look-ups one by one. -/
theorem mapM_eq_some_iff {α β : Type} {make : α → β} {look : β → Option α}
    (h : ∀ a b, look b = some a ↔ b = make a) {l : List β} {found : List α} :
    l.mapM look = some found ↔ l = found.map make := by
  constructor
  · intro hl
    induction l generalizing found with
    | nil =>
      cases hl
      rfl
    | cons b l ih =>
      rw [List.mapM_cons] at hl
      obtain ⟨a, ha, hl⟩ := Option.bind_eq_some_iff.1 hl
      obtain ⟨rest, hrest, hfound⟩ := Option.bind_eq_some_iff.1 hl
      cases hfound
      rw [(h a b).1 ha, ih hrest, List.map_cons]
  · rintro rfl
    exact mapM_map_of_forall fun a _ => (h a _).2 rfl

end EpsilonNfa
