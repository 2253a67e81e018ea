import EpsilonNfa.Fragment.Basic
import Std.Data.TreeMap

/-!
Relabelling a fragment: its listed states get consecutive fresh numbers, and every mention of a
state is looked up among them. When a number is listed twice, its last place counts. A mention of a
state that is not listed has no fresh number, and then there is no relabelled fragment.

`freshId?` says which number is whose; for the look-ups it is tabulated once for each fragment.
-/

namespace EpsilonNfa

/-- The fresh number of `id` when the states `ids` are numbered from `base` on: that of the last
    place where it is listed. -/
def freshId? (base : Nat) : List Nat → Nat → Option Nat
  | [], _ => none
  | listed :: rest, id =>
    match freshId? (base + 1) rest id with
    | some fresh => some fresh
    | none => if listed = id then some base else none

/-- Exactly the listed states have a fresh number. -/
theorem freshId?_isSome_iff {base : Nat} {ids : List Nat} {id : Nat} :
    (freshId? base ids id).isSome ↔ id ∈ ids := by
  induction ids generalizing base with
  | nil => simp [freshId?]
  | cons listed rest ih =>
    rw [freshId?, List.mem_cons, ← @ih (base + 1)]
    by_cases hid : listed = id
    · subst hid
      cases freshId? (base + 1) rest listed <;> simp
    · have : ¬ id = listed := fun h => hid h.symm
      cases freshId? (base + 1) rest id <;> simp [hid, this]

/-- The fresh numbers are those from `base` on, one for each place of the list. -/
theorem freshId?_bounds {base : Nat} {ids : List Nat} {id fresh : Nat}
    (h : freshId? base ids id = some fresh) : base ≤ fresh ∧ fresh < base + ids.length := by
  induction ids generalizing base with
  | nil => simp [freshId?] at h
  | cons listed rest ih =>
    rw [freshId?] at h
    split at h
    · next k hk =>
      cases h
      have := ih hk
      simp only [List.length_cons]
      omega
    · split at h
      · cases h
        simp
      · cases h

/-- Different states have different fresh numbers. -/
theorem freshId?_injective {base : Nat} {ids : List Nat} {id id' fresh : Nat}
    (h : freshId? base ids id = some fresh) (h' : freshId? base ids id' = some fresh) :
    id = id' := by
  induction ids generalizing base with
  | nil => simp [freshId?] at h
  | cons listed rest ih =>
    rw [freshId?] at h h'
    split at h
    · next k hk =>
      cases h
      have := freshId?_bounds hk
      split at h'
      · next k' hk' =>
        cases h'
        exact ih hk hk'
      · split at h'
        · cases h'
          omega
        · cases h'
    · split at h
      · next hid =>
        cases h
        split at h'
        · next k' hk' =>
          cases h'
          have := freshId?_bounds hk'
          omega
        · split at h'
          · next hid' => exact hid.symm.trans hid'
          · cases h'
      · cases h

/-! ### Tabulating -/

/-- A table with the states `ids` numbered from `base` on; later places overwrite earlier ones. -/
def tabulate (table : Std.TreeMap Nat Nat) (base : Nat) : List Nat → Std.TreeMap Nat Nat
  | [] => table
  | id :: rest => tabulate (table.insert id base) (base + 1) rest

theorem getElem?_tabulate (table : Std.TreeMap Nat Nat) (base : Nat) (ids : List Nat) (id : Nat) :
    (tabulate table base ids)[id]? = (freshId? base ids id).or table[id]? := by
  induction ids generalizing table base with
  | nil => simp [tabulate, freshId?]
  | cons listed rest ih =>
    rw [tabulate, freshId?, ih, Std.TreeMap.getElem?_insert]
    cases freshId? (base + 1) rest id with
    | some fresh => rfl
    | none => by_cases h : listed = id <;> simp [h]

/-! ### Fragments -/

/-- A transition with both ends looked up. -/
def Transition.relabel? (fresh? : Nat → Option Nat) (t : Transition) : Option Transition := do
  return ⟨← fresh? t.source, t.symbol, ← fresh? t.target⟩

namespace Fragment

/-- A fragment with every mention of a state looked up. -/
def translate? (fresh? : Nat → Option Nat) (f : Fragment) : Option Fragment := do
  let start ← fresh? f.start
  let accept ← f.accept.mapM fresh?
  let states ← f.states.mapM fun state => return { state with id := ← fresh? state.id }
  let transitions ← f.transitions.mapM (Transition.relabel? fresh?)
  return ⟨start, accept, states, transitions⟩

/-- The fragment on the fresh numbers from `base` on. -/
def relabel? (base : Nat) (f : Fragment) : Option Fragment :=
  let table := tabulate ∅ base f.ids
  f.translate? fun id => table[id]?

/-- The table holds exactly the fresh numbers. -/
theorem relabel?_eq (base : Nat) (f : Fragment) :
    f.relabel? base = f.translate? (freshId? base f.ids) := by
  simp only [relabel?, getElem?_tabulate, Std.TreeMap.getElem?_emptyc, Option.or_none]

end Fragment

end EpsilonNfa
