import EpsilonNfa.Proofs.Json.Writing
import EpsilonNfa.Table

/-!
A table is read from its text. The text is that of a JSON value which can be written, since all that
a table holds are strings of characters; and the value holds the table: every list is found under its
name, in its order, and the letters in increasing order are the set that they came from. Any lists
will do, whether they are the table of an automaton or not.

    table ── toValue ──▶ value ── render ──▶ text
      ◀──── ofValue? ───   ◀──── parse? ────
-/

namespace EpsilonNfa

open Json

/-- A set is made of its elements. -/
theorem OrderedSet.ofList_toList (s : OrderedSet String) : ofList s.toList = s :=
  eq_of_mem_iff fun _ => mem_ofList

namespace Json

/-- Strings in a list can be written. -/
theorem Value.writable_ofStrings (strings : List String) : (ofStrings strings).Writable := by
  refine .array fun item hitem => ?_
  obtain ⟨s, -, rfl⟩ := List.mem_map.1 hitem
  exact .string (Text.writable_ofString s)

/-- Names that are strings are found as such. -/
theorem namedMembers?_zip (names : List String) (values : List Value) :
    namedMembers? ((names.map Text.ofString).zip values) = some (names.zip values) := by
  rw [List.zip_map_left]
  refine mapM_map_of_forall fun member _ => ?_
  obtain ⟨name, value⟩ := member
  simp

end Json

namespace Table

/-! ### The value of a table -/

theorem move?_moveValue (move : Move) : move? (moveValue move) = some move := by
  rw [move?, moveValue, Value.strings?_ofStrings]

theorem ofMemberValues?_memberValues (table : Table) :
    ofMemberValues? table.memberValues = some table := by
  have hmoves : (table.moves.map moveValue).mapM move? = some table.moves :=
    mapM_map_of_forall fun move _ => move?_moveValue move
  simp [memberValues, ofMemberValues?, Value.items?, hmoves, OrderedSet.ofList_toList]

/-- The five names are different, so each leads to its own value. -/
theorem mapM_only?_memberNames (table : Table) :
    memberNames.mapM (only? (memberNames.zip table.memberValues)) = some table.memberValues :=
  rfl

/-- The value of a table holds the table. -/
theorem ofValue?_toValue (table : Table) : ofValue? table.toValue = some table := by
  simp only [toValue, ofValue?, namedMembers?_zip, Option.bind_eq_bind, Option.bind_some,
    mapM_only?_memberNames, ofMemberValues?_memberValues]

/-! ### The text of a table -/

theorem writable_memberValues (table : Table) : ∀ value ∈ table.memberValues, value.Writable := by
  have hmoves : (Value.array (table.moves.map moveValue)).Writable := by
    refine .array fun item hitem => ?_
    obtain ⟨move, -, rfl⟩ := List.mem_map.1 hitem
    exact Value.writable_ofStrings _
  simp [memberValues, Value.writable_ofStrings, hmoves]

theorem writable_toValue (table : Table) : table.toValue.Writable := by
  refine .object (fun member hmember => ?_) fun member hmember => ?_
  · obtain ⟨name, -, hname⟩ := List.mem_map.1 (List.of_mem_zip hmember).1
    exact hname ▸ Text.writable_ofString name
  · exact table.writable_memberValues _ (List.of_mem_zip hmember).2

/-- Every table is read from its text, whatever strings it holds. -/
theorem parse?_render (table : Table) : parse? table.render = some table := by
  rw [parse?, render, table.writable_toValue.parse?_eq, Option.bind_some, ofValue?_toValue]

end Table

end EpsilonNfa
