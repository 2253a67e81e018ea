import EpsilonNfa.Proofs.Json.Printing

/-!
What a context takes. The lexemes of a value bring a context in which a value may stand to the one in
which the value is complete (`run_lexemes`), and no other lexemes do that: a context keeps all that it
has read, so the lexemes before it can be told from it (`Reads`).

    lexemes      [        "a"        ,          0         ]
    ready []  ▶  firstItem  ▶  nextItem  ▶  ready  ▶  nextItem  ▶  complete

Together, a value and the lexemes that lead to it determine each other (`run_eq_complete_iff`).
-/

namespace EpsilonNfa.Json

/-! ### Passing the lexemes of a value -/

namespace Context

/-- The context after some lexemes. -/
def run (context : Context) : List Lexeme → Option Context
  | [] => some context
  | l :: ls => (context.step l).bind (run · ls)

/-- No value begins with the end of an array. -/
theorem lexemes_eq_cons (v : Value) : ∃ l ls, v.lexemes = l :: ls ∧ l ≠ .closeArray := by
  unfold Value.lexemes
  split <;> exact ⟨_, _, rfl, nofun⟩

/-- Where an array may end, its first item may begin as well. -/
theorem run_firstItem (stack : List Frame) (v : Value) (rest : List Lexeme) :
    (firstItem stack).run (v.lexemes ++ rest) =
      (ready (.array [] :: stack)).run (v.lexemes ++ rest) := by
  obtain ⟨l, ls, hlexemes, hl⟩ := lexemes_eq_cons v
  have hstep : (firstItem stack).step l = (ready (.array [] :: stack)).step l := by
    cases l with
    | closeArray => exact absurd rfl hl
    | _ => rfl
  rw [hlexemes, List.cons_append, run, run, hstep]

mutual

/-- The lexemes of a value leave the context in which it is complete. -/
theorem run_lexemes (v : Value) (stack : List Frame) (rest : List Lexeme) :
    (ready stack).run (v.lexemes ++ rest) = (close v stack).run rest := by
  match v with
  | .null => rfl
  | .bool _ => rfl
  | .number _ => rfl
  | .string _ => rfl
  | .array [] => rfl
  | .array (item :: items) =>
    show (firstItem stack).run (item.lexemes ++ (itemLexemes items ++ [.closeArray]) ++ rest) = _
    rw [List.append_assoc, run_firstItem, run_lexemes item, List.append_assoc]
    show (nextItem [item] stack).run _ = _
    rw [run_itemLexemes items]
    show (close (.array (items.reverse ++ [item]).reverse) stack).run rest = _
    simp
  | .object [] => rfl
  | .object ((name, value) :: members) =>
    show (ready (.object [] name :: stack)).run
      (value.lexemes ++ (memberLexemes members ++ [.closeObject]) ++ rest) = _
    rw [List.append_assoc, run_lexemes value, List.append_assoc]
    show (nextMember [(name, value)] stack).run _ = _
    rw [run_memberLexemes members]
    show (close (.object (members.reverse ++ [(name, value)]).reverse) stack).run rest = _
    simp

theorem run_itemLexemes (items : List Value) (before : List Value) (stack : List Frame)
    (rest : List Lexeme) : (nextItem before stack).run (itemLexemes items ++ rest) =
      (nextItem (items.reverse ++ before) stack).run rest := by
  match items with
  | [] => rfl
  | item :: items =>
    show (ready (.array before :: stack)).run (item.lexemes ++ itemLexemes items ++ rest) = _
    rw [List.append_assoc, run_lexemes item]
    show (nextItem (item :: before) stack).run _ = _
    rw [run_itemLexemes items]
    simp

theorem run_memberLexemes (members : List (Text × Value)) (before : List (Text × Value))
    (stack : List Frame) (rest : List Lexeme) :
    (nextMember before stack).run (memberLexemes members ++ rest) =
      (nextMember (members.reverse ++ before) stack).run rest := by
  match members with
  | [] => rfl
  | (name, value) :: members =>
    show (ready (.object before name :: stack)).run
      (value.lexemes ++ memberLexemes members ++ rest) = _
    rw [List.append_assoc, run_lexemes value]
    show (nextMember ((name, value) :: before) stack).run _ = _
    rw [run_memberLexemes members]
    simp

end

/-- In the beginning, the lexemes of a value complete it. -/
theorem run_lexemes_eq_complete (v : Value) : (ready []).run v.lexemes = some (complete v) := by
  have := run_lexemes v [] []
  rwa [List.append_nil] at this

end Context

/-! ### The lexemes before a context -/

/-- The lexemes of some items, each with the comma behind it; the items come latest first. -/
def separatedItems (items : List Value) : List Lexeme :=
  items.reverse.flatMap fun item => item.lexemes ++ [.comma]

/-- The lexemes of some members, each with the comma behind it; the members come latest first. -/
def separatedMembers (members : List (Text × Value)) : List Lexeme :=
  members.reverse.flatMap fun member =>
    .string member.1 :: .colon :: (member.2.lexemes ++ [.comma])

/-- The lexemes of a container up to the value that it waits for. -/
def Frame.lexemes : Frame → List Lexeme
  | array items => .openArray :: separatedItems items
  | object members name => .openObject :: (separatedMembers members ++ [.string name, .colon])

/-- The lexemes of the open containers, the innermost last. -/
def opened (stack : List Frame) : List Lexeme :=
  stack.reverse.flatMap Frame.lexemes

theorem opened_cons (frame : Frame) (stack : List Frame) :
    opened (frame :: stack) = opened stack ++ frame.lexemes := by
  simp [opened]

theorem itemLexemes_append (items : List Value) (last : Value) :
    itemLexemes (items ++ [last]) =
      .comma :: (items.flatMap (fun item => item.lexemes ++ [.comma]) ++ last.lexemes) := by
  induction items with
  | nil => simp [itemLexemes]
  | cons item items ih => simp [itemLexemes, ih]

theorem lexemes_array (before : List Value) (last : Value) :
    (Value.array (last :: before).reverse).lexemes =
      .openArray :: (separatedItems before ++ last.lexemes) ++ [.closeArray] := by
  rw [List.reverse_cons, separatedItems]
  cases before.reverse with
  | nil => simp [Value.lexemes, itemLexemes]
  | cons item items => simp [Value.lexemes, itemLexemes_append]

theorem memberLexemes_append (members : List (Text × Value)) (name : Text) (value : Value) :
    memberLexemes (members ++ [(name, value)]) =
      .comma :: (members.flatMap (fun member =>
        .string member.1 :: .colon :: (member.2.lexemes ++ [.comma])) ++
          .string name :: .colon :: value.lexemes) := by
  induction members with
  | nil => simp [memberLexemes]
  | cons member members ih => simp [memberLexemes, ih]

theorem lexemes_object (before : List (Text × Value)) (name : Text) (value : Value) :
    (Value.object ((name, value) :: before).reverse).lexemes =
      .openObject :: (separatedMembers before ++ .string name :: .colon :: value.lexemes) ++
        [.closeObject] := by
  rw [List.reverse_cons, separatedMembers]
  cases before.reverse with
  | nil => simp [Value.lexemes, memberLexemes]
  | cons member members => simp [Value.lexemes, memberLexemes_append]

namespace Context

/-- `context.Reads ls`: the context stands behind the lexemes `ls`. -/
inductive Reads : Context → List Lexeme → Prop where
  | ready {stack : List Frame} : Reads (ready stack) (opened stack)
  | firstItem {stack : List Frame} : Reads (firstItem stack) (opened stack ++ [.openArray])
  | nextItem {last : Value} {before : List Value} {stack : List Frame} :
      Reads (nextItem (last :: before) stack)
        (opened stack ++ .openArray :: (separatedItems before ++ last.lexemes))
  | firstName {stack : List Frame} : Reads (firstName stack) (opened stack ++ [.openObject])
  | nextName {members : List (Text × Value)} {stack : List Frame} :
      Reads (nextName members stack) (opened stack ++ .openObject :: separatedMembers members)
  | colon {members : List (Text × Value)} {name : Text} {stack : List Frame} :
      Reads (colon members name stack)
        (opened stack ++ .openObject :: (separatedMembers members ++ [.string name]))
  | nextMember {name : Text} {value : Value} {before : List (Text × Value)} {stack : List Frame} :
      Reads (nextMember ((name, value) :: before) stack)
        (opened stack ++
          .openObject :: (separatedMembers before ++ .string name :: .colon :: value.lexemes))
  | complete {value : Value} : Reads (complete value) value.lexemes

variable {context context' : Context} {before ls : List Lexeme} {l : Lexeme}

/-- Behind a complete value. -/
theorem reads_close (value : Value) (stack : List Frame) :
    (close value stack).Reads (opened stack ++ value.lexemes) := by
  cases stack with
  | nil => exact .complete
  | cons frame stack =>
    rw [opened_cons, List.append_assoc]
    cases frame with
    | array items => exact .nextItem
    | object members name =>
      have := @Reads.nextMember name value members stack
      rwa [Frame.lexemes, List.cons_append, List.append_assoc]

/-- A word that is spelled is a value of one lexeme. -/
theorem lexemes_of_spelled {v : Value} {xs : List Char} (h : (Lexeme.word v).Spelled xs) :
    v.lexemes = [.word v] := by
  cases h <;> rfl

/-- Behind the lexeme that a value begins with. -/
theorem reads_begin {stack : List Frame} {xs : List Char} (hl : l.Spelled xs)
    (h : begin stack l = some context') : context'.Reads (opened stack ++ [l]) := by
  cases l with
  | openArray =>
    cases h
    exact .firstItem
  | openObject =>
    cases h
    exact .firstName
  | string text =>
    cases h
    exact reads_close (.string text) stack
  | word value =>
    cases h
    rw [← lexemes_of_spelled hl]
    exact reads_close value stack
  | _ => cases h

/-- One lexeme more. -/
theorem Reads.step {xs : List Char} (h : context.Reads before) (hl : l.Spelled xs)
    (hstep : context.step l = some context') : context'.Reads (before ++ [l]) := by
  cases h with
  | ready => exact reads_begin hl hstep
  | @firstItem stack =>
    have hbegin (h : begin (.array [] :: stack) l = some context') :
        context'.Reads (opened stack ++ [.openArray] ++ [l]) := by
      have := reads_begin hl h
      rwa [opened_cons] at this
    cases l with
    | closeArray =>
      cases hstep
      rw [List.append_assoc]
      exact reads_close (.array []) stack
    | _ => exact hbegin hstep
  | @nextItem last before stack =>
    cases l with
    | comma =>
      cases hstep
      have := @Reads.ready (.array (last :: before) :: stack)
      simpa [opened_cons, Frame.lexemes, separatedItems] using this
    | closeArray =>
      cases hstep
      have := reads_close (.array (last :: before).reverse) stack
      rw [lexemes_array] at this
      simpa using this
    | _ => cases hstep
  | @firstName stack =>
    cases l with
    | closeObject =>
      cases hstep
      rw [List.append_assoc]
      exact reads_close (.object []) stack
    | string name =>
      cases hstep
      have := @Reads.colon [] name stack
      simpa [separatedMembers] using this
    | _ => cases hstep
  | @nextName members stack =>
    cases l with
    | string name =>
      cases hstep
      rw [List.append_assoc]
      exact .colon
    | _ => cases hstep
  | @colon members name stack =>
    cases l with
    | colon =>
      cases hstep
      have := @Reads.ready (.object members name :: stack)
      simpa [opened_cons, Frame.lexemes] using this
    | _ => cases hstep
  | @nextMember name value before stack =>
    cases l with
    | comma =>
      cases hstep
      have := @Reads.nextName ((name, value) :: before) stack
      simpa [separatedMembers] using this
    | closeObject =>
      cases hstep
      have := reads_close (.object ((name, value) :: before).reverse) stack
      rw [lexemes_object] at this
      simpa using this
    | _ => cases hstep
  | complete => cases hstep

/-- All lexemes that a text spells. -/
theorem Reads.run {cs : List Char} (h : context.Reads before) (hls : Printed ls cs)
    (hrun : context.run ls = some context') : context'.Reads (before ++ ls) := by
  induction hls generalizing context before with
  | nil =>
    cases hrun
    rwa [List.append_nil]
  | blank _ _ ih => exact ih h hrun
  | @cons l ls _ _ hl _ ih =>
    obtain ⟨next, hstep, hrest⟩ := Option.bind_eq_some_iff.1 hrun
    have := ih (h.step hl hstep) hrest
    rwa [List.append_assoc] at this

/-- From the beginning, the lexemes of a value lead to it, and no others do. -/
theorem run_eq_complete_iff {v : Value} {cs : List Char} (hls : Printed ls cs) :
    (Context.ready []).run ls = some (complete v) ↔ ls = v.lexemes := by
  constructor
  · intro hrun
    have h : (complete v).Reads ls := Reads.ready.run hls hrun
    cases h
    rfl
  · rintro rfl
    exact run_lexemes_eq_complete v

end Context

end EpsilonNfa.Json
