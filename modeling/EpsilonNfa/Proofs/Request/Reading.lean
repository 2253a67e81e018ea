import EpsilonNfa.Proofs.Json.Recognition
import EpsilonNfa.Request

/-!
Which values ask for a pattern. A request names it under `regex`, or has it as its only item; without
a pattern, or with null, it asks for the empty one:

    {}   {"a": [{"regex": 0}]}   {"regex": null}   []   [null]     the empty pattern
    {"regex": "a*"}   {"b": 1, "regex": "a*"}   ["a*"]             a*
    {"regex": "a", "regex": null}   {"regex": 1}   ["a", "b"]      no request

Every text that prints such a value is read as the request, whatever its blanks and escapes, and a
text that prints any other value is refused (`parse?_iff_requests`). A text that prints no value at
all is refused as well (`parse?_eq_none_iff`).
-/

namespace EpsilonNfa

open Json

namespace Json

theorem Piece.char?_eq_some_iff (c : Char) (p : Piece) : p.char? = some c ↔ p = .char c := by
  cases p <;> simp [Piece.char?]

/-- A content spells a string when it is made of the string's characters. -/
theorem Text.toString?_eq_some_iff (s : String) (text : Text) :
    text.toString? = some s ↔ text = .ofString s := by
  have hchars (cs : List Char) : text.mapM Piece.char? = some cs ↔ text = cs.map .char :=
    mapM_eq_some_iff Piece.char?_eq_some_iff
  rw [toString?, Option.map_eq_some_iff]
  simp only [hchars]
  constructor
  · rintro ⟨cs, rfl, rfl⟩
    rw [ofString, String.toList_ofList]
  · rintro rfl
    exact ⟨s.toList, rfl, String.ofList_toList⟩

/-- A member with a string as its name. -/
def member (named : String × Value) : Text × Value :=
  (.ofString named.1, named.2)

theorem namedMembers?_eq_some_iff {members : List (Text × Value)} {named : List (String × Value)} :
    namedMembers? members = some named ↔ members = named.map member := by
  refine mapM_eq_some_iff fun (name, value) (text, value') => ?_
  simp only [Option.bind_eq_bind, Option.pure_def, Option.bind_eq_some_iff,
    Text.toString?_eq_some_iff, member, Option.some.injEq, Prod.mk.injEq]
  constructor
  · rintro ⟨_, rfl, rfl, rfl⟩
    exact ⟨rfl, rfl⟩
  · rintro ⟨rfl, rfl⟩
    exact ⟨name, rfl, rfl, rfl⟩

variable {name : String} {members : List (String × Value)} {value : Value}

theorem valuesOf_eq_nil_iff : valuesOf name members = [] ↔ ∀ m ∈ members, m.1 ≠ name := by
  simp [valuesOf]

/-- A name stands for one value alone when one member has the name and none before or after it. -/
theorem valuesOf_eq_singleton_iff : valuesOf name members = [value] ↔
    ∃ before after, members = before ++ (name, value) :: after ∧
      (∀ m ∈ before, m.1 ≠ name) ∧ ∀ m ∈ after, m.1 ≠ name := by
  rw [valuesOf, List.map_eq_singleton_iff]
  constructor
  · rintro ⟨⟨_, _⟩, hfilter, rfl⟩
    obtain ⟨before, after, rfl, hbefore, hname, hafter⟩ := List.filter_eq_cons_iff.1 hfilter
    obtain rfl := of_decide_eq_true hname
    refine ⟨before, after, rfl, fun m hm => by simpa using hbefore m hm, fun m hm => ?_⟩
    simpa using List.filter_eq_nil_iff.1 hafter m hm
  · rintro ⟨before, after, rfl, hbefore, hafter⟩
    refine ⟨(name, value), List.filter_eq_cons_iff.2 ⟨before, after, rfl, ?_, ?_, ?_⟩, rfl⟩
    · simpa using hbefore
    · simp
    · simpa using hafter

/-! ### Asking for a pattern -/

/-- What a value gives as a pattern: a string gives itself, and null the empty one. -/
inductive Value.Gives : Value → String → Prop where
  | null : Gives .null ""
  | string (s : String) : Gives (.string (.ofString s)) s

/-- `v.Requests p`: the value `v` asks for the pattern `p`. Names and patterns are strings of
    characters here, so that half of a surrogate pair is allowed in neither; in the values of other
    members it is. -/
inductive Value.Requests : Value → String → Prop where
  /-- No member has the name. -/
  | absent {members : List (String × Value)} : (∀ m ∈ members, m.1 ≠ "regex") →
      Requests (.object (members.map member)) ""
  /-- One member has the name, and no other before or after it. -/
  | named {before after : List (String × Value)} {value : Value} {p : String} :
      (∀ m ∈ before, m.1 ≠ "regex") → (∀ m ∈ after, m.1 ≠ "regex") → value.Gives p →
      Requests (.object ((before ++ ("regex", value) :: after).map member)) p
  /-- An array holds no pattern, or nothing else. -/
  | empty : Requests (.array []) ""
  | item {value : Value} {p : String} : value.Gives p → Requests (.array [value]) p

end Json

namespace Request

variable {v : Value} {p : String}

theorem ofPattern?_iff :
    (∃ request, ofPattern? v = some request ∧ request.pattern = p) ↔ v.Gives p := by
  constructor
  · rintro ⟨request, hrequest, rfl⟩
    cases v with
    | null =>
      cases hrequest
      exact .null
    | string text =>
      obtain ⟨s, hs, rfl⟩ := Option.map_eq_some_iff.1 hrequest
      rw [(Text.toString?_eq_some_iff s text).1 hs]
      exact .string s
    | _ => cases hrequest
  · intro h
    cases h with
    | null => exact ⟨⟨none⟩, rfl, rfl⟩
    | string =>
      refine ⟨⟨some p⟩, ?_, rfl⟩
      rw [ofPattern?, Value.text?_string_ofString, Option.map_some]
      exact nofun

theorem ofValues?_iff {values : List Value} :
    (∃ request, ofValues? values = some request ∧ request.pattern = p) ↔
      values = [] ∧ p = "" ∨ ∃ value, values = [value] ∧ value.Gives p := by
  match values with
  | [] => simp [ofValues?, pattern, eq_comm]
  | [value] => simp [ofValues?, ofPattern?_iff]
  | _ :: _ :: _ => simp [ofValues?]

theorem ofValue?_array_iff {items : List Value} :
    (∃ request, ofValue? (.array items) = some request ∧ request.pattern = p) ↔
      (Value.array items).Requests p := by
  rw [ofValue?, ofValues?_iff]
  constructor
  · rintro (⟨rfl, rfl⟩ | ⟨value, rfl, hvalue⟩)
    · exact .empty
    · exact .item hvalue
  · intro h
    cases h with
    | empty => exact .inl ⟨rfl, rfl⟩
    | item hvalue => exact .inr ⟨_, rfl, hvalue⟩

theorem ofValue?_object_iff {members : List (Text × Value)} :
    (∃ request, ofValue? (.object members) = some request ∧ request.pattern = p) ↔
      (Value.object members).Requests p := by
  have hsplit : (∃ request, ofValue? (.object members) = some request ∧ request.pattern = p) ↔
      ∃ named : List (String × Value), members = named.map member ∧
        ∃ request, ofValues? (valuesOf "regex" named) = some request ∧ request.pattern = p := by
    simp only [ofValue?, Option.bind_eq_some_iff, namedMembers?_eq_some_iff]
    constructor
    · rintro ⟨request, ⟨named, hnamed, hrequest⟩, hp⟩
      exact ⟨named, hnamed, request, hrequest, hp⟩
    · rintro ⟨named, hnamed, request, hrequest, hp⟩
      exact ⟨request, ⟨named, hnamed, hrequest⟩, hp⟩
  simp only [hsplit, ofValues?_iff, valuesOf_eq_nil_iff, valuesOf_eq_singleton_iff]
  constructor
  · rintro ⟨named, rfl, ⟨habsent, rfl⟩ | ⟨value, ⟨before, after, rfl, hbefore, hafter⟩, hvalue⟩⟩
    · exact .absent habsent
    · exact .named hbefore hafter hvalue
  · intro h
    cases h with
    | absent habsent => exact ⟨_, rfl, .inl ⟨habsent, rfl⟩⟩
    | named hbefore hafter hvalue =>
      exact ⟨_, rfl, .inr ⟨_, ⟨_, _, rfl, hbefore, hafter⟩, hvalue⟩⟩

/-- A value is a request for a pattern exactly when it asks for it. -/
theorem ofValue?_iff :
    (∃ request, ofValue? v = some request ∧ request.pattern = p) ↔ v.Requests p := by
  cases v with
  | array items => exact ofValue?_array_iff
  | object members => exact ofValue?_object_iff
  | _ =>
    constructor
    · rintro ⟨_, hnone, -⟩
      cases hnone
    · exact nofun

/-- A text that prints a value is read as a request exactly when the value asks for a pattern, and
    then that is the pattern of the request, whatever blanks stand in the text and whichever escapes
    spell its strings. -/
theorem parse?_iff_requests {text : String} (h : v.Prints text) (p : String) :
    (∃ request, parse? text = some request ∧ request.pattern = p) ↔ v.Requests p := by
  rw [parse?, Value.parse?_of_prints h, Option.bind_some, ofValue?_iff]

/-- The member is found behind one that holds an object with the same name; a letter of its name and
    its only character are written by number, the latter as a pair. -/
theorem parse?_iff_requests_escaped :
    (Value.object [(.ofString "r", .array [.object [(.ofString "regex", .null)]]),
      (.ofString "regex", .string (.ofString "😀"))]).Prints
        "\x7b\"r\":[\x7b\"regex\":null\x7d] ,\"r\\u0065gex\": \"\\ud83D\\ude00\"\x7d" ∧
    ∃ request, parse?
        "\x7b\"r\":[\x7b\"regex\":null\x7d] ,\"r\\u0065gex\": \"\\ud83D\\ude00\"\x7d" =
          some request ∧ request.pattern = "😀" := by
  have hraw (c : Char) (h : c ∈ ['r', 'e', 'g', 'x']) : (Piece.char c).Spelled [c] := by
    simp only [List.mem_cons, List.not_mem_nil, or_false] at h
    rcases h with rfl | rfl | rfl | rfl <;> exact .raw (by decide) (by decide) (by decide)
  have hr : (Lexeme.string (.ofString "r")).Spelled ['"', 'r', '"'] :=
    .string (.cons (hraw 'r' (by simp)) .nil) (joined_ofString "r")
  have hgex : SpelledOut [.char 'g', .char 'e', .char 'x'] ['g', 'e', 'x'] :=
    .cons (hraw 'g' (by simp)) (.cons (hraw 'e' (by simp)) (.cons (hraw 'x' (by simp)) .nil))
  have hregex : (Lexeme.string (.ofString "regex")).Spelled
      ['"', 'r', 'e', 'g', 'e', 'x', '"'] :=
    .string (.cons (hraw 'r' (by simp)) (.cons (hraw 'e' (by simp)) hgex)) (joined_ofString "regex")
  have he : NumberEscape 'e'.toNat ['\\', 'u', '0', '0', '6', '5'] :=
    @NumberEscape.digits 0 0 6 5 _ _ _ _ (.inl rfl) (.inl rfl) (.inl rfl) (.inl rfl)
  have hescaped : (Lexeme.string (.ofString "regex")).Spelled
      ['"', 'r', '\\', 'u', '0', '0', '6', '5', 'g', 'e', 'x', '"'] :=
    .string (.cons (hraw 'r' (by simp)) (.cons (.numbered he) hgex)) (joined_ofString "regex")
  have hhigh : NumberEscape 0xd83d ['\\', 'u', 'd', '8', '3', 'D'] :=
    @NumberEscape.digits 13 8 3 13 _ _ _ _ (.inl rfl) (.inl rfl) (.inl rfl) (.inr rfl)
  have hlow : NumberEscape 0xde00 ['\\', 'u', 'd', 'e', '0', '0'] :=
    @NumberEscape.digits 13 14 0 0 _ _ _ _ (.inl rfl) (.inl rfl) (.inl rfl) (.inl rfl)
  have hfirst : IsFirstHalf 0xd83d := ⟨by decide, by decide⟩
  have hsecond : IsSecondHalf 0xde00 := ⟨by decide, by decide⟩
  have hpair : (Lexeme.string (.ofString "😀")).Spelled
      ['"', '\\', 'u', 'd', '8', '3', 'D', '\\', 'u', 'd', 'e', '0', '0', '"'] :=
    .string (.cons (.half (.inl hfirst) hhigh) (.cons (.half (.inr hsecond) hlow) .nil))
      (.pair hfirst hsecond rfl .nil)
  have hblank : IsBlank ' ' := by simp [IsBlank]
  have hprints : (Value.object [(.ofString "r", .array [.object [(.ofString "regex", .null)]]),
      (.ofString "regex", .string (.ofString "😀"))]).Prints
        "\x7b\"r\":[\x7b\"regex\":null\x7d] ,\"r\\u0065gex\": \"\\ud83D\\ude00\"\x7d" := by
    have hmember : Printed [.string (.ofString "regex"), .colon, .string (.ofString "😀"),
        .closeObject] "\"r\\u0065gex\": \"\\ud83D\\ude00\"\x7d".toList :=
      .cons hescaped (.cons .colon (.blank hblank (.cons hpair (.cons .closeObject .nil))))
    exact .cons .openObject (.cons hr (.cons .colon (.cons .openArray (.cons .openObject
      (.cons hregex (.cons .colon (.cons .null (.cons .closeObject (.cons .closeArray
        (.blank hblank (.cons .comma hmember)))))))))))
  have habsent : ∀ m ∈ [("r", Value.array [.object [(.ofString "regex", .null)]])],
      m.1 ≠ "regex" := by simp
  have hnone : ∀ m ∈ ([] : List (String × Value)), m.1 ≠ "regex" := by simp
  exact ⟨hprints, (parse?_iff_requests hprints "😀").2 (.named habsent hnone (.string "😀"))⟩

/-- What a text is read as: it prints a value, and the value asks for the pattern. -/
theorem exists_parse?_iff {text : String} :
    (∃ request, parse? text = some request ∧ request.pattern = p) ↔
      ∃ v : Value, v.Prints text ∧ v.Requests p := by
  simp only [parse?, Option.bind_eq_some_iff, Value.parse?_eq_some_iff, ← ofValue?_iff]
  constructor
  · rintro ⟨request, ⟨v, hv, hrequest⟩, hp⟩
    exact ⟨v, hv, request, hrequest, hp⟩
  · rintro ⟨v, hv, request, hrequest, hp⟩
    exact ⟨request, ⟨v, hv, hrequest⟩, hp⟩

/-- A text is refused exactly when it prints no value that asks for a pattern; so every text that is
    no JSON is. -/
theorem parse?_eq_none_iff {text : String} :
    parse? text = none ↔ ∀ v : Value, v.Prints text → ∀ p, ¬ v.Requests p := by
  rw [Option.eq_none_iff_forall_ne_some]
  constructor
  · intro h v hv p hp
    obtain ⟨request, hrequest, -⟩ := exists_parse?_iff.2 ⟨v, hv, hp⟩
    exact h request hrequest
  · intro h request hrequest
    obtain ⟨v, hv, hp⟩ := exists_parse?_iff.1 ⟨request, hrequest, rfl⟩
    exact h v hv _ hp

end Request

end EpsilonNfa
