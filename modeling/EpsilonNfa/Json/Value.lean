import EpsilonNfa.Lists

/-!
JSON values as they are read. A string is a list of pieces: characters, and halves of surrogate
pairs that an escape names without its partner. Only a string without such halves is a text. An
object keeps its members in order, equal names included, and a number keeps its spelling.
-/

namespace EpsilonNfa.Json

/-- A part of a string: a character, or half of a surrogate pair, from U+D800 to U+DFFF. -/
inductive Piece where
  | char (c : Char)
  | half (code : Nat)
  deriving DecidableEq, Repr

namespace Piece

/-- The piece that a four-digit escape names. -/
def ofCode (code : Nat) : Piece :=
  if 0xd800 ≤ code ∧ code ≤ 0xdfff then half code else char (Char.ofNat code)

/-- The character of a piece that is one. -/
def char? : Piece → Option Char
  | char c => some c
  | half _ => none

theorem char?_char (c : Char) : (char c).char? = some c := rfl

/-- A first half and a second half that follows it become the character of the pair. -/
def joinPairs : List Piece → List Piece
  | half high :: half low :: rest =>
    if high < 0xdc00 ∧ 0xdc00 ≤ low then
      char (Char.ofNat (0x10000 + (high - 0xd800) * 0x400 + (low - 0xdc00))) :: joinPairs rest
    else half high :: joinPairs (half low :: rest)
  | piece :: rest => piece :: joinPairs rest
  | [] => []

end Piece

/-- The content of a string. -/
abbrev Text := List Piece

namespace Text

/-- The content that spells a string of characters. -/
def ofString (s : String) : Text :=
  s.toList.map .char

/-- The string of characters that a content spells, unless a half is left in it. -/
def toString? (text : Text) : Option String :=
  (text.mapM Piece.char?).map String.ofList

theorem mapM_char? (cs : List Char) : (cs.map Piece.char).mapM Piece.char? = some cs :=
  mapM_map_of_forall fun c _ => Piece.char?_char c

@[simp]
theorem toString?_ofString (s : String) : toString? (ofString s) = some s := by
  simp only [toString?, ofString, mapM_char?, Option.map_some, String.ofList_toList]

/-- Characters alone hold no pair that could be joined. -/
theorem joinPairs_map_char (cs : List Char) :
    Piece.joinPairs (cs.map Piece.char) = cs.map Piece.char := by
  induction cs with
  | nil => rfl
  | cons c cs ih => simp [Piece.joinPairs, ih]

end Text

/-- A JSON value. -/
inductive Value where
  | null
  | bool (b : Bool)
  | number (spelling : String)
  | string (text : Text)
  | array (items : List Value)
  | object (members : List (Text × Value))

end EpsilonNfa.Json
