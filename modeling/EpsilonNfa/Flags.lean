/-!
The conventions a compilation can be switched between, as a set of two flags. A set has a numeric
form with one bit for each flag, and a form in words.
-/

namespace EpsilonNfa

/-- The conventions in force. -/
structure Flags where
  /-- The empty pattern denotes the empty language and not the empty word. -/
  emptyLanguage : Bool := false
  /-- A star accepts in its own start state and takes no second state. -/
  sharedStar : Bool := false
  deriving DecidableEq, Repr

namespace Flags

/-- No flag is set. -/
def none : Flags := {}

/-- The bit of `emptyLanguage` in the numeric form. -/
def emptyLanguageBit : Nat := 1

/-- The bit of `sharedStar` in the numeric form. -/
def sharedStarBit : Nat := 2

/-- The numeric form. -/
def toBits (flags : Flags) : Nat :=
  flags.emptyLanguage.toNat <<< emptyLanguageBit + flags.sharedStar.toNat <<< sharedStarBit

/-- The flags of a number; bits that mean no flag are dropped. -/
def truncate (bits : Nat) : Flags where
  emptyLanguage := bits.testBit emptyLanguageBit
  sharedStar := bits.testBit sharedStarBit

/-- The flags of a number, unless it has a bit that means no flag. -/
def ofBits? (bits : Nat) : Option Flags :=
  if (truncate bits).toBits = bits then some (truncate bits) else Option.none

/-- The flags of either set. -/
def insert (flags other : Flags) : Flags where
  emptyLanguage := flags.emptyLanguage || other.emptyLanguage
  sharedStar := flags.sharedStar || other.sharedStar

/-- The flags of `flags` that are not in `other`. -/
def remove (flags other : Flags) : Flags where
  emptyLanguage := flags.emptyLanguage && !other.emptyLanguage
  sharedStar := flags.sharedStar && !other.sharedStar

/-- The flags of exactly one of the sets. -/
def toggle (flags other : Flags) : Flags where
  emptyLanguage := flags.emptyLanguage ^^ other.emptyLanguage
  sharedStar := flags.sharedStar ^^ other.sharedStar

/-- Every flag of `other` is in `flags`. -/
def contains (flags other : Flags) : Bool :=
  flags.insert other = flags

/-- The flags in words, in the order of their bits. -/
def describe (flags : Flags) : String :=
  match flags.emptyLanguage, flags.sharedStar with
  | false, false => "NO_FLAG"
  | true, false => "EMPTY_LANGUAGE"
  | false, true => "SHARED_STAR_STATE"
  | true, true => "EMPTY_LANGUAGE | SHARED_STAR_STATE"

@[simp]
theorem truncate_toBits (flags : Flags) : truncate flags.toBits = flags := by
  rcases flags with ⟨_ | _, _ | _⟩ <;> rfl

/-- Exactly the numeric forms of flags have no foreign bit. -/
theorem ofBits?_eq_some_iff {bits : Nat} {flags : Flags} :
    ofBits? bits = some flags ↔ bits = flags.toBits := by
  unfold ofBits?
  constructor
  · intro h
    split at h
    · next hb =>
      cases h
      exact hb.symm
    · cases h
  · rintro rfl
    simp

end Flags

end EpsilonNfa
