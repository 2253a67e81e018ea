import EpsilonNfa.Text.Printable

/-!
Quoted text for diagnostics. A character or a string stands between quotes; inside them the quote
itself, the backslash and the four short controls get a backslash, every other character that is
not printable is written by its number in braces, and the rest stands for itself. A character is
quoted by `'`, a string by `"`, and neither escapes the quote of the other.
-/

namespace EpsilonNfa.Text

/-- A character written by its number, `\u` and the lower-case hexadecimal digits in braces. -/
def numbered (c : Char) : List Char :=
  ['\\', 'u', '{'] ++ Nat.toDigits 16 c.toNat ++ ['}']

/-- One character as it is written between two marks `quote`. -/
def escape (quote c : Char) : List Char :=
  if c = '\x00' then ['\\', '0']
  else if c = '\t' then ['\\', 't']
  else if c = '\r' then ['\\', 'r']
  else if c = '\n' then ['\\', 'n']
  else if c = '\\' then ['\\', '\\']
  else if c = quote then ['\\', quote]
  else if isPrintable c then [c]
  else numbered c

/-- A character between single quotes. -/
def quotedChar (c : Char) : String :=
  String.ofList ('\'' :: escape '\'' c ++ ['\''])

/-- A string between double quotes. -/
def quoted (s : String) : String :=
  String.ofList ('"' :: s.toList.flatMap (escape '"') ++ ['"'])

/-- A hexadecimal digit is at least `0` in code point order. -/
theorem le_toNat_digitChar (n : Nat) : 0x2a ≤ (Nat.digitChar n).toNat := by
  by_cases h : n < 16
  · revert n
    decide
  · unfold Nat.digitChar
    repeat rw [if_neg (by omega)]
    decide

theorem le_toNat_of_mem_toDigitsCore (b fuel n : Nat) (ds : List Char)
    (hds : ∀ c ∈ ds, 0x2a ≤ c.toNat) : ∀ c ∈ Nat.toDigitsCore b fuel n ds, 0x2a ≤ c.toNat := by
  induction fuel generalizing n ds with
  | zero => simpa [Nat.toDigitsCore] using hds
  | succ fuel ih =>
    have hcons : ∀ c ∈ Nat.digitChar (n % b) :: ds, 0x2a ≤ c.toNat := by
      intro c hc
      rcases List.mem_cons.1 hc with rfl | hc
      · exact le_toNat_digitChar _
      · exact hds c hc
    rw [Nat.toDigitsCore]
    split
    · exact hcons
    · exact ih _ _ hcons

/-- No control character stands inside quotes, so quoted text never breaks a line. -/
theorem le_toNat_of_mem_escape {quote c d : Char} (hq : 0x20 ≤ quote.toNat)
    (hd : d ∈ escape quote c) : 0x20 ≤ d.toNat := by
  unfold escape at hd
  repeat' split at hd
  all_goals try (simp only [List.mem_cons, List.not_mem_nil, or_false] at hd)
  all_goals try (rcases hd with rfl | rfl <;> first | decide | assumption)
  · rename_i hp
    rw [hd]
    exact le_toNat_of_isPrintable hp
  · simp only [numbered, List.mem_append, List.mem_cons, List.not_mem_nil, or_false] at hd
    rcases hd with ((rfl | rfl | rfl) | hd) | rfl
    · decide
    · decide
    · decide
    · exact Nat.le_trans (by decide)
        (le_toNat_of_mem_toDigitsCore _ _ _ [] (by simp) d hd)
    · decide

end EpsilonNfa.Text
