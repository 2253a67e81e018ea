/-!
The tokens of a pattern. A symbol is a letter to be read or the silent epsilon; an operator is the
star, the concatenation, the union or one of the two parentheses. Every token is written as one
character.
-/

namespace EpsilonNfa

/-- What a move reads: one letter, or nothing. -/
inductive Symbol where
  | letter (c : Char)
  | epsilon
  deriving DecidableEq, Repr

namespace Symbol

/-- The character that stands for a symbol in text; the silent symbol is shown as `ε`. -/
def toChar : Symbol → Char
  | letter c => c
  | epsilon => 'ε'

/-- The letter of a symbol that reads one. -/
def letter? : Symbol → Option Char
  | letter c => some c
  | epsilon => none

/-- Letters come in code point order, and the silent symbol after all of them. -/
def le : Symbol → Symbol → Bool
  | letter c, letter d => c ≤ d
  | letter _, epsilon => true
  | epsilon, letter _ => false
  | epsilon, epsilon => true

/-- The symbols in order. -/
def sort (symbols : List Symbol) : List Symbol :=
  symbols.mergeSort le

theorem le_total (a b : Symbol) : (le a b || le b a) = true := by
  cases a <;> cases b <;> simp [le, Char.le_total]

theorem le_trans (a b c : Symbol) : le a b = true → le b c = true → le a c = true := by
  cases a <;> cases b <;> cases c <;> simp [le]
  exact Char.le_trans

/-- Sorting puts the symbols in order. -/
theorem pairwise_sort (symbols : List Symbol) :
    (sort symbols).Pairwise fun a b => le a b = true :=
  List.pairwise_mergeSort le_trans le_total symbols

end Symbol

/-- The operators of a pattern. -/
inductive Operator where
  | star
  | concat
  | union
  | openParen
  | closeParen
  deriving DecidableEq, Repr

namespace Operator

/-- How tightly an operator binds; a parenthesis binds nothing. -/
def priority? : Operator → Option Nat
  | star => some 2
  | concat => some 1
  | union => some 0
  | openParen | closeParen => none

/-- How many operands an operator takes. -/
def arity : Operator → Nat
  | star => 1
  | concat | union => 2
  | openParen | closeParen => 0

/-- The character of an operator. -/
def toChar : Operator → Char
  | star => '*'
  | concat => '.'
  | union => '|'
  | openParen => '('
  | closeParen => ')'

/-- The operator that a character writes. -/
def ofChar? : Char → Option Operator
  | '*' => some star
  | '.' => some concat
  | '|' => some union
  | '(' => some openParen
  | ')' => some closeParen
  | _ => none

@[simp]
theorem ofChar?_toChar (o : Operator) : ofChar? o.toChar = some o := by
  cases o <;> rfl

theorem toChar_of_ofChar? {c : Char} {o : Operator} (h : ofChar? c = some o) : o.toChar = c := by
  unfold ofChar? at h
  split at h <;> simp_all [toChar] <;> subst h <;> rfl

/-- `top` leaves the stack before `incoming` is put on it: both bind, and `top` at least as
    tightly. -/
def yieldsTo (top incoming : Operator) : Bool :=
  match top.priority?, incoming.priority? with
  | some p, some q => q ≤ p
  | _, _ => false

end Operator

/-- One character of a pattern. -/
inductive Token where
  | symbol (s : Symbol)
  | operator (o : Operator)
  deriving DecidableEq, Repr

namespace Token

/-- The character of a token. -/
def toChar : Token → Char
  | symbol s => s.toChar
  | operator o => o.toChar

/-- The token that a character writes: an operator, or an ASCII letter or digit. -/
def ofChar? (c : Char) : Option Token :=
  match Operator.ofChar? c with
  | some o => some (operator o)
  | none => if c.isAlphanum then some (symbol (.letter c)) else none

/-- An operand may end with this token. -/
def endsOperand : Token → Bool
  | operator .openParen | operator .union | operator .concat => false
  | _ => true

/-- An operand may begin with this token. -/
def beginsOperand : Token → Bool
  | operator .closeParen | operator .star | operator .union | operator .concat => false
  | _ => true

/-- The text of a token sequence. -/
def display (tokens : List Token) : String :=
  String.ofList (tokens.map toChar)

theorem toChar_of_ofChar? {c : Char} {t : Token} (h : ofChar? c = some t) : t.toChar = c := by
  unfold ofChar? at h
  split at h
  · next o ho =>
    cases h
    exact Operator.toChar_of_ofChar? ho
  · split at h
    · cases h
      rfl
    · cases h

@[simp]
theorem ofChar?_operator (o : Operator) : ofChar? o.toChar = some (operator o) := by
  simp [ofChar?]

theorem ofChar?_alphanum {c : Char} (h : c.isAlphanum = true) :
    ofChar? c = some (symbol (.letter c)) := by
  have : Operator.ofChar? c = none := by
    unfold Operator.ofChar?
    split <;> first | rfl | exact absurd h (by decide)
  simp [ofChar?, this, h]

end Token

end EpsilonNfa
