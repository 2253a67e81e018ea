import EpsilonNfa.Pattern.Fault

/-!
From a pattern to operator-last order. First every concatenation is made explicit: `(a|b)c*d`
becomes `(a|b).c*.d`. Then the tokens pass a yard with one track for operators that wait:

    symbol      goes out
    `(`         waits
    `)`         sends out what waits down to its `(`, which is dropped
    operator    sends out what waits and binds at least as tightly, then waits

and at the end all that waits goes out. A parenthesis without its partner is the only fault here;
whether operators have their operands is the business of the arity check.
-/

namespace EpsilonNfa

/-- Puts a concatenation between two neighbours of which the first ends and the second begins an
    operand. -/
def expandConcatenation : List Token → List Token
  | a :: b :: rest =>
    if a.endsOperand && b.beginsOperand then
      a :: .operator .concat :: expandConcatenation (b :: rest)
    else a :: expandConcatenation (b :: rest)
  | tokens => tokens

/-- The tokens that are out, the latest first, and the operators that wait, the latest first. -/
structure Yard where
  output : List Token
  waiting : List Operator
  deriving DecidableEq, Repr

namespace Yard

/-- The yard before the first token. -/
def empty : Yard := ⟨[], []⟩

/-- Sends out the waiting operators as long as they satisfy `p`. -/
def release (p : Operator → Bool) (yard : Yard) : Yard where
  output := ((yard.waiting.takeWhile p).map Token.operator).reverse ++ yard.output
  waiting := yard.waiting.dropWhile p

/-- Passes one token; `none` for a closing parenthesis that finds no open one. -/
def step (yard : Yard) : Token → Option Yard
  | .symbol s => some { yard with output := .symbol s :: yard.output }
  | .operator .openParen => some { yard with waiting := .openParen :: yard.waiting }
  | .operator .closeParen =>
    match yard.release (· ≠ .openParen) with
    | ⟨_, []⟩ => none
    | ⟨output, _ :: below⟩ => some ⟨output, below⟩
  | .operator incoming =>
    let yard := yard.release (·.yieldsTo incoming)
    some { yard with waiting := incoming :: yard.waiting }

/-- Passes the tokens one by one; `seen` holds those that have passed, the latest first. -/
def run (yard : Yard) (seen : List Token) : List Token → Except PatternFault Yard
  | [] => .ok yard
  | token :: rest =>
    match yard.step token with
    | some yard => run yard (token :: seen) rest
    | none => .error (.unmatchedClose (Token.display (token :: seen).reverse))

/-- Sends out all that waits; `none` when a parenthesis is still open. -/
def flush (yard : Yard) : Option (List Token) :=
  match yard.release (· ≠ .openParen) with
  | ⟨output, []⟩ => some output.reverse
  | ⟨_, _ :: _⟩ => none

end Yard

/-- The tokens in operator-last order. -/
def toPostfix (tokens : List Token) : Except PatternFault (List Token) :=
  match Yard.empty.run [] tokens with
  | .error fault => .error fault
  | .ok yard =>
    match yard.flush with
    | some output => .ok output
    | none => .error (.unclosedGroup (Token.display tokens))

end EpsilonNfa
