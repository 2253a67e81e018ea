import EpsilonNfa.Pattern.Fault

/-!
The arity check of an operator-last sequence: how many operands are at hand is counted through the
sequence, and in the end there has to be exactly one.
-/

namespace EpsilonNfa

/-- The operands at hand after a token, when there were `depth` before it. -/
def Token.depthAfter (depth : Nat) : Token → Except PatternFault Nat
  | .symbol _ => .ok (depth + 1)
  | .operator .openParen => .error (.strayParenthesis .openParen)
  | .operator .closeParen => .error (.strayParenthesis .closeParen)
  | .operator o =>
    if depth < o.arity then .error (.missingOperand o) else .ok (depth - o.arity + 1)

@[simp]
theorem Token.depthAfter_symbol (depth : Nat) (s : Symbol) :
    (Token.symbol s).depthAfter depth = .ok (depth + 1) := rfl

@[simp]
theorem Token.depthAfter_star (depth : Nat) :
    (Token.operator .star).depthAfter (depth + 1) = .ok (depth + 1) := by
  simp [Token.depthAfter, Operator.arity]

@[simp]
theorem Token.depthAfter_concat (depth : Nat) :
    (Token.operator .concat).depthAfter (depth + 2) = .ok (depth + 1) := by
  have : ¬ depth + 2 < 2 := by omega
  simp [Token.depthAfter, Operator.arity, this]

@[simp]
theorem Token.depthAfter_union (depth : Nat) :
    (Token.operator .union).depthAfter (depth + 2) = .ok (depth + 1) := by
  have : ¬ depth + 2 < 2 := by omega
  simp [Token.depthAfter, Operator.arity, this]

/-- The operands at hand after a sequence, when there were `depth` before it. -/
def depthAfter (depth : Nat) : List Token → Except PatternFault Nat
  | [] => .ok depth
  | token :: rest =>
    match token.depthAfter depth with
    | .ok depth => depthAfter depth rest
    | .error fault => .error fault

/-- Accepts an operator-last sequence that leaves one operand. -/
def checkArity (tokens : List Token) : Except PatternFault Unit :=
  match depthAfter 0 tokens with
  | .ok 1 => .ok ()
  | .ok depth => .error (.fragmentCount depth)
  | .error fault => .error fault

end EpsilonNfa
