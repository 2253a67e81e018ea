import EpsilonNfa.Automaton.Basic
import EpsilonNfa.Fragment.Builder
import EpsilonNfa.Pattern.Arity
import EpsilonNfa.Pattern.Lexer
import EpsilonNfa.Pattern.Yard

/-!
From a pattern to its automaton: the pattern is read into tokens, its concatenations are made
explicit, the tokens are put in operator-last order, their arities are checked, and the fragment
that is built from them becomes the automaton. The empty pattern has a fragment of its own.
-/

namespace EpsilonNfa

/-- The operator-last sequence of a pattern's tokens, its arities checked. -/
def arrange (tokens : List Token) : Except PatternFault (List Token) :=
  match toPostfix (expandConcatenation tokens) with
  | .error fault => .error fault
  | .ok ordered =>
    match checkArity ordered with
    | .error fault => .error fault
    | .ok () => .ok ordered

/-- The fragment of a pattern, from a builder that has handed out no number. -/
def fragmentOf (flags : Flags) (pattern : String) : Except BuildFault Fragment :=
  match tokenize pattern with
  | .error fault => .error (.pattern fault)
  | .ok [] => .ok (Builder.new flags).empty.1
  | .ok tokens =>
    match arrange tokens with
    | .error fault => .error (.pattern fault)
    | .ok ordered => ((Builder.new flags).build ordered).1

/-- The automaton of a pattern. -/
def compile (flags : Flags) (pattern : String) : Except BuildFault Automaton :=
  (fragmentOf flags pattern).map .ofFragment

end EpsilonNfa
