import EpsilonNfa.Pattern.Token
import EpsilonNfa.Text.Quoted

/-!
What can be wrong with a pattern, and how it is said. A fault is a cause with the text it was found
in; the wording, the number of each cause and the caret below the echoed text are made here alone.
-/

namespace EpsilonNfa

/-- Whether a diagnostic is coloured for a terminal. -/
inductive Style where
  | plain
  | coloured
  deriving DecidableEq, Repr

namespace Style

/-- Text between a terminal's colour code and the reset. -/
def paint (style : Style) (code text : String) : String :=
  match style with
  | plain => text
  | coloured => "\x1b[" ++ code ++ "m" ++ text ++ "\x1b[0m"

/-- What announces a fault: bold red. -/
def alarm (style : Style) (text : String) : String :=
  style.paint "1;31" text

/-- The caret that points at a character: green. -/
def caret (style : Style) : String :=
  style.paint "32" "^"

end Style

/-- Why a pattern, or an operator-last sequence, is no expression. -/
inductive PatternFault where
  /-- A character outside the alphabet begins `rest`. -/
  | unexpectedCharacter (consumed rest : String)
  /-- The last character of `consumed` closes a group that was never opened. -/
  | unmatchedClose (consumed : String)
  /-- A group of `expression` is never closed. -/
  | unclosedGroup (expression : String)
  /-- An operator finds too few operands before it. -/
  | missingOperand (operator : Operator)
  /-- A parenthesis stands in an operator-last sequence. -/
  | strayParenthesis (operator : Operator)
  /-- The sequence leaves `count` operands and not one. -/
  | fragmentCount (count : Nat)
  deriving DecidableEq, Repr

namespace PatternFault

/-- The number of a cause. -/
def number : PatternFault → Nat
  | unexpectedCharacter _ _ => 1
  | unmatchedClose _ => 2
  | unclosedGroup _ => 3
  | missingOperand _ => 4
  | strayParenthesis _ => 5
  | fragmentCount _ => 6

/-- The number of a cause in brackets, three digits wide. -/
def code (fault : PatternFault) : String :=
  "[00" ++ fault.number.repr ++ "]"

/-- The character that was not expected; `ε` stands for the end of the text. -/
def found (rest : String) : Char :=
  rest.toList.head?.getD 'ε'

/-- Blanks that bring the caret under the character at `column`. -/
def padding (column : Nat) : String :=
  String.ofList (List.replicate column ' ')

/-- An echoed text and, on the line below it, the caret under its character at `column`. -/
def pointer (style : Style) (text : String) (column : Nat) : String :=
  "\n | " ++ text ++ "\n | " ++ padding column ++ style.caret

/-- The wording of a fault after its code. -/
def account (style : Style) : PatternFault → String
  | unexpectedCharacter consumed rest =>
    "character outside the alphabet " ++ Text.quotedChar (found rest) ++ ":"
      ++ pointer style (consumed ++ rest) consumed.length
  | unmatchedClose consumed =>
    "unmatched closing parenthesis:" ++ pointer style consumed (consumed.length - 1)
  | unclosedGroup expression => "unclosed group: " ++ expression
  | missingOperand operator =>
    "operator " ++ Text.quotedChar operator.toChar ++ " is missing an operand"
  | strayParenthesis operator =>
    "parenthesis " ++ Text.quotedChar operator.toChar ++ " left in postfix sequence"
  | fragmentCount count =>
    "expression reduced to " ++ count.repr ++ " fragments instead of one"

/-- The text of a fault. -/
def message (style : Style) (fault : PatternFault) : String :=
  style.alarm fault.code ++ " " ++ fault.account style

end PatternFault

end EpsilonNfa
