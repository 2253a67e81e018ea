import EpsilonNfa.Command.Arguments
import EpsilonNfa.Drawing
import EpsilonNfa.Files.Storage
import EpsilonNfa.Table

/-!
A run of the command line: the request is read, its pattern compiled, and the table and perhaps the
drawing are made before the first of them is written.
-/

namespace EpsilonNfa.Command

open Files

/-- How a run ends. -/
inductive Outcome where
  /-- The arguments ask for nothing that can be done. -/
  | usage
  | failed (failure : Failure)
  | done
  deriving DecidableEq, Repr

/-- How the program is called. -/
def usageText : String :=
  "usage: reg_nfa <input.json> <output.json> [<graph.dot>] [--empty-language] [--shared-star]"

namespace Outcome

/-- The code that the program exits with. -/
def exitCode : Outcome → UInt32
  | done => 0
  | failed _ => 1
  | usage => 2

/-- What announces a failure. -/
def announcement (style : Style) : String :=
  style.alarm "error:" ++ " "

/-- What the program says on its error stream; `account` tells what is wrong in an input without a
    request. -/
def report (style : Style) (outcome : Outcome) (account : Option String := none) : String :=
  match outcome with
  | usage => usageText ++ "\n"
  | failed failure => announcement style ++ failure.message style account ++ "\n"
  | done => ""

end Outcome

/-- The texts that are written for an automaton. -/
def outputs (arguments : Arguments) (a : Automaton) : List Output :=
  ⟨arguments.output, (Table.ofAutomaton a).render⟩
    :: (arguments.graph.map fun graph => ⟨graph, a.toDot⟩).toList

section

variable {m : Type → Type} [Monad m] [Storage m]

/-- Does what the arguments ask for. -/
def perform (arguments : Arguments) : m (Except Failure Unit) := do
  match ← readRequest arguments.input with
  | .error failure => return .error failure
  | .ok request =>
    match compile arguments.flags request.pattern with
    | .error fault => return .error (.invalidPattern fault)
    | .ok a => writeAllOrNothing (outputs arguments a)

/-- A run of the program. -/
def run (arguments : List String) : m Outcome := do
  match Arguments.parse? arguments with
  | none => return .usage
  | some arguments =>
    match ← perform arguments with
    | .ok () => return .done
    | .error failure => return .failed failure

end

end EpsilonNfa.Command
