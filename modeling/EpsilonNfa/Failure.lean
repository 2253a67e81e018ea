import EpsilonNfa.Files.Tree
import EpsilonNfa.Fragment.Builder

/-!
Why a run of the program stops before its end, and how it is said.
-/

namespace EpsilonNfa

/-- The text of a fault that keeps a pattern from being built. -/
def BuildFault.message (style : Style) : BuildFault → String
  | pattern fault => fault.message style
  | dangling => "a fragment mentions a state that it does not list"

/-- Why a run stops. -/
inductive Failure where
  /-- The pattern does not compile. -/
  | invalidPattern (fault : BuildFault)
  /-- The system refuses to read or write a file. -/
  | system (path : String) (fault : Files.SystemFault)
  /-- An input file holds no request. -/
  | malformedRequest (path : String)
  deriving DecidableEq, Repr

namespace Failure

/-- What has failed. -/
def headline (style : Style) : Failure → String
  | invalidPattern fault => "invalid regex: " ++ fault.message style
  | system path fault => "i/o failure on " ++ path ++ ": " ++ fault.message
  | malformedRequest path => "malformed record in " ++ path

/-- The text of a failure. Behind an input without a request comes `account`, which tells what is
    wrong in its text, where the reading of the text gives one. -/
def message (style : Style) (failure : Failure) (account : Option String := none) : String :=
  match failure, account with
  | malformedRequest _, some account => failure.headline style ++ ": " ++ account
  | _, _ => failure.headline style

end Failure

end EpsilonNfa
