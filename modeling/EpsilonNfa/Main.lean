import EpsilonNfa.Command.Run

/-!
The program: a run over the files of the system, with its report on the error stream.
-/

namespace EpsilonNfa.Command

open Files

/-- The fault that the system names by its number. -/
def faultOfNumber (number : Nat) (description : String) : SystemFault :=
  match number with
  | 2 => .notFound
  | 20 => .notDirectory
  | 21 => .isDirectory
  | 36 => .nameTooLong
  | _ => .other description number

/-- The fault behind an error of the system. -/
def faultOfError : IO.Error → SystemFault
  | .noFileOrDirectory _ number description => faultOfNumber number.toNat description
  | .inappropriateType _ number description => faultOfNumber number.toNat description
  | .invalidArgument _ number description => faultOfNumber number.toNat description
  | .permissionDenied _ number description => faultOfNumber number.toNat description
  | .resourceExhausted _ number description => faultOfNumber number.toNat description
  | .alreadyExists _ number description => faultOfNumber number.toNat description
  | .otherError number description => faultOfNumber number.toNat description
  | error => .other error.toString 0

/-- The files of the system. -/
instance : Storage IO where
  read path := do
    try return .ok (← IO.FS.withFile path .read (·.readBinToEnd))
    catch error => return .error (faultOfError error)
  create path content := do
    try
      IO.FS.writeBinFile path content
      return .ok ()
    catch error => return .error (faultOfError error)
  remove path := do
    try IO.FS.removeFile path catch _ => return ()

/-- An environment variable is set to something other than `0`. -/
def isSet (name : String) : IO Bool := do
  match ← IO.getEnv name with
  | none => return false
  | some value => return value ≠ "0"

/-- Reports are coloured for a terminal unless the environment says otherwise. -/
def chooseStyle : IO Style := do
  if ← isSet "CLICOLOR_FORCE" then return .coloured
  if (← IO.getEnv "NO_COLOR").isSome then return .plain
  if (← IO.getEnv "CLICOLOR") = some "0" then return .plain
  if ← (← IO.getStdout).isTty then return .coloured
  return .plain

end EpsilonNfa.Command

open EpsilonNfa.Command in
/-- The command line. -/
def main (arguments : List String) : IO UInt32 := do
  let outcome ← run arguments
  IO.eprint (outcome.report (← chooseStyle))
  return outcome.exitCode
