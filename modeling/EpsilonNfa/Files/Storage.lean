import EpsilonNfa.Event
import EpsilonNfa.Failure
import EpsilonNfa.Request

/-!
Reading the request and writing the results, over any storage that can read, create and remove a
file. Results are written together: when one of them cannot be written, the files of all results up
to it are removed.
-/

namespace EpsilonNfa.Files

/-- A place to keep files. Removing a file that is not there does nothing. -/
class Storage (m : Type → Type) where
  read : String → m (Except SystemFault ByteArray)
  create : String → ByteArray → m (Except SystemFault Unit)
  remove : String → m Unit

/-- A tree of files keeps files. -/
instance : Storage (StateM FileTree) where
  read path := fun tree => (tree.read path, tree)
  create path content := fun tree =>
    match tree.create path content with
    | .ok tree => (.ok (), tree)
    | .error fault => (.error fault, tree)
  remove path := fun tree => ((), tree.remove path)

/-- A text and the path that it is to be written to. -/
structure Output where
  path : String
  text : String
  deriving DecidableEq, Repr

/-- The request that the content of a file holds. -/
def requestOf (path : String) (content : Except SystemFault ByteArray) : Except Failure Request :=
  match content with
  | .error fault => .error (.system path fault)
  | .ok bytes =>
    match String.fromUTF8? bytes with
    | none => .error (.system path .notText)
    | some text =>
      match Request.parse? text with
      | none => .error (.malformedRequest path)
      | some request => .ok request

section

variable {m : Type → Type} [Monad m] [Storage m]

/-- Reads the request that a file holds. -/
def readRequest (path : String) : m (Except Failure Request) := do
  return requestOf path (← Storage.read path)

/-- Writes one text. -/
def write (output : Output) : m (Except Failure Unit) := do
  match ← Storage.create output.path output.text.toUTF8 with
  | .ok () => return .ok ()
  | .error fault => return .error (.system output.path fault)

/-- Removes the files of some outputs. -/
def removeAll : List Output → m Unit
  | [] => return ()
  | output :: rest => do
    Storage.remove output.path
    removeAll rest

/-- Writes some texts after those in `written`, which comes latest first. -/
def writeAfter (written : List Output) : List Output → m (Except Failure Unit)
  | [] => return .ok ()
  | output :: rest => do
    match ← write output with
    | .ok () => writeAfter (output :: written) rest
    | .error failure =>
      removeAll (output :: written).reverse
      return .error failure

/-- Writes all texts in order, or none of them. -/
def writeAllOrNothing (outputs : List Output) : m (Except Failure Unit) :=
  writeAfter [] outputs

end

/-! ### Events -/

/-- Reading a request in a tree of files. -/
def readEvents (tree : FileTree) (path : String) : List Event :=
  match requestOf path (tree.read path) with
  | .ok request => [.readPattern request.pattern path]
  | .error _ => []

/-- Writing texts in a tree of files, one event for each that is written. -/
def writeEvents (tree : FileTree) : List Output → List Event
  | [] => []
  | output :: rest =>
    match tree.create output.path output.text.toUTF8 with
    | .ok tree => .wrote output.text.utf8ByteSize output.path :: writeEvents tree rest
    | .error _ => []

end EpsilonNfa.Files
