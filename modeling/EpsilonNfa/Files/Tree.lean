/-!
A tree of files and directories, and what a path means in it. The tree is the list of its entries,
each at its place, in the order of the places: a directory comes before what it holds, and entries
of one directory are ordered by name. The root is a directory and has no entry of its own.

A path is walked name by name from the root. `.` stays, `..` goes up, and every other name before
the last one has to be that of a directory.
-/

namespace EpsilonNfa.Files

/-- Why the system refuses to read or create a file. -/
inductive SystemFault where
  | notFound
  | notDirectory
  | isDirectory
  | nameTooLong
  /-- A path holds a null character. -/
  | nullInPath
  /-- What was read is no text. -/
  | notText
  /-- Anything else, with the system's description and number. -/
  | other (description : String) (number : Nat)
  deriving DecidableEq, Repr

namespace SystemFault

/-- A description with the system's number for it. -/
def numbered (description : String) (number : Nat) : String :=
  description ++ " (os error " ++ number.repr ++ ")"

/-- The text of a fault. -/
def message : SystemFault → String
  | notFound => numbered "No such file or directory" 2
  | notDirectory => numbered "Not a directory" 20
  | isDirectory => numbered "Is a directory" 21
  | nameTooLong => numbered "File name too long" 36
  | nullInPath => "file name contained an unexpected NUL byte"
  | notText => "stream did not contain valid UTF-8"
  | other description number => numbered description number

end SystemFault

/-- The names that lead from the root to an entry. -/
abbrev Place := List String

/-- What is at a place. -/
inductive Entry where
  | file (content : ByteArray)
  | directory

instance : DecidableEq Entry
  | .file content, .file content' =>
    decidable_of_iff (content.data = content'.data) (by rw [Entry.file.injEq, ByteArray.ext_iff])
  | .directory, .directory => .isTrue rfl
  | .file _, .directory | .directory, .file _ => .isFalse nofun

/-- The entries of a tree, ordered by their places. -/
structure FileTree where
  entries : List (Place × Entry)
  deriving DecidableEq

/-- The bytes that a name may have at most. -/
def nameLimit : Nat := 255

/-- The bytes that a path has to stay below. -/
def pathLimit : Nat := 4096

/-- The parts of a path between its slashes. -/
def splitPath : List Char → List (List Char)
  | [] => [[]]
  | c :: rest =>
    if c = '/' then [] :: splitPath rest
    else
      match splitPath rest with
      | [] => [[c]]
      | part :: parts => (c :: part) :: parts

/-- The names in a path; slashes that follow each other count as one. -/
def names (path : String) : List String :=
  ((splitPath path.toList).filter (· ≠ [])).map String.ofList

/-- A path ends with a slash. -/
def endsWithSlash (path : String) : Bool :=
  path.toList.getLast? = some '/'

/-- Where a path leads. -/
inductive Target where
  /-- To a directory that the walk has entered. -/
  | directory (place : Place)
  /-- To a name in a directory, whether there is such an entry or not. A path that ends with a
      slash asks for a directory. -/
  | entry (place : Place) (slash : Bool)
  deriving DecidableEq, Repr

namespace FileTree

/-- The tree that holds nothing. -/
def empty : FileTree := ⟨[]⟩

/-- The entry at a place. -/
def find? (tree : FileTree) (place : Place) : Option Entry :=
  (tree.entries.find? (·.1 = place)).map Prod.snd

/-- An entry among others, in order, in place of the one at the same place. -/
def putEntry (place : Place) (entry : Entry) : List (Place × Entry) → List (Place × Entry)
  | [] => [(place, entry)]
  | other :: rest =>
    if other.1 = place then (place, entry) :: rest
    else if place < other.1 then (place, entry) :: other :: rest
    else other :: putEntry place entry rest

/-- The tree with an entry put at a place. -/
def put (tree : FileTree) (place : Place) (entry : Entry) : FileTree :=
  ⟨putEntry place entry tree.entries⟩

/-- The tree without the entry at a place. -/
def erase (tree : FileTree) (place : Place) : FileTree :=
  ⟨tree.entries.filter (·.1 ≠ place)⟩

/-- The entry at a place, unless the last name is too long for there to be any. -/
def lookup (tree : FileTree) (place : Place) : Except SystemFault (Option Entry) :=
  if nameLimit < (place.getLast?.getD "").utf8ByteSize then .error .nameTooLong
  else .ok (tree.find? place)

/-- The directory that a name leads to from the directory at `place`. -/
def enter (tree : FileTree) (place : Place) (name : String) : Except SystemFault Place :=
  if name = "." then .ok place
  else if name = ".." then .ok place.dropLast
  else
    match tree.lookup (place ++ [name]) with
    | .error fault => .error fault
    | .ok none => .error .notFound
    | .ok (some (.file _)) => .error .notDirectory
    | .ok (some .directory) => .ok (place ++ [name])

/-- The directory that some names lead to from the directory at `place`. -/
def walk (tree : FileTree) (place : Place) : List String → Except SystemFault Place
  | [] => .ok place
  | name :: rest =>
    match tree.enter place name with
    | .error fault => .error fault
    | .ok place => walk tree place rest

/-- Where a path leads. -/
def resolve (tree : FileTree) (path : String) : Except SystemFault Target :=
  if path = "" then .error .notFound
  else if path.toList.contains '\x00' then .error .nullInPath
  else if pathLimit ≤ path.utf8ByteSize then .error .nameTooLong
  else
    match (names path).getLast? with
    | none => .ok (.directory [])
    | some last =>
      match tree.walk [] (names path).dropLast with
      | .error fault => .error fault
      | .ok place =>
        if last = "." then .ok (.directory place)
        else if last = ".." then .ok (.directory place.dropLast)
        else .ok (.entry (place ++ [last]) (endsWithSlash path))

/-- The content of the file at a path. -/
def read (tree : FileTree) (path : String) : Except SystemFault ByteArray :=
  match tree.resolve path with
  | .error fault => .error fault
  | .ok (.directory _) => .error .isDirectory
  | .ok (.entry place slash) =>
    match tree.lookup place with
    | .error fault => .error fault
    | .ok none => .error .notFound
    | .ok (some .directory) => .error .isDirectory
    | .ok (some (.file content)) => if slash then .error .notDirectory else .ok content

/-- The tree with a file at a path, in place of the file that was there. -/
def create (tree : FileTree) (path : String) (content : ByteArray) :
    Except SystemFault FileTree :=
  match tree.resolve path with
  | .error fault => .error fault
  | .ok (.directory _) | .ok (.entry _ true) => .error .isDirectory
  | .ok (.entry place false) =>
    match tree.lookup place with
    | .error fault => .error fault
    | .ok (some .directory) => .error .isDirectory
    | .ok _ => .ok (tree.put place (.file content))

/-- The tree without the file at a path; what is no file stays. -/
def remove (tree : FileTree) (path : String) : FileTree :=
  match tree.resolve path with
  | .ok (.entry place false) =>
    match tree.find? place with
    | some (.file _) => tree.erase place
    | _ => tree
  | _ => tree

/-- The tree with directories for some names, one in the other, where nothing is yet. -/
def makeDirectories (tree : FileTree) (place : Place) : List String → FileTree
  | [] => tree
  | name :: rest =>
    let place := place ++ [name]
    match tree.find? place with
    | none => makeDirectories (tree.put place .directory) place rest
    | some _ => makeDirectories tree place rest

/-- The tree with a directory at a path, and with those that it lies in. -/
def makeDirectory (tree : FileTree) (path : String) : FileTree :=
  tree.makeDirectories [] (names path)

/-- The size of each file, and no size for a directory, under the path from the root. -/
def listing (tree : FileTree) : List (String × Option Nat) :=
  tree.entries.map fun entry => (String.intercalate "/" entry.1,
    match entry.2 with
    | .file content => some content.size
    | .directory => none)

/-! ### What is found after a change -/

theorem find?_putEntry (place other : Place) (entry : Entry) (entries : List (Place × Entry)) :
    (putEntry place entry entries).find? (·.1 = other)
      = if place = other then some (place, entry) else entries.find? (·.1 = other) := by
  induction entries with
  | nil => by_cases h : place = other <;> simp [putEntry, h]
  | cons first rest ih =>
    unfold putEntry
    split
    · next hfirst =>
      by_cases h : place = other <;> simp [h, hfirst]
    · next hfirst =>
      split
      · by_cases h : place = other <;> simp [h]
      · by_cases h : place = other
        · subst h
          simp [hfirst, ih]
        · by_cases hother : first.1 = other <;> simp [h, hother, ih]

@[simp]
theorem find?_put (tree : FileTree) (place other : Place) (entry : Entry) :
    (tree.put place entry).find? other
      = if place = other then some entry else tree.find? other := by
  simp only [find?, put, find?_putEntry]
  split <;> rfl

@[simp]
theorem find?_erase (tree : FileTree) (place other : Place) :
    (tree.erase place).find? other = if place = other then none else tree.find? other := by
  simp only [find?, erase, List.find?_filter]
  split
  · next h =>
    subst h
    simp
  · next h =>
    congr 2
    funext entry
    by_cases hother : entry.1 = other
    · simp [hother, Ne.symm h]
    · simp [hother]

end FileTree

end EpsilonNfa.Files
