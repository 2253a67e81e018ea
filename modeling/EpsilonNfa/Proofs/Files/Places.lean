import EpsilonNfa.Files.Tree

/-!
What paths name, and what files that come and go leave alone. A path leads through directories
only, so as long as these stay, every path keeps the place that it names, whatever is written or
removed meanwhile:

    create, remove ──▶ same directories ──▶ same places ──▶ effects told by places

Two paths are in conflict only if they name one place, and what happens at a place can be followed
from the tree before the first change.
-/

namespace EpsilonNfa.Files.FileTree

variable {tree tree' tree'' : FileTree} {path : String} {place : Place} {content : ByteArray}

/-- The place that a path names: an entry that a directory holds or could hold as a file. -/
def place? (tree : FileTree) (path : String) : Option Place :=
  match tree.resolve path with
  | .ok (.entry place false) => some place
  | _ => none

/-- There is a file at a path. -/
def HoldsFile (tree : FileTree) (path : String) : Prop :=
  ∃ place content, tree.place? path = some place ∧ tree.find? place = some (.file content)

/-- A change that keeps all directories, and everything at a place that none of some paths names. -/
structure ChangedAt (tree : FileTree) (paths : List String) (tree' : FileTree) : Prop where
  directory_iff : ∀ place,
    tree'.find? place = some .directory ↔ tree.find? place = some .directory
  find?_eq : ∀ place, (∀ path ∈ paths, tree.place? path ≠ some place) →
    tree'.find? place = tree.find? place

theorem place?_eq_some_iff :
    tree.place? path = some place ↔ tree.resolve path = .ok (.entry place false) := by
  rw [place?]
  split <;> simp_all

theorem lookup_eq_ok_iff {found : Option Entry} :
    tree.lookup place = .ok found ↔
      (place.getLast?.getD "").utf8ByteSize ≤ nameLimit ∧ tree.find? place = found := by
  rw [lookup]
  split
  · next h => simp [Nat.not_le.2 h]
  · next h => simp [Nat.not_lt.1 h]

/-! ### Operations told by places -/

theorem read_eq_ok_iff :
    tree.read path = .ok content ↔
      ∃ place, tree.place? path = some place ∧ tree.lookup place = .ok (some (.file content)) := by
  simp only [place?_eq_some_iff, read]
  constructor
  · intro h
    split at h
    · nomatch h
    · nomatch h
    · next place slash hresolve =>
      split at h
      · nomatch h
      · nomatch h
      · nomatch h
      · next hlookup =>
        cases slash with
        | true => nomatch h
        | false =>
          cases h
          exact ⟨place, hresolve, hlookup⟩
  · rintro ⟨place, hresolve, hlookup⟩
    simp [hresolve, hlookup]

theorem read_congr {path' : String} (h : tree.place? path = tree.place? path') :
    tree.read path = .ok content ↔ tree.read path' = .ok content := by
  rw [read_eq_ok_iff, read_eq_ok_iff, h]

theorem create_eq_ok_iff :
    tree.create path content = .ok tree' ↔
      ∃ place found, tree.place? path = some place ∧ tree.lookup place = .ok found ∧
        found ≠ some .directory ∧ tree' = tree.put place (.file content) := by
  simp only [place?_eq_some_iff, create]
  constructor
  · intro h
    split at h
    · nomatch h
    · nomatch h
    · nomatch h
    · next place hresolve =>
      split at h
      · nomatch h
      · nomatch h
      · next found hdirectory hlookup =>
        cases h
        exact ⟨place, found, hresolve, hlookup, fun h => hdirectory h, rfl⟩
  · rintro ⟨place, found, hresolve, hlookup, hdirectory, rfl⟩
    rcases found with _ | _ | _
    · simp [hresolve, hlookup]
    · simp [hresolve, hlookup]
    · exact absurd rfl hdirectory

theorem remove_eq :
    tree.remove path =
      match tree.place? path with
      | some place =>
        match tree.find? place with
        | some (.file _) => tree.erase place
        | _ => tree
      | none => tree := by
  rw [remove, place?]
  rcases tree.resolve path with _ | _ | ⟨_, _ | _⟩ <;> rfl

/-- A removal takes away what its path names unless that is a directory. -/
theorem find?_remove (tree : FileTree) (path : String) (place : Place) :
    (tree.remove path).find? place =
      if tree.place? path = some place ∧ tree.find? place ≠ some .directory then none
      else tree.find? place := by
  rw [remove_eq]
  cases tree.place? path with
  | none => simp
  | some other =>
    by_cases h : other = place
    · subst h
      cases hfind : tree.find? other with
      | none => simp [hfind]
      | some entry => cases entry <;> simp [hfind]
    · cases hfind : tree.find? other with
      | none => simp [hfind, h]
      | some entry => cases entry <;> simp [hfind, h]

/-! ### Paths in trees with the same directories -/

theorem enter_eq_ok_iff {name : String} {entered : Place} :
    tree.enter place name = .ok entered ↔
      if name = "." then entered = place
      else if name = ".." then entered = place.dropLast
      else tree.lookup (place ++ [name]) = .ok (some .directory) ∧ entered = place ++ [name] := by
  rw [enter]
  split
  · simp [eq_comm]
  · split
    · simp [eq_comm]
    · cases tree.lookup (place ++ [name]) with
      | error fault => simp
      | ok found => rcases found with _ | _ | _ <;> simp [eq_comm]

theorem walk_cons_eq_ok_iff {name : String} {names : List String} {entered : Place} :
    tree.walk place (name :: names) = .ok entered ↔
      ∃ next, tree.enter place name = .ok next ∧ tree.walk next names = .ok entered := by
  rw [walk]
  split <;> simp_all

namespace ChangedAt

variable {paths paths' : List String}

theorem lookup_iff (h : ChangedAt tree paths tree') :
    tree'.lookup place = .ok (some .directory) ↔ tree.lookup place = .ok (some .directory) := by
  rw [lookup_eq_ok_iff, lookup_eq_ok_iff, h.directory_iff]

theorem walk_iff (h : ChangedAt tree paths tree') {names : List String} {entered : Place} :
    tree'.walk place names = .ok entered ↔ tree.walk place names = .ok entered := by
  induction names generalizing place with
  | nil => rfl
  | cons name names ih => simp only [walk_cons_eq_ok_iff, enter_eq_ok_iff, h.lookup_iff, ih]

theorem resolve_iff (h : ChangedAt tree paths tree') {target : Target} :
    tree'.resolve path = .ok target ↔ tree.resolve path = .ok target := by
  rw [resolve, resolve]
  split
  · rfl
  split
  · rfl
  split
  · rfl
  split
  · rfl
  -- only the walk to the last name looks at the tree, and it does so for directories
  · cases hwalk : tree.walk [] (names path).dropLast with
    | ok place => rw [h.walk_iff.2 hwalk]
    | error fault =>
      cases hwalk' : tree'.walk [] (names path).dropLast with
      | ok place => simp [h.walk_iff.1 hwalk'] at hwalk
      | error fault' => simp

/-- A path names the same place before and after the change. -/
theorem place?_eq (h : ChangedAt tree paths tree') (path : String) :
    tree'.place? path = tree.place? path := by
  ext place
  rw [place?_eq_some_iff, place?_eq_some_iff, h.resolve_iff]

theorem refl (tree : FileTree) (paths : List String) : ChangedAt tree paths tree :=
  ⟨fun _ => .rfl, fun _ _ => rfl⟩

theorem trans (h : ChangedAt tree paths tree') (h' : ChangedAt tree' paths' tree'') :
    ChangedAt tree (paths ++ paths') tree'' where
  directory_iff place := (h'.directory_iff place).trans (h.directory_iff place)
  find?_eq place hplace := by
    rw [h'.find?_eq place fun path hpath => ?_, h.find?_eq place fun path hpath => ?_]
    · exact hplace path (List.mem_append_left _ hpath)
    · rw [h.place?_eq]
      exact hplace path (List.mem_append_right _ hpath)

theorem mono (h : ChangedAt tree paths tree') (hpaths : paths ⊆ paths') :
    ChangedAt tree paths' tree' where
  directory_iff := h.directory_iff
  find?_eq place hplace := h.find?_eq place fun path hpath => hplace path (hpaths hpath)

theorem create (h : tree.create path content = .ok tree') : ChangedAt tree [path] tree' := by
  obtain ⟨place, found, hplace, hlookup, hdirectory, rfl⟩ := create_eq_ok_iff.1 h
  obtain ⟨-, rfl⟩ := lookup_eq_ok_iff.1 hlookup
  constructor
  · intro other
    rw [find?_put]
    split
    · next h => simpa [h] using hdirectory
    · rfl
  · intro other hother
    rw [find?_put, if_neg]
    rintro rfl
    exact hother path (List.mem_singleton_self path) hplace

theorem remove (tree : FileTree) (path : String) : ChangedAt tree [path] (tree.remove path) := by
  constructor
  · intro place
    rw [find?_remove]
    split
    · next h => simpa using h.2
    · rfl
  · intro place hplace
    rw [find?_remove, if_neg]
    exact fun h => hplace path (List.mem_singleton_self path) h.1

/-- A file at another place than those that change is read as before. -/
theorem read_eq_ok (h : ChangedAt tree paths tree')
    (hpaths : ∀ other ∈ paths, tree.place? other ≠ tree.place? path)
    (hread : tree.read path = .ok content) : tree'.read path = .ok content := by
  obtain ⟨place, hplace, hlookup⟩ := read_eq_ok_iff.1 hread
  obtain ⟨hlimit, hfind⟩ := lookup_eq_ok_iff.1 hlookup
  refine read_eq_ok_iff.2 ⟨place, (h.place?_eq path).trans hplace, lookup_eq_ok_iff.2 ⟨hlimit, ?_⟩⟩
  rw [h.find?_eq place fun other hother => hplace ▸ hpaths other hother, hfind]

end ChangedAt

/-- What has been created is read. -/
theorem read_of_create (h : tree.create path content = .ok tree') :
    tree'.read path = .ok content := by
  have hplaces := (ChangedAt.create h).place?_eq path
  obtain ⟨place, found, hplace, hlookup, -, rfl⟩ := create_eq_ok_iff.1 h
  refine read_eq_ok_iff.2 ⟨place, hplaces.trans hplace, lookup_eq_ok_iff.2 ⟨?_, ?_⟩⟩
  · exact (lookup_eq_ok_iff.1 hlookup).1
  · rw [find?_put, if_pos rfl]

/-! ### Removal of several files -/

/-- The tree without the files at some paths. -/
def removeAll (tree : FileTree) (paths : List String) : FileTree :=
  paths.foldl remove tree

theorem ChangedAt.removeAll (tree : FileTree) (paths : List String) :
    ChangedAt tree paths (tree.removeAll paths) := by
  induction paths generalizing tree with
  | nil => exact .refl tree []
  | cons path paths ih => exact (ChangedAt.remove tree path).trans (ih (tree.remove path))

/-- Where there is a file after a removal, there was one before, and it is not the one removed. -/
theorem holdsFile_of_remove {other : String} (h : (tree.remove other).HoldsFile path) :
    tree.HoldsFile path ∧ path ≠ other := by
  obtain ⟨place, content, hplace, hfind⟩ := h
  rw [(ChangedAt.remove tree other).place?_eq] at hplace
  rw [find?_remove] at hfind
  split at hfind
  · nomatch hfind
  · next hkept =>
    refine ⟨⟨place, content, hplace, hfind⟩, ?_⟩
    rintro rfl
    simp [hplace, hfind] at hkept

theorem holdsFile_of_removeAll {paths : List String} (h : (tree.removeAll paths).HoldsFile path) :
    tree.HoldsFile path ∧ path ∉ paths := by
  induction paths generalizing tree with
  | nil => exact ⟨h, List.not_mem_nil⟩
  | cons other paths ih =>
    obtain ⟨hremove, hpaths⟩ := ih h
    obtain ⟨htree, hother⟩ := holdsFile_of_remove hremove
    exact ⟨htree, List.not_mem_cons_of_ne_of_not_mem hother hpaths⟩

end EpsilonNfa.Files.FileTree
