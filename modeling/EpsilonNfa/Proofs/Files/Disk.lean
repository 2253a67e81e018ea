import EpsilonNfa.Files.Storage
import EpsilonNfa.Proofs.Files.Places

/-!
Disks: trees of files on which an access can fail although the tree allows it. A file may be there
and not be readable, and a write may be refused or be cut short when some of its content is already
in the file. Each access takes the next entry of a list of troubles:

    entry      read          create
    none       as the tree   as the tree
    trouble    refused       refused; the file is as it was, or holds what was left in it

Removing a file does not fail. A disk without troubles is its tree.
-/

namespace EpsilonNfa.Files

open FileTree

/-- What goes wrong with an access. -/
structure Trouble where
  fault : SystemFault
  /-- What a write leaves in its file, if it gets as far as opening it. -/
  left : Option ByteArray

/-- A tree of files, and what goes wrong with the accesses to come. -/
structure Disk where
  tree : FileTree
  troubles : List (Option Trouble)

namespace Disk

/-- What goes wrong with the next access. -/
def due (disk : Disk) : Option Trouble :=
  disk.troubles.head?.join

/-- The disk after an access that makes its tree `tree`. -/
def next (disk : Disk) (tree : FileTree) : Disk :=
  ⟨tree, disk.troubles.tail⟩

/-- The tree after a write that trouble has cut short. -/
def leave (tree : FileTree) (path : String) (trouble : Trouble) : FileTree :=
  match trouble.left with
  | none => tree
  | some left => (tree.create path left).toOption.getD tree

/-- Reads a file. -/
def read (disk : Disk) (path : String) : Except SystemFault ByteArray × Disk :=
  match disk.due with
  | none => (disk.tree.read path, disk.next disk.tree)
  | some trouble => (.error trouble.fault, disk.next disk.tree)

/-- Creates a file. -/
def create (disk : Disk) (path : String) (content : ByteArray) : Except SystemFault Unit × Disk :=
  match disk.tree.create path content, disk.due with
  | .error fault, _ => (.error fault, disk.next disk.tree)
  | .ok tree, none => (.ok (), disk.next tree)
  | .ok _, some trouble => (.error trouble.fault, disk.next (leave disk.tree path trouble))

/-- Removes a file. -/
def remove (disk : Disk) (path : String) : Disk :=
  { disk with tree := disk.tree.remove path }

/-- Removes several files. -/
def removeAll (disk : Disk) (paths : List String) : Disk :=
  { disk with tree := disk.tree.removeAll paths }

/-- A disk keeps files. -/
instance : Storage (StateM Disk) where
  read path := fun disk => disk.read path
  create path content := fun disk => disk.create path content
  remove path := fun disk => ((), disk.remove path)

variable {disk disk' : Disk} {path : String} {content : ByteArray}

@[simp]
theorem read_tree (disk : Disk) (path : String) : (disk.read path).2.tree = disk.tree := by
  rw [read]
  split <;> rfl

theorem create_of_ok (h : disk.create path content = (.ok (), disk')) :
    disk.tree.create path content = .ok disk'.tree := by
  rw [create] at h
  split at h
  · simp at h
  · next hcreate _ =>
    obtain ⟨-, rfl⟩ := Prod.mk.inj h
    exact hcreate
  · simp at h

theorem changedAt_leave (tree : FileTree) (path : String) (trouble : Trouble) :
    ChangedAt tree [path] (leave tree path trouble) := by
  rw [leave]
  split
  · exact .refl _ _
  · next left _ =>
    cases hcreate : tree.create path left with
    | error fault => exact .refl _ _
    | ok tree' => exact .create hcreate

/-- A write changes nothing but the file at its path, whether it succeeds or not. -/
theorem changedAt_of_create {result : Except SystemFault Unit}
    (h : disk.create path content = (result, disk')) : ChangedAt disk.tree [path] disk'.tree := by
  rw [create] at h
  split at h
  · obtain ⟨-, rfl⟩ := Prod.mk.inj h
    exact .refl _ _
  · next hcreate _ =>
    obtain ⟨-, rfl⟩ := Prod.mk.inj h
    exact .create hcreate
  · obtain ⟨-, rfl⟩ := Prod.mk.inj h
    exact changedAt_leave _ _ _

end Disk

/-! ### Disks without troubles -/

/-- A computation does on a disk without troubles what another one does on its tree. -/
def Agree {α : Type} (x : StateM FileTree α) (y : StateM Disk α) : Prop :=
  ∀ tree, y ⟨tree, []⟩ = ((x tree).1, ⟨(x tree).2, []⟩)

namespace Agree

variable {α β : Type}

theorem pure (a : α) : Agree (Pure.pure a) (Pure.pure a) :=
  fun _ => rfl

theorem bind {x : StateM FileTree α} {y : StateM Disk α} {f : α → StateM FileTree β}
    {g : α → StateM Disk β} (h : Agree x y) (hnext : ∀ a, Agree (f a) (g a)) :
    Agree (x >>= f) (y >>= g) := by
  intro tree
  simp only [Bind.bind, StateT.bind, h tree]
  exact hnext _ _

theorem read (path : String) : Agree (Storage.read path) (Storage.read path) :=
  fun _ => rfl

theorem create (path : String) (content : ByteArray) :
    Agree (Storage.create path content) (Storage.create path content) := by
  intro tree
  simp only [Storage.create, Disk.create, Disk.due]
  cases tree.create path content <;> rfl

theorem remove (path : String) : Agree (Storage.remove path) (Storage.remove path) :=
  fun _ => rfl

theorem removeAll (outputs : List Output) : Agree (removeAll outputs) (removeAll outputs) := by
  induction outputs with
  | nil => exact .pure ()
  | cons output rest ih => exact (remove output.path).bind fun _ => ih

theorem write (output : Output) : Agree (write output) (write output) := by
  refine (create _ _).bind fun result => ?_
  rcases result with fault | ⟨⟩ <;> exact .pure _

theorem writeAfter (written outputs : List Output) :
    Agree (writeAfter written outputs) (writeAfter written outputs) := by
  induction outputs generalizing written with
  | nil => exact .pure _
  | cons output rest ih =>
    refine (write output).bind fun result => ?_
    rcases result with failure | ⟨⟩
    · exact (removeAll _).bind fun _ => .pure _
    · exact ih _

end Agree

end EpsilonNfa.Files
