import EpsilonNfa.Proofs.Files.Disk

/-!
Writing all outputs or none. Outputs are written in order; either every write succeeds, or one of
them is the first that is refused, and then the files of all outputs up to it are removed:

    o₁  o₂  …  oₖ₋₁  oₖ  oₖ₊₁  …        o₁  o₂  …  oₙ
    └── removed ──────┘  └ untouched      └── kept ──┘

What the refused write has left behind is removed with the others. Later outputs may name the files
of earlier ones, or lie where earlier ones have put a file; places do not change meanwhile, so the
effects are told by the tree before the first write.
-/

namespace EpsilonNfa.Files

open FileTree

/-- All of some outputs are written, one after the other. -/
inductive Written : Disk → List Output → Disk → Prop where
  | nil (disk : Disk) : Written disk [] disk
  | cons {disk disk' disk'' : Disk} {output : Output} {rest : List Output}
      (h : disk.create output.path output.text.toUTF8 = (.ok (), disk'))
      (hrest : Written disk' rest disk'') : Written disk (output :: rest) disk''

/-- The first of some outputs that cannot be written is `refused`, after those in `done`. -/
inductive Refused : Disk → List Output → (done : List Output) → (refused : Output) →
    SystemFault → Disk → Prop where
  | head {disk disk' : Disk} {output : Output} {rest : List Output} {fault : SystemFault}
      (h : disk.create output.path output.text.toUTF8 = (.error fault, disk')) :
      Refused disk (output :: rest) [] output fault disk'
  | tail {disk disk' disk'' : Disk} {output refused : Output} {rest done : List Output}
      {fault : SystemFault} (h : disk.create output.path output.text.toUTF8 = (.ok (), disk'))
      (hrest : Refused disk' rest done refused fault disk'') :
      Refused disk (output :: rest) (output :: done) refused fault disk''

/-- Either all outputs are written or there is a first one that is refused. -/
theorem written_or_refused (disk : Disk) (outputs : List Output) :
    (∃ disk', Written disk outputs disk') ∨
      ∃ done refused fault disk', Refused disk outputs done refused fault disk' := by
  induction outputs generalizing disk with
  | nil => exact .inl ⟨disk, .nil disk⟩
  | cons output rest ih =>
    rcases hcreate : disk.create output.path output.text.toUTF8 with ⟨fault | ⟨⟩, next⟩
    · exact .inr ⟨[], output, fault, next, .head hcreate⟩
    · obtain ⟨disk', h⟩ | ⟨done, refused, fault, disk', h⟩ := ih next
      · exact .inl ⟨disk', .cons hcreate h⟩
      · exact .inr ⟨output :: done, refused, fault, disk', .tail hcreate h⟩

variable {disk disk' : Disk} {output refused : Output} {outputs rest done written : List Output}
variable {fault : SystemFault}

/-- Up to the first output that is refused, all are written; what comes after it does not matter. -/
theorem refused_iff :
    Refused disk outputs done refused fault disk' ↔ ∃ rest reached,
      outputs = done ++ refused :: rest ∧ Written disk done reached ∧
      reached.create refused.path refused.text.toUTF8 = (.error fault, disk') := by
  constructor
  · intro h
    induction h with
    | head h => exact ⟨_, _, rfl, .nil _, h⟩
    | tail h _ ih =>
      obtain ⟨rest, reached, rfl, hdone, hcreate⟩ := ih
      exact ⟨rest, reached, rfl, .cons h hdone, hcreate⟩
  · rintro ⟨rest, reached, rfl, hdone, hcreate⟩
    induction hdone with
    | nil disk => exact .head hcreate
    | cons h _ ih => exact .tail h (ih hcreate)

/-! ### The run of the writes -/

theorem removeAll_eq (outputs : List Output) (disk : Disk) :
    (removeAll outputs : StateM Disk Unit) disk
      = ((), disk.removeAll (outputs.map Output.path)) := by
  induction outputs generalizing disk with
  | nil => rfl
  | cons output rest ih => exact ih (disk.remove output.path)

theorem writeAfter_of_ok (h : disk.create output.path output.text.toUTF8 = (.ok (), disk')) :
    (writeAfter written (output :: rest) : StateM Disk _) disk
      = (writeAfter (output :: written) rest : StateM Disk _) disk' := by
  simp only [writeAfter, write, bind, StateT.bind, Storage.create, h]
  rfl

theorem writeAfter_of_error
    (h : disk.create output.path output.text.toUTF8 = (.error fault, disk')) :
    (writeAfter written (output :: rest) : StateM Disk _) disk
      = (.error (.system output.path fault),
          disk'.removeAll ((written.reverse ++ [output]).map Output.path)) := by
  rw [← List.reverse_cons]
  simp only [writeAfter, write, bind, StateT.bind, Storage.create, h]
  change (_, ((removeAll (output :: written).reverse : StateM Disk Unit) disk').2) = _
  rw [removeAll_eq]

theorem writeAfter_of_written (h : Written disk outputs disk') :
    (writeAfter written outputs : StateM Disk _) disk = (.ok (), disk') := by
  induction h generalizing written with
  | nil disk => rfl
  | cons h _ ih => rw [writeAfter_of_ok h, ih]

theorem writeAfter_of_refused (h : Refused disk outputs done refused fault disk') :
    (writeAfter written outputs : StateM Disk _) disk
      = (.error (.system refused.path fault),
          disk'.removeAll ((written.reverse ++ done ++ [refused]).map Output.path)) := by
  induction h generalizing written with
  | head h => rw [writeAfter_of_error h, List.append_nil]
  | tail h _ ih => simp [writeAfter_of_ok h, ih]

/-! ### What is kept -/

theorem Written.changedAt (h : Written disk outputs disk') :
    ChangedAt disk.tree (outputs.map Output.path) disk'.tree := by
  induction h with
  | nil disk => exact .refl _ _
  | cons h _ ih => exact (Disk.changedAt_of_create h).trans ih

/-- An output is read back unless a later one is written to the same place. -/
theorem Written.read (done : List Output) (h : Written disk (done ++ output :: rest) disk')
    (hrest : ∀ later ∈ rest, disk.tree.place? later.path ≠ disk.tree.place? output.path) :
    disk'.tree.read output.path = .ok output.text.toUTF8 := by
  induction done generalizing disk with
  | nil =>
    cases h with
    | cons h hothers =>
      refine hothers.changedAt.read_eq_ok (List.forall_mem_map.2 fun later hlater => ?_)
        (read_of_create (Disk.create_of_ok h))
      simpa only [(Disk.changedAt_of_create h).place?_eq] using hrest later hlater
  | cons first done ih =>
    cases h with
    | cons h hothers =>
      refine ih hothers fun later hlater => ?_
      simpa only [(Disk.changedAt_of_create h).place?_eq] using hrest later hlater

/-! ### What is removed -/

theorem Refused.changedAt (h : Refused disk outputs done refused fault disk') :
    ChangedAt disk.tree ((done ++ [refused]).map Output.path) disk'.tree := by
  induction h with
  | head h => exact Disk.changedAt_of_create h
  | tail h _ ih => exact (Disk.changedAt_of_create h).trans ih

/-- After a refused write there is no file at the path of any output up to it, and everything
    else is as before the first write. -/
theorem Refused.removeAll (h : Refused disk outputs done refused fault disk') :
    (∀ output ∈ done ++ [refused],
      ¬(disk'.tree.removeAll ((done ++ [refused]).map Output.path)).HoldsFile output.path) ∧
    ChangedAt disk.tree ((done ++ [refused]).map Output.path)
      (disk'.tree.removeAll ((done ++ [refused]).map Output.path)) := by
  constructor
  · intro output houtput hfile
    exact (holdsFile_of_removeAll hfile).2 (List.mem_map_of_mem houtput)
  · exact (h.changedAt.trans (.removeAll _ _)).mono (by simp)

/-! ### The run as a whole -/

/-- The writes on a disk: whether they succeed, and the disk after them. -/
def writeOn (disk : Disk) (outputs : List Output) : Except Failure Unit × Disk :=
  (writeAllOrNothing outputs : StateM Disk _) disk

theorem writeOn_of_written (h : Written disk outputs disk') :
    writeOn disk outputs = (.ok (), disk') :=
  writeAfter_of_written h

theorem writeOn_of_refused (h : Refused disk outputs done refused fault disk') :
    writeOn disk outputs = (.error (.system refused.path fault),
      disk'.removeAll ((done ++ [refused]).map Output.path)) :=
  writeAfter_of_refused h

/-- Each place that some outputs name holds in the tree `tree'` the last of them, and `tree'` is
    otherwise the tree `tree`. -/
structure Kept (tree : FileTree) (outputs : List Output) (tree' : FileTree) : Prop where
  read_eq : ∀ done output rest path, outputs = done ++ output :: rest →
    tree.place? output.path = tree.place? path →
    (∀ later ∈ rest, tree.place? later.path ≠ tree.place? path) →
      tree'.read path = .ok output.text.toUTF8
  changedAt : ChangedAt tree (outputs.map Output.path) tree'

theorem kept_of_written (h : Written disk outputs disk') :
    Kept disk.tree outputs disk'.tree where
  read_eq := by
    rintro done output rest path rfl hplace hrest
    have hread : disk'.tree.read output.path = .ok output.text.toUTF8 :=
      Written.read done h (by simpa only [hplace] using hrest)
    rw [← h.changedAt.place?_eq, ← h.changedAt.place?_eq path] at hplace
    exact (read_congr hplace).1 hread
  changedAt := h.changedAt

/-- Some outputs are written on any disk, whatever their paths. If that succeeds, all of them are
    kept. If it fails, the failure names the first output that is refused when they are written in
    order; no file is left at the place of that output or of any one before it, the tree is
    otherwise the same, and the outputs after it might have been any others. On a disk without
    troubles all that is done on its tree. -/
theorem writeOn_all_or_nothing (disk : Disk) (outputs : List Output) :
    ((writeOn disk outputs).1 = .ok () →
      Kept disk.tree outputs (writeOn disk outputs).2.tree) ∧
    (∀ failure, (writeOn disk outputs).1 = .error failure →
      ∃ done refused rest fault reached left,
        outputs = done ++ refused :: rest ∧ Written disk done reached ∧
        reached.create refused.path refused.text.toUTF8 = (.error fault, left) ∧
        failure = .system refused.path fault ∧
        (∀ output ∈ done ++ [refused], ¬(writeOn disk outputs).2.tree.HoldsFile output.path) ∧
        ChangedAt disk.tree ((done ++ [refused]).map Output.path) (writeOn disk outputs).2.tree ∧
        ∀ others, writeOn disk (done ++ refused :: others) = writeOn disk outputs) ∧
    Agree (writeAllOrNothing outputs) (writeAllOrNothing outputs) := by
  refine ⟨fun hok => ?_, fun failure herror => ?_, Agree.writeAfter [] outputs⟩
  · obtain ⟨disk', h⟩ | ⟨done, refused, fault, disk', h⟩ := written_or_refused disk outputs
    · rw [writeOn_of_written h]
      exact kept_of_written h
    · rw [writeOn_of_refused h] at hok
      nomatch hok
  · obtain ⟨disk', h⟩ | ⟨done, refused, fault, left, h⟩ := written_or_refused disk outputs
    · rw [writeOn_of_written h] at herror
      nomatch herror
    · obtain ⟨rest, reached, hsplit, hdone, hcreate⟩ := refused_iff.1 h
      obtain ⟨hnone, hchanged⟩ := h.removeAll
      rw [writeOn_of_refused h] at herror ⊢
      refine ⟨done, refused, rest, fault, reached, left, hsplit, hdone, hcreate, ?_, hnone,
        hchanged, fun others => ?_⟩
      · exact (Except.error.inj herror).symm
      · exact writeOn_of_refused (refused_iff.2 ⟨others, reached, rfl, hdone, hcreate⟩)

/-- A disk with a file at `a`. -/
def oldDisk : Disk :=
  ⟨⟨[(["a"], .file "old".toUTF8)]⟩, []⟩

/-- A second output at the place of the first replaces it. The third lies below that place and is
    refused; then there is no file at the place any more, though there was one in the beginning. -/
theorem writeOn_all_or_nothing_below :
    let outputs : List Output := [⟨"a", "1"⟩, ⟨"./a", "2"⟩, ⟨"a/b", "3"⟩, ⟨"c", "4"⟩]
    (writeOn oldDisk (outputs.take 2)).1 = .ok () ∧
      (writeOn oldDisk (outputs.take 2)).2.tree.read "a" = .ok "2".toUTF8 ∧
      (writeOn oldDisk outputs).1 = .error (.system "a/b" .notDirectory) ∧
      ¬(writeOn oldDisk outputs).2.tree.HoldsFile "a" := by
  intro outputs
  have hok : (writeOn oldDisk (outputs.take 2)).1 = .ok () := rfl
  have herror : (writeOn oldDisk outputs).1 = .error (.system "a/b" .notDirectory) := rfl
  have hkept := (writeOn_all_or_nothing oldDisk (outputs.take 2)).1 hok
  obtain ⟨done, refused, rest, fault, -, -, hsplit, -, -, hfailure, hnone, -⟩ :=
    (writeOn_all_or_nothing oldDisk outputs).2.1 _ herror
  refine ⟨hok, hkept.read_eq [_] _ [] "a" rfl (by decide +kernel) nofun, herror, ?_⟩
  -- the first output is not the one that is refused, so it comes before it
  cases done with
  | nil =>
    obtain ⟨rfl, -⟩ := List.cons.inj hsplit
    simp at hfailure
  | cons first done =>
    obtain ⟨rfl, -⟩ := List.cons.inj hsplit
    exact hnone _ List.mem_cons_self

end EpsilonNfa.Files
