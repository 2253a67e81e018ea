import EpsilonNfa.Command.Run
import EpsilonNfa.Proofs.Command.Arguments
import EpsilonNfa.Proofs.Files.Writing
import EpsilonNfa.Proofs.Request.Reading

/-!
What a run does to the files, by its exit code:

    2   misused                        nothing is read or written
    1   no automaton from the input    nothing changes
    1   a write fails                  no file is left where one was to be written
    0                                  the table and the drawing are where they were asked for

Whatever happens, no directory comes or goes and files at other places stay as they are. The run is
one on a disk that can fail, so a failed write includes one that is cut short.
-/

namespace EpsilonNfa.Command

open Files FileTree

/-- A run on a disk: how it ends, and the disk after it. -/
def runOn (disk : Disk) (arguments : List String) : Outcome × Disk :=
  (run arguments : StateM Disk Outcome) disk

/-- What has been read is the text of a request, and its pattern compiles to `a`. -/
def Compiles (content : Except SystemFault ByteArray) (flags : Flags) (a : Automaton) : Prop :=
  ∃ bytes text request, content = .ok bytes ∧ String.fromUTF8? bytes = some text ∧
    Request.parse? text = some request ∧ compile flags request.pattern = .ok a

/-- The outputs of an automaton are in the tree `tree'`, which is otherwise the tree `tree`. -/
structure Delivered (tree : FileTree) (asked : Arguments) (a : Automaton) (tree' : FileTree) :
    Prop where
  read_graph : ∀ graph ∈ asked.graph, tree'.read graph = .ok a.toDot.toUTF8
  read_output :
    (∀ graph ∈ asked.graph, tree.place? graph ≠ tree.place? asked.output) →
      tree'.read asked.output = .ok (Table.ofAutomaton a).render.toUTF8
  read_shared : ∀ graph ∈ asked.graph, tree.place? graph = tree.place? asked.output →
    tree'.read asked.output = .ok a.toDot.toUTF8
  changedAt : ChangedAt tree (asked.output :: asked.graph.toList) tree'

/-- No file is at any of some paths in the tree `tree'`, which is otherwise the tree `tree`. -/
structure Withdrawn (tree : FileTree) (paths : List String) (tree' : FileTree) : Prop where
  not_holdsFile : ∀ path ∈ paths, ¬tree'.HoldsFile path
  changedAt : ChangedAt tree paths tree'

/-- The paths that a run tries to write to, by what comes of the first write. -/
def attempted (asked : Arguments) : Except SystemFault Unit → List String
  | .ok () => asked.output :: asked.graph.toList
  | .error _ => [asked.output]

variable {arguments : List String} {asked : Arguments} {disk disk' : Disk} {a : Automaton}

/-! ### The stages of a run -/

/-- What a run has made when it comes to its writes, from what it has read. -/
def automatonOf (asked : Arguments) (content : Except SystemFault ByteArray) :
    Except Failure Automaton :=
  match requestOf asked.input content with
  | .error failure => .error failure
  | .ok request => (compile asked.flags request.pattern).mapError .invalidPattern

theorem requestOf_eq_ok_iff {path : String} {content : Except SystemFault ByteArray}
    {request : Request} :
    requestOf path content = .ok request ↔
      ∃ bytes text, content = .ok bytes ∧ String.fromUTF8? bytes = some text ∧
        Request.parse? text = some request := by
  cases content with
  | error fault => simp [requestOf]
  | ok bytes =>
    cases htext : String.fromUTF8? bytes with
    | none => simp [requestOf, htext]
    | some text => cases hrequest : Request.parse? text <;> simp [requestOf, htext, hrequest]

theorem automatonOf_eq_ok_iff {content : Except SystemFault ByteArray} :
    automatonOf asked content = .ok a ↔ Compiles content asked.flags a := by
  have hcompile (request : Request) :
      (compile asked.flags request.pattern).mapError Failure.invalidPattern = .ok a ↔
        compile asked.flags request.pattern = .ok a := by
    cases compile asked.flags request.pattern <;> simp [Except.mapError]
  constructor
  · intro h
    rw [automatonOf] at h
    split at h
    · nomatch h
    · next request hrequest =>
      obtain ⟨bytes, text, hcontent, htext, hparse⟩ := requestOf_eq_ok_iff.1 hrequest
      exact ⟨bytes, text, request, hcontent, htext, hparse, (hcompile request).1 h⟩
  · rintro ⟨bytes, text, request, hcontent, htext, hparse, h⟩
    have hrequest : requestOf asked.input content = .ok request :=
      requestOf_eq_ok_iff.2 ⟨bytes, text, hcontent, htext, hparse⟩
    simpa only [automatonOf, hrequest] using (hcompile request).2 h

theorem perform_eq {m : Type → Type} [Monad m] [LawfulMonad m] [Storage m] (asked : Arguments) :
    (perform asked : m _) = Storage.read asked.input >>= fun content =>
      match automatonOf asked content with
      | .error failure => pure (.error failure)
      | .ok a => writeAllOrNothing (outputs asked a) := by
  simp only [perform, readRequest, bind_assoc, pure_bind, automatonOf]
  congr 1
  funext content
  cases requestOf asked.input content with
  | error failure => rfl
  | ok request =>
    simp only
    cases compile asked.flags request.pattern <;> rfl

theorem run_of_misused {m : Type → Type} [Monad m] [Storage m] (h : Misused arguments) :
    (run arguments : m Outcome) = pure .usage := by
  rw [run, Arguments.parse?_eq_none_iff.2 h]

/-- How a run ends that the arguments ask for. -/
def Outcome.ofResult : Except Failure Unit → Outcome
  | .ok () => .done
  | .error failure => .failed failure

theorem run_of_asks {m : Type → Type} [Monad m] [LawfulMonad m] [Storage m]
    (h : Asks arguments asked) :
    (run arguments : m Outcome) = Outcome.ofResult <$> perform asked := by
  simp only [run, Arguments.parse?_eq_some_iff.2 h, map_eq_pure_bind]
  congr 1
  funext result
  rcases result with _ | ⟨⟩ <;> rfl

theorem runOn_of_misused (h : Misused arguments) : runOn disk arguments = (.usage, disk) := by
  rw [runOn, run_of_misused h]
  rfl

theorem runOn_of_asks (h : Asks arguments asked) :
    runOn disk arguments =
      (.ofResult ((perform asked : StateM Disk _) disk).1,
        ((perform asked : StateM Disk _) disk).2) := by
  rw [runOn, run_of_asks h]
  rfl

theorem perform_of_automatonOf (h : automatonOf asked (disk.read asked.input).1 = .ok a) :
    (perform asked : StateM Disk _) disk
      = (writeAllOrNothing (outputs asked a) : StateM Disk _) (disk.read asked.input).2 := by
  simp only [perform_eq, bind, StateT.bind, Storage.read, h]

theorem runOn_of_automatonOf_error {failure : Failure} (hasks : Asks arguments asked)
    (h : automatonOf asked (disk.read asked.input).1 = .error failure) :
    runOn disk arguments = (.failed failure, (disk.read asked.input).2) := by
  rw [runOn_of_asks hasks]
  simp only [perform_eq, bind, StateT.bind, Storage.read, h]
  rfl

/-- Without an automaton the run fails after it has read. -/
theorem runOn_of_not_compiles (hasks : Asks arguments asked)
    (h : ¬∃ a, Compiles (disk.read asked.input).1 asked.flags a) :
    ∃ failure, runOn disk arguments = (.failed failure, (disk.read asked.input).2) := by
  cases hautomaton : automatonOf asked (disk.read asked.input).1 with
  | ok a => exact absurd ⟨a, automatonOf_eq_ok_iff.1 hautomaton⟩ h
  | error failure => exact ⟨failure, runOn_of_automatonOf_error hasks hautomaton⟩

theorem runOn_of_written (hasks : Asks arguments asked)
    (ha : Compiles (disk.read asked.input).1 asked.flags a)
    (h : Written (disk.read asked.input).2 (outputs asked a) disk') :
    runOn disk arguments = (.done, disk') := by
  rw [runOn_of_asks hasks, perform_of_automatonOf (automatonOf_eq_ok_iff.2 ha), writeAllOrNothing,
    writeAfter_of_written h]
  rfl

theorem runOn_of_refused {done : List Output} {refused : Output} {fault : SystemFault}
    (hasks : Asks arguments asked) (ha : Compiles (disk.read asked.input).1 asked.flags a)
    (h : Refused (disk.read asked.input).2 (outputs asked a) done refused fault disk') :
    runOn disk arguments =
      (.failed (.system refused.path fault),
        disk'.removeAll ((done ++ [refused]).map Output.path)) := by
  rw [runOn_of_asks hasks, perform_of_automatonOf (automatonOf_eq_ok_iff.2 ha), writeAllOrNothing,
    writeAfter_of_refused h]
  rfl

/-- A run names its input as malformed exactly when the text of the input prints no value that asks
    for a pattern, and it is no JSON or another value that makes it so. -/
theorem runOn_malformedRequest_iff {bytes : ByteArray} {text : String}
    (hasks : Asks arguments asked) (hread : (disk.read asked.input).1 = .ok bytes)
    (htext : String.fromUTF8? bytes = some text) :
    (runOn disk arguments).1 = .failed (.malformedRequest asked.input) ↔
      ∀ v : Json.Value, v.Prints text → ∀ p, ¬ v.Requests p := by
  rw [← Request.parse?_eq_none_iff]
  cases hparse : Request.parse? text with
  | none =>
    have hautomaton : automatonOf asked (disk.read asked.input).1 =
        .error (.malformedRequest asked.input) := by
      simp only [automatonOf, requestOf, hread, htext, hparse]
    rw [runOn_of_automatonOf_error hasks hautomaton]
    simp
  | some request =>
    have hrequest : requestOf asked.input (disk.read asked.input).1 = .ok request :=
      requestOf_eq_ok_iff.2 ⟨bytes, text, hread, htext, hparse⟩
    cases hcompile : compile asked.flags request.pattern with
    | error fault =>
      have hautomaton : automatonOf asked (disk.read asked.input).1 =
          .error (.invalidPattern fault) := by
        simp only [automatonOf, hrequest, hcompile, Except.mapError]
      rw [runOn_of_automatonOf_error hasks hautomaton]
      simp
    | ok a =>
      have ha : Compiles (disk.read asked.input).1 asked.flags a :=
        ⟨bytes, text, request, hread, htext, hparse, hcompile⟩
      obtain ⟨disk', h⟩ | ⟨done, refused, fault, disk', h⟩ :=
        written_or_refused (disk.read asked.input).2 (outputs asked a)
      · rw [runOn_of_written hasks ha h]
        simp
      · rw [runOn_of_refused hasks ha h]
        simp

/-! ### The outputs of a run -/

theorem delivered_of_written (h : Written disk (outputs asked a) disk') :
    Delivered disk.tree asked a disk'.tree := by
  obtain ⟨input, output, graph, flags⟩ := asked
  cases graph with
  | none =>
    refine ⟨nofun, fun _ => ?_, nofun, h.changedAt⟩
    exact Written.read [] h nofun
  | some graph =>
    -- the drawing comes last, so nothing is written over it
    have hgraph : disk'.tree.read graph = .ok a.toDot.toUTF8 :=
      Written.read [_] h nofun
    refine ⟨?_, fun hplace => ?_, ?_, h.changedAt⟩
    · rintro _ ⟨⟩
      exact hgraph
    · refine Written.read [] h fun later hlater => ?_
      obtain rfl := List.mem_singleton.1 hlater
      exact hplace graph rfl
    · rintro _ ⟨⟩ hplace
      rw [← h.changedAt.place?_eq, ← h.changedAt.place?_eq] at hplace
      exact (read_congr hplace).1 hgraph

/-- The writes up to a refused one are those that a run has attempted. -/
theorem map_path_eq_attempted {done : List Output} {refused : Output} {fault : SystemFault}
    (h : Refused disk (outputs asked a) done refused fault disk') :
    (done ++ [refused]).map Output.path =
      attempted asked (disk.create asked.output (Table.ofAutomaton a).render.toUTF8).1 := by
  obtain ⟨input, output, graph, flags⟩ := asked
  cases h with
  | head h => simp only [h, attempted, List.nil_append, List.map_cons, List.map_nil]
  | tail h hrest =>
    simp only [h, attempted]
    cases graph with
    | none => nomatch hrest
    | some graph =>
      cases hrest with
      | head h => rfl
      | tail h hrest => nomatch hrest

theorem withdrawn_of_refused {done : List Output} {refused : Output} {fault : SystemFault}
    (h : Refused disk (outputs asked a) done refused fault disk') :
    Withdrawn disk.tree
      (attempted asked (disk.create asked.output (Table.ofAutomaton a).render.toUTF8).1)
      (disk'.removeAll ((done ++ [refused]).map Output.path)).tree := by
  rw [← map_path_eq_attempted h]
  exact ⟨List.forall_mem_map.2 h.removeAll.1, h.removeAll.2⟩

/-! ### The run as a whole -/

theorem Outcome.exitCode_ofResult_ne_two (result : Except Failure Unit) :
    (ofResult result).exitCode ≠ 2 := by
  cases result with
  | error failure => exact (by decide : (1 : UInt32) ≠ 2)
  | ok _ => exact (by decide : (0 : UInt32) ≠ 2)

theorem exitCode_eq_two_iff : (runOn disk arguments).1.exitCode = 2 ↔ Misused arguments := by
  constructor
  · intro hcode
    by_contra hmisused
    obtain ⟨asked, hasks⟩ := Arguments.exists_asks_iff.2 hmisused
    rw [runOn_of_asks hasks] at hcode
    exact Outcome.exitCode_ofResult_ne_two _ hcode
  · intro hmisused
    rw [runOn_of_misused hmisused]
    rfl

theorem agree_perform (asked : Arguments) : Agree (perform asked) (perform asked) := by
  rw [perform_eq, perform_eq]
  refine (Agree.read asked.input).bind fun content => ?_
  cases automatonOf asked content with
  | error failure => exact .pure _
  | ok a => exact .writeAfter [] _

theorem agree_run (arguments : List String) : Agree (run arguments) (run arguments) := by
  by_cases hmisused : Misused arguments
  · rw [run_of_misused hmisused, run_of_misused hmisused]
    exact .pure _
  · obtain ⟨asked, hasks⟩ := Arguments.exists_asks_iff.2 hmisused
    rw [run_of_asks hasks, run_of_asks hasks, map_eq_pure_bind, map_eq_pure_bind]
    exact (agree_perform asked).bind fun _ => .pure _

/-- The exit code tells what a run has done to the files, on any disk. It is 2 just for arguments
    that are misused, and then nothing is read or written. Otherwise it is 1 if the input gives no
    automaton, and the files are as before; else it is 0 just if every write succeeds, and then the
    outputs are delivered; or it is 1, and what was attempted is withdrawn. Of the options it
    matters only which of them occur, and on a disk without troubles the run is that on its tree. -/
theorem exitCode_tells_files (arguments : List String) (disk : Disk) :
    ((runOn disk arguments).1.exitCode = 2 ↔ Misused arguments) ∧
    (Misused arguments →
      ∀ {m : Type → Type} [Monad m] [Storage m], (run arguments : m Outcome) = pure .usage) ∧
    (∀ arguments', arguments.filter (¬Dashed ·) = arguments'.filter (¬Dashed ·) →
      (∀ option, Dashed option → (option ∈ arguments ↔ option ∈ arguments')) →
      ∀ {m : Type → Type} [Monad m] [Storage m], (run arguments : m Outcome) = run arguments') ∧
    (¬Misused arguments → ∃ asked, Asks arguments asked ∧
      ((¬∃ a, Compiles (disk.read asked.input).1 asked.flags a) →
        (runOn disk arguments).1.exitCode = 1 ∧ (runOn disk arguments).2.tree = disk.tree) ∧
      ∀ a, Compiles (disk.read asked.input).1 asked.flags a →
        ((runOn disk arguments).1.exitCode = 0 ↔
          ∃ disk', Written (disk.read asked.input).2 (outputs asked a) disk') ∧
        ((runOn disk arguments).1.exitCode = 0 →
          Delivered disk.tree asked a (runOn disk arguments).2.tree) ∧
        ((runOn disk arguments).1.exitCode ≠ 0 →
          (runOn disk arguments).1.exitCode = 1 ∧
          Withdrawn disk.tree
            (attempted asked ((disk.read asked.input).2.create asked.output
              (Table.ofAutomaton a).render.toUTF8).1)
            (runOn disk arguments).2.tree)) ∧
    Agree (run arguments) (run arguments) := by
  refine ⟨exitCode_eq_two_iff, fun h => run_of_misused h, fun arguments' hpaths hoptions => ?_,
    fun hused => ?_, agree_run arguments⟩
  · intro m _ _
    rw [run, run, Arguments.parse?_congr hpaths hoptions]
  · obtain ⟨asked, hasks⟩ := Arguments.exists_asks_iff.2 hused
    refine ⟨asked, hasks, fun hnone => ?_, fun a ha => ?_⟩
    · obtain ⟨failure, hrun⟩ := runOn_of_not_compiles hasks hnone
      rw [hrun]
      exact ⟨rfl, Disk.read_tree disk asked.input⟩
    · obtain ⟨disk', h⟩ | ⟨done, refused, fault, disk', h⟩ :=
        written_or_refused (disk.read asked.input).2 (outputs asked a)
      · have hdelivered := delivered_of_written h
        rw [Disk.read_tree] at hdelivered
        rw [runOn_of_written hasks ha h]
        refine ⟨⟨fun _ => ⟨disk', h⟩, fun _ => rfl⟩, fun _ => hdelivered, fun hcode => ?_⟩
        exact absurd rfl hcode
      · have hwithdrawn := withdrawn_of_refused h
        rw [Disk.read_tree] at hwithdrawn
        have hrun := runOn_of_refused hasks ha h
        have hcode : (runOn disk arguments).1.exitCode ≠ 0 := by
          rw [hrun]
          exact (by decide : (1 : UInt32) ≠ 0)
        refine ⟨⟨fun h0 => absurd h0 hcode, ?_⟩, fun h0 => absurd h0 hcode, fun _ => ?_⟩
        -- if all could be written after all, the run would have ended well
        · rintro ⟨written, hwritten⟩
          rw [runOn_of_written hasks ha hwritten]
          rfl
        · rw [hrun]
          exact ⟨rfl, hwithdrawn⟩

/-- A disk with a request at `in` and the output of an earlier run at `out`. -/
def usedDisk (troubles : List (Option Trouble)) : Disk :=
  ⟨⟨[(["in"], .file "[\"a*\"]".toUTF8), (["out"], .file "".toUTF8)]⟩, troubles⟩

/-- What a write leaves behind when no space is left part way through it. -/
def noSpace : Trouble := ⟨.other "No space left on device" 28, some "digraph".toUTF8⟩

/-- A run that succeeds, and the same run when the space ends within the drawing. -/
theorem exitCode_tells_files_no_space :
    (∃ a, compile { sharedStar := true } "a*" = .ok a ∧
      (runOn (usedDisk []) ["--shared-star", "in", "out", "dot"]).1.exitCode = 0 ∧
      Delivered (usedDisk []).tree ⟨"in", "out", some "dot", { sharedStar := true }⟩ a
        (runOn (usedDisk []) ["--shared-star", "in", "out", "dot"]).2.tree) ∧
    (runOn (usedDisk [none, none, some noSpace]) ["--shared-star", "in", "out", "dot"]).1.exitCode
      = 1 ∧
    Withdrawn (usedDisk []).tree ["out", "dot"]
      (runOn (usedDisk [none, none, some noSpace])
        ["--shared-star", "in", "out", "dot"]).2.tree := by
  have hparse : Arguments.parse? ["--shared-star", "in", "out", "dot"]
      = some ⟨"in", "out", some "dot", { sharedStar := true }⟩ := by decide
  have hused : ¬Misused ["--shared-star", "in", "out", "dot"] :=
    Arguments.exists_asks_iff.1 ⟨_, Arguments.parse?_eq_some_iff.1 hparse⟩
  obtain ⟨a, ha⟩ : ∃ a, compile { sharedStar := true } "a*" = .ok a := ⟨_, rfl⟩
  have hcompiles : Compiles ((usedDisk []).tree.read "in") { sharedStar := true } a :=
    ⟨_, "[\"a*\"]", ⟨some "a*"⟩, rfl, rfl, by decide, ha⟩
  constructor
  · obtain ⟨-, -, -, h, -⟩ :=
      exitCode_tells_files ["--shared-star", "in", "out", "dot"] (usedDisk [])
    obtain ⟨asked, hasks, -, h⟩ := h hused
    obtain rfl := Option.some.inj ((Arguments.parse?_eq_some_iff.2 hasks).symm.trans hparse)
    have hcode : (runOn (usedDisk []) ["--shared-star", "in", "out", "dot"]).1.exitCode = 0 := by
      decide +kernel
    exact ⟨a, ha, hcode, (h a hcompiles).2.1 hcode⟩
  · obtain ⟨-, -, -, h, -⟩ := exitCode_tells_files ["--shared-star", "in", "out", "dot"]
      (usedDisk [none, none, some noSpace])
    obtain ⟨asked, hasks, -, h⟩ := h hused
    obtain rfl := Option.some.inj ((Arguments.parse?_eq_some_iff.2 hasks).symm.trans hparse)
    refine (h a hcompiles).2.2 ?_
    decide +kernel

end EpsilonNfa.Command
