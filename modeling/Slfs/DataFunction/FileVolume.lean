import Slfs.DataFunction.Contents

/-
  Requests as writes of files.

  A request reads the records of its directories, and a
  renaming also the file. It makes inputs from these, each of
  which is written from the start of its file on.

  Main declarations:
    * `Store.HasFiles`, a store with a catalog and files
    * `Volume.reads_refine_files`
-/

----------
-- Stores With Files
----------

namespace Slfs

open Transition

open Jsre
open DataFunction

/- The bytes of a directory's records. -/
def Catalog.records
    (cat : Catalog)
    (files : Files)
    (uuid : Uuid) :
    Bytes :=
  match cat uuid with
  | none => []
  | some entries =>
      Buffer.resize (files uuid)
        (Directory.size entries.length)

/- What a read from the start of a file sees. -/
def Files.read
    (conf : StorageConf)
    (files : Files)
    (uuid : Uuid)
    (size : Nat) :
    Bytes :=
  Buffer.resize (files uuid)
    (min size (Blocks.span conf.blocksize (files uuid)))

/- The inputs that a handler goes on with. -/
def DataFunction.written : Next Writes → List Input
| .act (.go writes) => writes.2
| _ => []

/- What the handler of a request does. -/
def Task.outcome
    (conf : StorageConf)
    (cat : Catalog)
    (files : Files)
    (task : Task) :
    Next Writes :=
  task.next conf (cat.records files)
    (fun uuid size => files.read conf uuid size.toNat)

/- The inputs of a request's commit, none if it has none. -/
def Task.inputs
    (conf : StorageConf)
    (cat : Catalog)
    (files : Files)
    (task : Task) :
    List Input :=
  written (task.outcome conf cat files)

namespace Store

/- A store with the directories and the files it should have. -/
structure HasFiles
    (conf : StorageConf)
    (s : Store)
    (cat : Catalog)
    (files : Files) :
    Prop where
  holds : s.Holds conf cat
  contains : s.servers.Contains conf files

variable {conf : StorageConf} {s : Store}
variable {cat : Catalog} {files : Files}

theorem HasFiles.records_eq
    (h : s.HasFiles conf cat files) :
    s.records conf cat = cat.records files := by
  funext uuid
  unfold records Catalog.records
  cases cat uuid with
  | none => rfl
  | some entries =>
      refine Buffer.ext_nth (by simp) ?_
      intro x hx
      rw [Buffer.nth_resize, Buffer.nth_map_range,
        h.contains.byteAt]

theorem HasFiles.read_eq
    (h : s.HasFiles conf cat files) :
    s.read conf =
      fun uuid size => files.read conf uuid size.toNat := by
  funext uuid size
  have hSize : size.toNat < 2 ^ 32 :=
    Nat.lt_trans size.toNat_lt (by decide)
  unfold read
  rw [h.contains.readBytes_zero uuid hSize, Option.getD_some]
  rfl

end Store

----------
-- Requests Write Their Inputs
----------

open Coordinator (okReply)

namespace Cluster

theorem wrote_nil
    {conf : StorageConf}
    {c : Cluster} :
    Wrote conf (piecesOf conf []) c c where
  content := by simp [piecesOf]
  pending := by simp [piecesOf]
  frame := fun _ _ => rfl

end Cluster

namespace Store

variable {conf : StorageConf}
variable {formatTime : UInt64 → Bytes} {fuel : Nat}
variable {s s' : Store} {cat : Catalog} {files : Files}
variable {replies : List Bytes} {task : Task}

/- A handler that follows an edit writes its inputs. -/
theorem Holds.wrote
    (h : s.Holds conf cat)
    {edit : Option Catalog}
    {next : Next Writes}
    (hFollows : cat.Follows edit next)
    (hDone : Concluded conf s replies s' next) :
    Catalog.Edits (written next) cat (edit.getD cat) ∧
      Cluster.Wrote conf
        (Cluster.piecesOf conf (written next))
        s.servers s'.servers := by
  have hRefused : edit = none → s'.servers = s.servers →
      Catalog.Edits [] cat (edit.getD cat) ∧
        Cluster.Wrote conf (Cluster.piecesOf conf [])
          s.servers s'.servers := by
    intro hEdit hServers
    rw [hEdit, hServers]
    exact ⟨Catalog.edits_nil, Cluster.wrote_nil⟩
  cases next with
  | noSuchDirectory => exact hRefused hFollows hDone.2
  | reread size => exact hDone.elim
  | act action =>
      cases action with
      | reply buf => exact hRefused hFollows.1 hDone.2
      | undefined => exact hDone.elim
      | go writes =>
          rcases hFollows with ⟨cat', hEdit, hEdits, _⟩
          rcases hDone with ⟨schedule, hRun⟩
          rw [hEdit]
          exact ⟨hEdits, wrote_of_startTwoPcPrepare h.noPending
            hEdits.whole.nodup hRun⟩

/- What the handler of a request does, and what it comes to. -/
theorem HasFiles.outcome
    (h : s.HasFiles conf cat files)
    (hFuel : 2 ≤ fuel)
    (hProper : task.Proper conf s cat)
    (hWork : task.work.edits = true)
    (hRun :
      s.runTask conf formatTime fuel task =
        some (replies, s')) :
    cat.Follows (cat.step conf task)
        (task.outcome conf cat files) ∧
      Concluded conf s replies s'
        (task.outcome conf cat files) := by
  have hFollows := h.holds.follows hProper
  have hDone := h.holds.concluded hFuel hProper hWork hRun
  rw [h.records_eq, h.read_eq] at hFollows hDone
  exact ⟨hFollows, hDone⟩

/- Requests that only look write nothing. -/
theorem inputs_of_look
    (hWork : task.work.edits = false) :
    task.inputs conf cat files = [] := by
  rcases task with ⟨work, input, amb, schedule⟩
  cases work with
  | metadata op | file op =>
      cases op <;> first | rfl | cases hWork

section

variable (h : s.HasFiles conf cat files)
variable (hFuel : 2 ≤ fuel)
variable (hProper : task.Proper conf s cat)
include h hFuel hProper

/- A proper request writes its inputs. -/
theorem HasFiles.wrote
    (hRun :
      s.runTask conf formatTime fuel task =
        some (replies, s')) :
    Catalog.Edits (task.inputs conf cat files) cat
        (cat.after conf task) ∧
      Cluster.Wrote conf
        (Cluster.piecesOf conf (task.inputs conf cat files))
        s.servers s'.servers := by
  cases hWork : task.work.edits with
  | false =>
      rw [inputs_of_look hWork, servers_of_look_task hWork hRun,
        Catalog.after, (h.holds.look hWork hRun).2]
      exact ⟨Catalog.edits_nil, Cluster.wrote_nil⟩
  | true =>
      rcases h.outcome hFuel hProper hWork hRun with
        ⟨hFollows, hDone⟩
      exact h.holds.wrote hFollows hDone

/- The store after a proper request. -/
theorem HasFiles.runTask
    (hRun :
      s.runTask conf formatTime fuel task =
        some (replies, s')) :
    Catalog.Edits (task.inputs conf cat files) cat
        (cat.after conf task) ∧
      s'.HasFiles conf (cat.after conf task)
        (files.write (task.inputs conf cat files)) := by
  rcases h.wrote hFuel hProper hRun with ⟨hEdits, hWrote⟩
  exact ⟨hEdits,
    { holds := h.holds.runTask hFuel hProper hRun
      contains := h.contains.wrote hEdits.whole hWrote }⟩

/- A request that is answered `OK` has inputs. -/
theorem HasFiles.go_of_reply
    (hWork : task.work.edits = true)
    (hRun :
      s.runTask conf formatTime fuel task =
        some ([okReply], s')) :
    ∃ cat' writes,
      cat.step conf task = some cat' ∧
        task.outcome conf cat files = .act (.go writes) := by
  rcases h.outcome hFuel hProper hWork hRun with
    ⟨hFollows, hDone⟩
  cases hNext : task.outcome conf cat files with
  | noSuchDirectory =>
      rw [hNext] at hDone
      exact absurd hDone.1 (by decide)
  | reread size =>
      rw [hNext] at hDone
      exact hDone.elim
  | act action =>
      rw [hNext] at hFollows hDone
      cases action with
      | reply buf =>
          have hBuf : buf = okReply := by
            simpa using hDone.1.symm
          exact absurd hBuf hFollows.2
      | undefined => exact hDone.elim
      | go writes =>
          rcases hFollows with ⟨cat', hEdit, _⟩
          exact ⟨cat', writes, hEdit, rfl⟩

end

end Store

----------
-- Volumes With Files
----------

namespace Volume

variable {conf : StorageConf}
variable {formatTime : UInt64 → Bytes} {fuel : Nat}
variable {v v' : Volume} {files : Files} {task : Task}

/- A volume with its directories and some files. -/
def HasFiles
    (conf : StorageConf)
    (v : Volume)
    (files : Files) :
    Prop :=
  v.store.HasFiles conf (v.catalog conf) files

theorem hasFiles_start :
    (start Store.empty).HasFiles conf (fun _ => []) where
  holds := sound_start (fun _ => rfl)
  contains :=
    { content := fun _ _ => by rw [Blocks.block_nil]; rfl
      length_lt := fun _ => by simp }

/- A proper request writes its inputs to the files. -/
theorem HasFiles.step
    (h : v.HasFiles conf files)
    (hFuel : 2 ≤ fuel)
    (hProper : v.Proper conf task)
    (hStep : v.step conf formatTime fuel task = some v') :
    v'.catalog conf = (v.catalog conf).after conf task ∧
      Catalog.Edits
        (task.inputs conf (v.catalog conf) files)
        (v.catalog conf) (v'.catalog conf) ∧
      v'.HasFiles conf
        (files.write
          (task.inputs conf (v.catalog conf) files)) := by
  have hCat :=
    (catalog_of_step h.holds hFuel hProper hStep).2
  rcases Option.map_eq_some_iff.mp hStep with
    ⟨⟨replies, store⟩, hRun, hEq⟩
  refine ⟨hCat, ?_⟩
  unfold HasFiles
  rw [hCat, ← hEq]
  exact Store.HasFiles.runTask h hFuel hProper hRun

/- Every volume that proper requests lead to has files. -/
theorem hasFiles_of_run
    (hFuel : 2 ≤ fuel)
    {tasks : List Task}
    (hRun :
      run (step conf formatTime fuel)
        (start Store.empty) tasks = some v)
    (hProper :
      Along (step conf formatTime fuel)
        (Proper conf) (start Store.empty) tasks) :
    ∃ files, v.HasFiles conf files := by
  refine invariant_of_run
    (I := fun v => ∃ files, HasFiles conf v files) ?_
    ⟨_, hasFiles_start⟩ hRun hProper
  rintro v task v' ⟨files, h⟩ hProper hStep
  exact ⟨_, (h.step hFuel hProper hStep).2.2⟩

/- A request as a step on directories and files alone. -/
def fileStep
    (conf : StorageConf)
    (fs : Catalog × Files)
    (task : Task) :
    Catalog × Files :=
  (fs.1.after conf task,
    fs.2.write (task.inputs conf fs.1 fs.2))

/-
  After any requests, one after another, what a read of a
  file from its start returns is what the requests make of
  empty files, with no servers, blocks or commits.
-/
theorem reads_refine_files
    (conf : StorageConf)
    (formatTime : UInt64 → Bytes)
    (fuel : Nat)
    (tasks : List Task)
    (v : Volume)
    (hFuel : 2 ≤ fuel)
    (hRun :
      run (step conf formatTime fuel)
        (start Store.empty) tasks = some v)
    (hProper :
      Along (step conf formatTime fuel)
        (Proper conf) (start Store.empty) tasks)
    (uuid : Uuid)
    (size : Nat)
    (hSize : size < 2 ^ 32) :
    v.store.servers.readBytes conf uuid 0 size =
      some ((tasks.foldl (fileStep conf)
        (fun _ => none, fun _ => [])).2.read conf uuid
          size) := by
  have hFiles := (rel_foldl
    (R := fun v fs =>
      v.catalog conf = fs.1 ∧ v.HasFiles conf fs.2)
    (f := fileStep conf) (a := (fun _ => none, fun _ => []))
    (by
      rintro v task v' ⟨_, files⟩ ⟨rfl, h⟩ hTask hStep
      rcases h.step hFuel hTask hStep with ⟨hCat, _, hNext⟩
      exact ⟨hCat, hNext⟩)
    ⟨rfl, hasFiles_start⟩ hRun hProper).2
  exact hFiles.contains.readBytes_zero uuid hSize

theorem reads_refine_files_of_newName :
    ∃ v,
      run (step .standard (fun _ => []) 2)
          (start Store.empty) newName = some v ∧
        v.store.servers.readBytes .standard (sampleKey 7) 0
            9 =
          some ((newName.foldl (fileStep .standard)
            (fun _ => none, fun _ => [])).2.read .standard
              (sampleKey 7) 9) := by
  have hEnds :
      (run (step .standard (fun _ => []) 2)
        (start Store.empty) newName).isSome = true := by
    decide +kernel
  rcases Option.isSome_iff_exists.mp hEnds with ⟨v, hRun⟩
  refine ⟨v, hRun, ?_⟩
  refine reads_refine_files .standard (fun _ => []) 2
    newName v (Nat.le_refl 2) hRun ?_ _ 9 (by decide)
  decide +kernel

end Volume

end Slfs
