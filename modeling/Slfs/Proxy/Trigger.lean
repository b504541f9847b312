import Slfs.Lib.Transition
import Slfs.Proxy.Locks

/-
  The proxy's tables while requests and responses arrive.

  The log keeps what was decided for each message, and from it
  we read which opens and which renamings are unanswered. The
  body of a request to a locked directory is read after it has
  been freed. What the read finds is part of the step.

  Main declarations:
    * `Proxy.Tables.step`
    * `Proxy.Tables.exact_iff_paired`
-/

----------
-- Logs
----------

namespace Slfs

open Transition

namespace Log

variable {α : Type}

/-
  How many questions of a log are still open, newest entry
  first. An answer without a question does nothing.
-/
def outstanding (asks answers : α → Bool) : List α → Nat
| [] => 0
| e :: log =>
    if asks e then outstanding asks answers log + 1
    else if answers e then outstanding asks answers log - 1
    else outstanding asks answers log

/- Whether a flag has been set since it was last cleared. -/
def isSet (sets clears : α → Bool) : List α → Bool
| [] => false
| e :: log =>
    if sets e then true
    else if clears e then false
    else isSet sets clears log

end Log

----------
-- Requests And Responses
----------

namespace Proxy

open Coordinator (literal)

/-
  `start_trigger_post`, where `readsUnlock` says what is read
  from the freed body of a request to a locked directory.
-/
def Locks.trigger
    (readsUnlock : Bool)
    (type : RequestType)
    (input : Jsre.Request)
    (l : Locks) : Option (Routed × Locks) :=
  if input.uuid ∈ l.lockedDirectoriesForRename then
    if readsUnlock then
      -- the type of the packet still says error
      some (.answer .proxySendError (literal "OK"),
        { l with
          lockedDirectoriesForRename :=
            l.lockedDirectoriesForRename.erase input.uuid })
    else
      some (.answer .proxySendError
        (literal "Error: Parent directory is locked"), l)
  else l.startTriggerPost type input

/- What was decided for a request, or told by a worker. -/
inductive Entry where
| routed (type : RequestType) (input : Jsre.Request)
    (routed : Routed)
| answered (type : MsgT) (key : Uuid)
deriving DecidableEq, Repr

namespace Entry

def forwardsOpen (file : Uuid) : Entry → Bool
| .routed (.metadata .open) input (.forward _) =>
    input.fileKey = file
| _ => false

def answersOpen (file : Uuid) : Entry → Bool
| .answered .openFileSuccess key => key = file
| .answered .openFileNotFound key => key = file
| _ => false

/- The open succeeds, at a worker or at the proxy itself. -/
def opens (file : Uuid) : Entry → Bool
| .routed (.metadata .open) input (.answer .proxySendIp _) =>
    input.fileKey = file
| .answered .openFileSuccess key => key = file
| _ => false

def closes (file : Uuid) : Entry → Bool
| .routed (.metadata .close) input (.answer .proxySendOk _) =>
    input.fileKey = file
| _ => false

/- A renaming of a file of this directory. -/
def forwardsRename (dir : Uuid) : Entry → Bool
| .routed (.metadata .renameSameproxy) input (.forward _) =>
    (Jsre.RenameInfo.parse input.data).map
      Jsre.RenameInfo.fileParentKey = some dir
| _ => false

def answersRename (dir : Uuid) : Entry → Bool
| .answered .renameSuccess key => key = dir
| .answered .renameFail key => key = dir
| _ => false

def locks (dir : Uuid) : Entry → Bool
| .routed (.metadata .lock) input (.answer .proxySendOk _) =>
    input.uuid = dir
| _ => false

def unlocks (dir : Uuid) : Entry → Bool
| .routed (.metadata .unlock) input _ => input.uuid = dir
| _ => false

end Entry

inductive Message where
| request (type : RequestType) (input : Jsre.Request)
    (readsUnlock : Bool)
| reply (endpoint : Vector UInt8 6) (type : MsgT)
    (data : Bytes)
deriving DecidableEq, Repr

structure Tables where
  locks : Locks
  log : List Entry

namespace Tables

def start : Tables :=
  { locks := .empty, log := [] }

def step (t : Tables) : Message → Option Tables
| .request type input readsUnlock => do
    let (routed, locks) ←
      t.locks.trigger readsUnlock type input
    some
      { locks := locks
        log := .routed type input routed :: t.log }
| .reply endpoint type data =>
    some
      { locks := (t.locks.startReadBody endpoint type data).2
        log := .answered type (Jsre.array 32 data) :: t.log }

/- Opens that were handed to a worker and not answered. -/
def unanswered (t : Tables) (file : Uuid) : Nat :=
  Log.outstanding (Entry.forwardsOpen file)
    (Entry.answersOpen file) t.log

def successes (t : Tables) (file : Uuid) : Nat :=
  t.log.countP (Entry.opens file)

def closings (t : Tables) (file : Uuid) : Nat :=
  t.log.countP (Entry.closes file)

/- Renamings out of a directory that are not answered. -/
def renamesLeft (t : Tables) (dir : Uuid) : Nat :=
  Log.outstanding (Entry.forwardsRename dir)
    (Entry.answersRename dir) t.log

/- Locked by a request, and not unlocked since. -/
def lockedByRequest (t : Tables) (dir : Uuid) : Bool :=
  Log.isSet (Entry.locks dir) (Entry.unlocks dir) t.log

end Tables

----------
-- Counts Of Files
----------

namespace Locks

/- How often a file is counted, zero if it is absent. -/
def count (m : FileCounts) (key : Uuid) : Nat :=
  match m.lookup key with
  | none => 0
  | some n => n

variable {m : FileCounts} {n : ℕ+} {l : Locks}
variable {input : Jsre.Request} {routed : Routed}
variable {key : Uuid}

theorem count_eq_zero_iff :
    count m key = 0 ↔ m.lookup key = none := by
  unfold count
  cases m.lookup key with
  | none => simp
  | some n => simp

theorem count_of_lookup
    (hLookup : m.lookup key = some n) :
    count m key = n := by
  simp [count, hLookup]

@[simp] theorem count_insert
    (m : FileCounts)
    (key key' : Uuid)
    (n : ℕ+) :
    count (m.insert key n) key' =
      if key = key' then (n : Nat) else count m key' := by
  by_cases hKey : key = key'
  · subst hKey
    simp [count]
  · simp [count, AList.lookup_insert_ne (Ne.symm hKey), hKey]

@[simp] theorem count_erase
    (m : FileCounts)
    (key key' : Uuid) :
    count (m.erase key) key' =
      if key = key' then 0 else count m key' := by
  by_cases hKey : key = key'
  · subst hKey
    simp [count]
  · simp [count, AList.lookup_erase_ne (Ne.symm hKey), hKey]

/- One more of its file, and none of the others. -/
@[simp] theorem count_increment
    (m : FileCounts)
    (key key' : Uuid) :
    count (increment key m) key' =
      count m key' + if key = key' then 1 else 0 := by
  unfold increment
  by_cases hKey : key = key'
  · subst hKey
    cases hLookup : m.lookup key with
    | none => simp [count_eq_zero_iff.mpr hLookup]
    | some n => simp [count_of_lookup hLookup]
  · cases m.lookup key with
    | none => simp [hKey]
    | some n => simp [hKey]

/- A count that comes down to zero leaves the table. -/
theorem count_decrement
    (hLookup : m.lookup key = some n)
    (key' : Uuid) :
    count (decrement key n m) key' =
      count m key' - if key = key' then 1 else 0 := by
  unfold decrement
  by_cases hKey : key = key'
  · subst hKey
    rw [count_of_lookup hLookup]
    by_cases hOne : n = 1
    · simp [hOne]
    · have hLt : 1 < n := lt_of_le_of_ne one_le (Ne.symm hOne)
      simp [hOne, PNat.sub_coe, hLt]
  · by_cases hOne : n = 1
    · simp [hOne, hKey]
    · simp [hOne, hKey]

theorem inUse_eq_false_iff :
    l.inUse key = false ↔
      count l.lockedFilesForOpen key = 0 ∧
        count l.openedFiles key = 0 := by
  simp [inUse, count_eq_zero_iff]

----------
-- What A Message Does To The Counts
----------

/- The counts after a request, by what the log says of it. -/
structure Counted
    (l l' : Locks)
    (e : Entry)
    (file : Uuid) : Prop where
  opened :
    count l'.openedFiles file +
        (if e.closes file then 1 else 0) =
      count l.openedFiles file +
        (if e.opens file then 1 else 0)
  locked :
    count l'.lockedFilesForOpen file =
      count l.lockedFilesForOpen file +
        (if e.forwardsOpen file then 1 else 0)

/- The tables change as the entry of the log says. -/
theorem counted_triggerMetadata
    {l' : Locks}
    {op : MetaOperation}
    (h : l.triggerMetadata op input = some (routed, l'))
    (file : Uuid) :
    Counted l l' (.routed (.metadata op) input routed) file := by
  cases op with
  | «open» =>
      cases hLookup : l.openedFiles.lookup input.fileKey with
      | none =>
          simp only [triggerMetadata, hLookup] at h
          cases h
          exact ⟨by simp [Entry.closes, Entry.opens],
            by simp [Entry.forwardsOpen]⟩
      | some n =>
          simp only [triggerMetadata, hLookup] at h
          cases h
          refine ⟨?_, by simp [Entry.forwardsOpen]⟩
          by_cases hKey : input.fileKey = file
          · subst hKey
            simp [Entry.closes, Entry.opens,
              count_of_lookup hLookup]
          · simp [Entry.closes, Entry.opens, hKey]
  | deletefile =>
      simp only [triggerMetadata] at h
      split at h
      all_goals
        cases h
        exact ⟨by simp [Entry.closes, Entry.opens],
          by simp [Entry.forwardsOpen]⟩
  | renameSameproxy =>
      simp only [triggerMetadata] at h
      split at h
      · cases h
        exact ⟨by simp [Entry.closes, Entry.opens],
          by simp [Entry.forwardsOpen]⟩
      · rcases Option.bind_eq_some_iff.mp h with
          ⟨info, _, hSome⟩
        cases hSome
        exact ⟨by simp [Entry.closes, Entry.opens],
          by simp [Entry.forwardsOpen]⟩
  | close =>
      cases hLookup : l.openedFiles.lookup input.fileKey with
      | none =>
          simp only [triggerMetadata, hLookup] at h
          cases h
          exact ⟨by simp [Entry.closes, Entry.opens],
            by simp [Entry.forwardsOpen]⟩
      | some n =>
          simp only [triggerMetadata, hLookup] at h
          cases h
          refine ⟨?_, by simp [Entry.forwardsOpen]⟩
          by_cases hKey : input.fileKey = file
          · subst hKey
            have hPos : 0 < count l.openedFiles input.fileKey := by
              rw [count_of_lookup hLookup]
              exact n.pos
            simp [Entry.closes, Entry.opens,
              count_decrement hLookup]
            omega
          · simp [Entry.closes, Entry.opens, hKey,
              count_decrement hLookup]
  | init | addfile | ls | mkdir | addfileWrite
  | getstatfile | getstatdir | lock | unlock =>
      cases h
      exact ⟨by simp [Entry.closes, Entry.opens],
        by simp [Entry.forwardsOpen]⟩

/- The same for every request, whatever its directory. -/
theorem counted_trigger
    {l' : Locks}
    {readsUnlock : Bool}
    {type : RequestType}
    (h : l.trigger readsUnlock type input = some (routed, l'))
    (file : Uuid) :
    Counted l l' (.routed type input routed) file := by
  unfold trigger at h
  split at h
  · -- a locked directory leaves the files alone
    split at h
    all_goals
      cases h
      refine ⟨?_, ?_⟩
      all_goals
        cases type with
        | metadata op =>
            cases op <;>
              simp [Entry.closes, Entry.opens,
                Entry.forwardsOpen]
        | _ =>
            simp [Entry.closes, Entry.opens,
              Entry.forwardsOpen]
  · rename_i hFree
    simp only [startTriggerPost, if_neg hFree] at h
    cases type with
    | metadata op => exact counted_triggerMetadata h file
    | file | wakeup | storagetest =>
        simp only at h
        split at h
        all_goals
          cases h
          exact ⟨by simp [Entry.closes, Entry.opens],
            by simp [Entry.forwardsOpen]⟩

@[simp] theorem count_opened_of_success
    (l : Locks)
    (key file : Uuid) :
    count (l.onWorkerFinishedOpeningAFile key true).openedFiles
        file =
      count l.openedFiles file +
        if key = file then 1 else 0 := by
  simp [onWorkerFinishedOpeningAFile]

@[simp] theorem opened_of_failure
    (l : Locks)
    (key : Uuid) :
    (l.onWorkerFinishedOpeningAFile key false).openedFiles =
      l.openedFiles := by
  simp [onWorkerFinishedOpeningAFile]

/- A failure takes one waiting open away. -/
@[simp] theorem count_locked_of_failure
    (l : Locks)
    (key file : Uuid) :
    count (l.onWorkerFinishedOpeningAFile key
        false).lockedFilesForOpen file =
      count l.lockedFilesForOpen file -
        if key = file then 1 else 0 := by
  cases hLookup : l.lockedFilesForOpen.lookup key with
  | none =>
      by_cases hKey : key = file
      · subst hKey
        simp [onWorkerFinishedOpeningAFile, hLookup,
          count_eq_zero_iff.mpr hLookup]
      · simp [onWorkerFinishedOpeningAFile, hLookup, hKey]
  | some n =>
      simp [onWorkerFinishedOpeningAFile, hLookup,
        count_decrement hLookup]

/- One success takes all waiting opens of the file away. -/
theorem count_locked_of_success
    (l : Locks)
    {key file : Uuid}
    (hKey : key ≠ file) :
    count (l.onWorkerFinishedOpeningAFile key
        true).lockedFilesForOpen file =
      count l.lockedFilesForOpen file := by
  cases hLookup : l.lockedFilesForOpen.lookup key with
  | none => simp [onWorkerFinishedOpeningAFile, hLookup]
  | some n => simp [onWorkerFinishedOpeningAFile, hLookup, hKey]

end Locks

namespace Tables

open Locks (count)

/-
  The open files are those opened and not closed, and an
  unanswered open of a file that is not open is waited for.
-/
structure Covered (t : Tables) (file : Uuid) : Prop where
  opened :
    count t.locks.openedFiles file + t.closings file =
      t.successes file
  waiting :
    count t.locks.openedFiles file = 0 →
      t.unanswered file ≤
        count t.locks.lockedFilesForOpen file

/-
  The last open of a file is closed only while no open of
  the file is waiting for its answer.
-/
def ClosedLast (t : Tables) : Message → Prop
| .request (.metadata .close) input _ =>
    count t.locks.openedFiles input.fileKey = 1 →
      t.unanswered input.fileKey = 0
| _ => True

instance (t : Tables) (m : Message) :
    Decidable (t.ClosedLast m) := by
  unfold ClosedLast
  split <;> infer_instance

theorem covered_start
    (file : Uuid) :
    start.Covered file :=
  ⟨rfl, fun _ => Nat.le_refl 0⟩

end Tables

----------
-- Files That Are Deleted Or Renamed
----------

/- A file in use is neither deleted nor renamed. -/
theorem Locks.inUse_of_forward
    {l l' : Locks}
    {op : MetaOperation}
    (hOp : op = .deletefile ∨ op = .renameSameproxy)
    {readsUnlock : Bool}
    {input : Jsre.Request}
    {type : MsgT}
    (h : l.trigger readsUnlock (.metadata op) input =
      some (.forward type, l')) :
    l.inUse input.fileKey = false := by
  unfold Locks.trigger at h
  split at h
  · split at h <;> cases h
  · rename_i hFree
    simp only [Locks.startTriggerPost, if_neg hFree] at h
    by_contra hUse
    have hTrue : l.inUse input.fileKey = true := by
      simpa using hUse
    rcases hOp with hOp | hOp
    · subst hOp
      simp [Locks.triggerMetadata, hTrue] at h
    · subst hOp
      simp [Locks.triggerMetadata, hTrue] at h

/- Only a close that is answered `OK` counts as one. -/
theorem Entry.closes_eq_true
    {file : Uuid}
    {e : Entry}
    (h : e.closes file = true) :
    ∃ input data,
      e = .routed (.metadata .close) input
        (.answer .proxySendOk data) ∧
      input.fileKey = file := by
  unfold Entry.closes at h
  split at h
  · rename_i input data
    exact ⟨input, data, rfl, of_decide_eq_true h⟩
  · cases h

namespace Tables

open Locks (count)

theorem closings_cons
    (l : Locks)
    (e : Entry)
    (log : List Entry)
    (file : Uuid) :
    (⟨l, e :: log⟩ : Tables).closings file =
      (⟨l, log⟩ : Tables).closings file +
        if e.closes file then 1 else 0 :=
  List.countP_cons

theorem successes_cons
    (l : Locks)
    (e : Entry)
    (log : List Entry)
    (file : Uuid) :
    (⟨l, e :: log⟩ : Tables).successes file =
      (⟨l, log⟩ : Tables).successes file +
        if e.opens file then 1 else 0 :=
  List.countP_cons

/- A request adds one if it is an open for a worker. -/
theorem unanswered_routed
    (l : Locks)
    (type : RequestType)
    (input : Jsre.Request)
    (routed : Routed)
    (log : List Entry)
    (file : Uuid) :
    (⟨l, .routed type input routed :: log⟩ :
        Tables).unanswered file =
      (⟨l, log⟩ : Tables).unanswered file +
        if (Entry.routed type input routed).forwardsOpen file
        then 1 else 0 := by
  simp only [unanswered, Log.outstanding, Entry.answersOpen,
    Bool.false_eq_true, if_false]
  split <;> rfl

variable {t : Tables} {file : Uuid}

/- The case to care for is the close of the last open. -/
theorem covered_request
    {l' : Locks}
    {readsUnlock : Bool}
    {type : RequestType}
    {input : Jsre.Request}
    {routed : Routed}
    (hCovered : t.Covered file)
    (hLast : t.ClosedLast (.request type input readsUnlock))
    (h : t.locks.trigger readsUnlock type input =
      some (routed, l')) :
    (⟨l', .routed type input routed :: t.log⟩ :
      Tables).Covered file := by
  have hCounted := Locks.counted_trigger h file
  have hOpened := hCounted.opened
  have hLocked := hCounted.locked
  have hOld := hCovered.opened
  refine ⟨?_, ?_⟩
  · rw [closings_cons, successes_cons]
    change count l'.openedFiles file + (t.closings file + _) =
      t.successes file + _
    omega
  · intro hZero
    change count l'.openedFiles file = 0 at hZero
    rw [unanswered_routed]
    change t.unanswered file + _ ≤
      count l'.lockedFilesForOpen file
    cases hCloses :
        (Entry.routed type input routed).closes file with
    | false =>
        simp only [hCloses, Bool.false_eq_true,
          if_false] at hOpened
        have hWaiting := hCovered.waiting (by omega)
        omega
    | true =>
        -- the last close, for which nothing is waiting
        rcases Entry.closes_eq_true hCloses with
          ⟨input', data, hEntry, hFile⟩
        injection hEntry with hType hInput hRouted
        subst hType hInput hRouted hFile
        simp only [Entry.opens, Entry.forwardsOpen,
          Bool.false_eq_true, if_false] at hOpened hLocked ⊢
        rw [if_pos hCloses] at hOpened
        have hNone := hLast (by omega)
        omega

/- A success ends all waiting, and opens the file. -/
theorem covered_reply
    (hCovered : t.Covered file)
    (endpoint : Vector UInt8 6)
    (type : MsgT)
    (data : Bytes) :
    (⟨(t.locks.startReadBody endpoint type data).2,
      .answered type (Jsre.array 32 data) :: t.log⟩ :
      Tables).Covered file := by
  have hOld := hCovered.opened
  unfold closings successes at hOld
  cases type with
  | openFileSuccess =>
      refine ⟨?_, ?_⟩
      · simp only [closings, successes, List.countP_cons,
          Entry.closes, Entry.opens, Locks.startReadBody,
          Locks.count_opened_of_success, decide_eq_true_eq,
          Bool.false_eq_true, if_false]
        omega
      · intro hZero
        simp only [Locks.startReadBody,
          Locks.count_opened_of_success] at hZero
        have hKey : Jsre.array 32 data ≠ file := by
          intro hKey
          rw [if_pos hKey] at hZero
          omega
        have hWaiting := hCovered.waiting (by omega)
        simpa [unanswered, Log.outstanding, Entry.forwardsOpen,
          Entry.answersOpen, Locks.startReadBody, hKey,
          Locks.count_locked_of_success] using hWaiting
  | openFileNotFound =>
      refine ⟨?_, ?_⟩
      · simpa [closings, successes, Entry.closes, Entry.opens,
          Locks.startReadBody] using hOld
      · intro hZero
        simp only [Locks.startReadBody,
          Locks.opened_of_failure] at hZero
        have hWaiting := hCovered.waiting hZero
        simp only [unanswered, Log.outstanding,
          Entry.forwardsOpen, Entry.answersOpen,
          Locks.startReadBody, Bool.false_eq_true, if_false,
          decide_eq_true_eq,
          Locks.count_locked_of_failure] at hWaiting ⊢
        split <;> omega
  | renameSuccess | renameFail => exact ⟨hOld, hCovered.waiting⟩
  | _ => exact ⟨hOld, hCovered.waiting⟩

theorem covered_step
    {t' : Tables}
    {m : Message}
    (hCovered : t.Covered file)
    (hLast : t.ClosedLast m)
    (hStep : t.step m = some t') :
    t'.Covered file := by
  cases m with
  | request type input readsUnlock =>
      rcases Option.bind_eq_some_iff.mp hStep with
        ⟨⟨routed, l'⟩, hTrigger, hSome⟩
      cases hSome
      exact covered_request hCovered hLast hTrigger
  | reply endpoint type data =>
      cases hStep
      exact covered_reply hCovered endpoint type data

/-
  In every run in which the last open of a file is closed
  only while none is waiting, a request to delete or rename a
  file is handed to a worker only if every open of the file
  has been answered, and every success has been closed.
-/
theorem forwarded_only_if_closed
    (ms : List Message)
    {t : Tables}
    (hRun : run step start ms = some t)
    (hLast : Along step ClosedLast start ms)
    {op : MetaOperation}
    (hOp : op = .deletefile ∨ op = .renameSameproxy)
    {input : Jsre.Request}
    {readsUnlock : Bool}
    {type : MsgT}
    {l' : Locks}
    (hForward :
      t.locks.trigger readsUnlock (.metadata op) input =
        some (.forward type, l')) :
    t.unanswered input.fileKey = 0 ∧
      t.successes input.fileKey =
        t.closings input.fileKey := by
  have hCovered : t.Covered input.fileKey := by
    refine invariant_of_run
      (I := fun t => t.Covered input.fileKey) ?_
      (covered_start input.fileKey) hRun hLast
    intro t m t' hInv hCond hStep
    exact covered_step hInv hCond hStep
  have hUse : t.locks.inUse input.fileKey = false :=
    Locks.inUse_of_forward hOp hForward
  rcases Locks.inUse_eq_false_iff.mp hUse with
    ⟨hLocked, hOpened⟩
  have hWaiting := hCovered.waiting hOpened
  have hBalance := hCovered.opened
  exact ⟨by omega, by omega⟩

/- A request for a file, and a worker's word on it. -/
def sampleInput : Jsre.Request :=
  { uuid := Vector.replicate 32 1
    position := 0
    size := 0
    fileName := Vector.replicate 34 0
    fileKey := Vector.replicate 32 2
    data := [] }

def sampleRequest (op : MetaOperation) : Message :=
  .request (.metadata op) sampleInput false

def sampleReply (type : MsgT) : Message :=
  .reply (Vector.replicate 6 0) type
    sampleInput.fileKey.toList

/- Two opens are answered before the file is closed. -/
def openedAndClosed : List Message :=
  [sampleRequest .open, sampleRequest .open,
    sampleReply .openFileNotFound,
    sampleReply .openFileSuccess,
    sampleRequest .open,
    sampleRequest .close, sampleRequest .close]

/- What a request to delete the file meets. -/
def deleteAfter (ms : List Message) :
    Option (Option Routed × Nat × Nat) :=
  (run step start ms).map (fun t =>
    ((t.locks.trigger false (.metadata .deletefile)
        sampleInput).map Prod.fst,
      t.unanswered sampleInput.fileKey,
      t.successes sampleInput.fileKey))

theorem forwarded_only_if_closed_openedAndClosed :
    deleteAfter openedAndClosed =
        some (some (.forward .workerPushRequest), 0, 2) ∧
      ∃ t, run step start openedAndClosed =
          some t ∧
        t.unanswered sampleInput.fileKey = 0 ∧
        t.successes sampleInput.fileKey =
          t.closings sampleInput.fileKey := by
  have hDelete :
      deleteAfter openedAndClosed =
        some (some (.forward .workerPushRequest), 0, 2) := by
    decide +kernel
  rcases Option.map_eq_some_iff.mp hDelete with
    ⟨t, hRun, hEnd⟩
  rcases Option.map_eq_some_iff.mp (Prod.ext_iff.mp hEnd).1 with
    ⟨⟨routed, l'⟩, hTrigger, hRouted⟩
  subst hRouted
  exact ⟨hDelete, t, hRun,
    forwarded_only_if_closed openedAndClosed hRun
      (by decide +kernel) (.inl rfl) hTrigger⟩

/-
  Two opens wait for their answers, and the success of one
  of them takes the other one out of the table. When the
  file is closed, the other open is still waiting.
-/
def closedWhileWaiting : List Message :=
  [sampleRequest .open, sampleRequest .open,
    sampleReply .openFileSuccess,
    sampleRequest .close]

theorem deleted_while_opening :
    deleteAfter closedWhileWaiting =
      some (some (.forward .workerPushRequest), 1, 1) := by
  decide +kernel

end Tables

----------
-- What A Message Does To The Locked Directories
----------

open Coordinator (literal)

namespace Entry

/- An error says nothing about renamings and locks. -/
theorem forwardsRename_error
    (type : RequestType)
    (input : Jsre.Request)
    (data : Bytes)
    (dir : Uuid) :
    (Entry.routed type input
      (.answer .proxySendError data)).forwardsRename dir =
      false := by
  unfold forwardsRename
  split <;> simp_all

theorem locks_error
    (type : RequestType)
    (input : Jsre.Request)
    (data : Bytes)
    (dir : Uuid) :
    (Entry.routed type input
      (.answer .proxySendError data)).locks dir = false := by
  unfold locks
  split <;> simp_all

theorem answersRename_answered
    (type : MsgT)
    (key dir : Uuid) :
    (Entry.answered type key).answersRename dir = true ↔
      (type = .renameSuccess ∨ type = .renameFail) ∧
        key = dir := by
  cases type <;> simp [answersRename]

/- An unlock request counts whatever it is answered. -/
theorem unlocks_routed
    (type : RequestType)
    (input : Jsre.Request)
    (routed : Routed)
    (dir : Uuid) :
    (Entry.routed type input routed).unlocks dir = true ↔
      type = .metadata .unlock ∧ input.uuid = dir := by
  unfold unlocks
  split
  · rename_i h
    injection h with hType hInput hRouted
    subst hType hInput
    simp
  · rename_i h
    constructor
    · intro hFalse
      cases hFalse
    · rintro ⟨hType, _⟩
      subst hType
      exact absurd rfl (h input routed)

end Entry

namespace Locks

/- An answered renaming unlocks the directory it names. -/
theorem mem_startReadBody
    (l : Locks)
    (endpoint : Vector UInt8 6)
    (type : MsgT)
    (data : Bytes)
    (dir : Uuid) :
    dir ∈ (l.startReadBody endpoint type
        data).2.lockedDirectoriesForRename ↔
      (type = .renameSuccess ∨ type = .renameFail →
        Jsre.array 32 data ≠ dir) ∧
        dir ∈ l.lockedDirectoriesForRename := by
  cases type with
  | renameSuccess | renameFail =>
      simp [startReadBody, onWorkerFinishedRenamingFile,
        eq_comm]
  | _ =>
      simp [startReadBody, onWorkerFinishedOpeningAFile]

variable {l : Locks} {input : Jsre.Request}

/- A request to a locked directory is refused. -/
theorem trigger_of_locked
    (hLocked : input.uuid ∈ l.lockedDirectoriesForRename)
    (readsUnlock : Bool)
    (type : RequestType) :
    ∃ data l',
      l.trigger readsUnlock type input =
        some (.answer .proxySendError data, l') ∧
      ∀ dir, dir ∈ l'.lockedDirectoriesForRename ↔
        (readsUnlock = true → dir ≠ input.uuid) ∧
          dir ∈ l.lockedDirectoriesForRename := by
  cases readsUnlock with
  | true =>
      refine ⟨literal "OK", _, by simp [trigger, hLocked]; rfl,
        ?_⟩
      intro dir
      simp
  | false =>
      refine ⟨literal "Error: Parent directory is locked", l,
        by simp [trigger, hLocked], ?_⟩
      intro dir
      simp

/- Otherwise renamings and both kinds of requests lock. -/
theorem mem_trigger_of_free
    {l' : Locks}
    {readsUnlock : Bool}
    {type : RequestType}
    {routed : Routed}
    (hFree : input.uuid ∉ l.lockedDirectoriesForRename)
    (h : l.trigger readsUnlock type input = some (routed, l'))
    (dir : Uuid) :
    dir ∈ l'.lockedDirectoriesForRename ↔
      dir ∈ l.lockedDirectoriesForRename ∨
        (Entry.routed type input routed).forwardsRename dir =
          true ∨
        (Entry.routed type input routed).locks dir = true ∨
        (Entry.routed type input routed).unlocks dir =
          true := by
  simp only [trigger, startTriggerPost, if_neg hFree] at h
  cases type with
  | metadata op =>
      simp only [triggerMetadata] at h
      cases op with
      | renameSameproxy =>
          simp only at h
          split at h
          · cases h
            simp [Entry.forwardsRename, Entry.locks,
              Entry.unlocks]
          · rcases Option.bind_eq_some_iff.mp h with
              ⟨info, hInfo, hSome⟩
            cases hSome
            simp [Entry.forwardsRename, Entry.locks,
              Entry.unlocks, hInfo, eq_comm, or_comm]
      | lock | unlock =>
          cases h
          simp [Entry.forwardsRename, Entry.locks,
            Entry.unlocks, eq_comm, or_comm]
      | «open» | deletefile | close =>
          simp only at h
          split at h
          all_goals
            cases h
            simp [Entry.forwardsRename, Entry.locks,
              Entry.unlocks]
      | _ =>
          cases h
          simp [Entry.forwardsRename, Entry.locks,
            Entry.unlocks]
  | _ =>
      simp only at h
      split at h
      all_goals
        cases h
        simp [Entry.forwardsRename, Entry.locks, Entry.unlocks]

end Locks

----------
-- Locked Directories In A Run
----------

namespace Tables

/- Something holds the lock of a directory. -/
def Held (t : Tables) (dir : Uuid) : Prop :=
  0 < t.renamesLeft dir ∨ t.lockedByRequest dir = true

instance (t : Tables) (dir : Uuid) : Decidable (t.Held dir) := by
  unfold Held
  infer_instance

/- Exactly the directories are locked that are held. -/
def Exact (t : Tables) : Prop :=
  ∀ dir, dir ∈ t.locks.lockedDirectoriesForRename ↔
    t.Held dir

/-
  A request to unlock comes for a locked directory, and the
  freed body of a request reads as an unlock request if and
  only if it was one and no renaming out of the directory is
  left. A renaming is answered only while it is the only one
  out of its directory, and no request has locked it.
-/
def Paired (t : Tables) : Message → Prop
| .request type input readsUnlock =>
    if input.uuid ∈ t.locks.lockedDirectoriesForRename then
      readsUnlock = true ↔
        type = .metadata .unlock ∧
          t.renamesLeft input.uuid = 0
    else type ≠ .metadata .unlock
| .reply _ type data =>
    type = .renameSuccess ∨ type = .renameFail →
      t.renamesLeft (Jsre.array 32 data) ≤ 1 ∧
        t.lockedByRequest (Jsre.array 32 data) = false

instance (t : Tables) (m : Message) :
    Decidable (t.Paired m) := by
  unfold Paired
  split <;> infer_instance

/- What holds a directory once a request is logged. -/
theorem held_routed
    (t : Tables)
    (l : Locks)
    (type : RequestType)
    (input : Jsre.Request)
    (routed : Routed)
    (dir : Uuid) :
    (⟨l, .routed type input routed :: t.log⟩ :
        Tables).Held dir ↔
      (Entry.routed type input routed).forwardsRename dir =
          true ∨
        0 < t.renamesLeft dir ∨
        (Entry.routed type input routed).locks dir = true ∨
        (¬ (type = .metadata .unlock ∧ input.uuid = dir) ∧
          t.lockedByRequest dir = true) := by
  rw [← Entry.unlocks_routed type input routed dir]
  simp only [Held, renamesLeft, lockedByRequest,
    Log.outstanding, Log.isSet]
  have hAnswers :
      (Entry.routed type input routed).answersRename dir =
        false := rfl
  rw [hAnswers]
  split <;> split <;> simp_all

/- What holds a directory once an answer is logged. -/
theorem held_answered
    (t : Tables)
    (l : Locks)
    (type : MsgT)
    (key dir : Uuid) :
    (⟨l, .answered type key :: t.log⟩ : Tables).Held dir ↔
      0 < t.renamesLeft dir -
          (if (Entry.answered type key).answersRename dir
          then 1 else 0) ∨
        t.lockedByRequest dir = true := by
  simp only [Held, renamesLeft, lockedByRequest,
    Log.outstanding, Log.isSet, Entry.forwardsRename,
    Entry.locks, Entry.unlocks, Bool.false_eq_true, if_false]
  split <;> simp

variable {t : Tables} {l' : Locks} {readsUnlock : Bool}
variable {input : Jsre.Request} {routed : Routed}

/- Whether to unlock is read from the freed body. -/
theorem exact_locked_iff
    {type : RequestType}
    (hExact : t.Exact)
    (hLocked :
      input.uuid ∈ t.locks.lockedDirectoriesForRename)
    (h : t.locks.trigger readsUnlock type input =
      some (routed, l')) :
    (⟨l', .routed type input routed :: t.log⟩ :
        Tables).Exact ↔
      (readsUnlock = true ↔
        type = .metadata .unlock ∧
          t.renamesLeft input.uuid = 0) := by
  rcases Locks.trigger_of_locked hLocked readsUnlock type with
    ⟨data, l'', hTrigger, hMem⟩
  rw [hTrigger] at h
  cases h
  have hHeld := (hExact input.uuid).mp hLocked
  -- only the directory of the request is concerned
  have hHere :
      (⟨l', .routed type input
          (.answer .proxySendError data) :: t.log⟩ :
          Tables).Exact ↔
        (readsUnlock = false ↔
          0 < t.renamesLeft input.uuid ∨
            (type ≠ .metadata .unlock ∧
              t.lockedByRequest input.uuid = true)) := by
    constructor
    · intro hAll
      have hAt := hAll input.uuid
      simp only [hMem, held_routed, hLocked,
        Entry.forwardsRename_error, Entry.locks_error] at hAt
      simpa using hAt
    · intro hAt dir
      simp only [hMem, held_routed,
        Entry.forwardsRename_error, Entry.locks_error]
      by_cases hDir : dir = input.uuid
      · subst hDir
        simpa [hLocked] using hAt
      · have hOther := hExact dir
        have hNe : ¬ input.uuid = dir := fun h => hDir h.symm
        simp only [Held] at hOther
        simpa [hDir, hNe] using hOther
  rw [hHere]
  unfold Held at hHeld
  by_cases hType : type = .metadata .unlock
  · by_cases hLeft : t.renamesLeft input.uuid = 0
    · simp [hType, hLeft]
    · simp [hType, hLeft, Nat.pos_of_ne_zero hLeft]
  · simp [hType, hHeld]

/- A free directory is locked by a request to unlock it. -/
theorem exact_free_iff
    {type : RequestType}
    (hExact : t.Exact)
    (hFree :
      input.uuid ∉ t.locks.lockedDirectoriesForRename)
    (h : t.locks.trigger readsUnlock type input =
      some (routed, l')) :
    (⟨l', .routed type input routed :: t.log⟩ :
        Tables).Exact ↔ type ≠ .metadata .unlock := by
  have hMem := Locks.mem_trigger_of_free hFree h
  constructor
  · intro hAll hType
    -- an unlock request that locks
    have hIn : input.uuid ∈ l'.lockedDirectoriesForRename := by
      rw [hMem, Entry.unlocks_routed]
      exact Or.inr (Or.inr (Or.inr ⟨hType, rfl⟩))
    have hHeld := (held_routed t l' type input routed
      input.uuid).mp ((hAll input.uuid).mp hIn)
    have hNot := (not_congr (hExact input.uuid)).mp hFree
    subst hType
    simp only [Held, not_or] at hNot
    simp [Entry.forwardsRename, Entry.locks, hNot] at hHeld
  · intro hType dir
    have hOld := hExact dir
    simp only [Held] at hOld
    simp only [hMem, held_routed, Entry.unlocks_routed, hType,
      hOld, false_and, or_false, not_false_eq_true, true_and]
    tauto

/- An answer unlocks whatever else holds the directory. -/
theorem exact_reply_iff
    (hExact : t.Exact)
    (endpoint : Vector UInt8 6)
    (type : MsgT)
    (data : Bytes) :
    (⟨(t.locks.startReadBody endpoint type data).2,
        .answered type (Jsre.array 32 data) :: t.log⟩ :
        Tables).Exact ↔
      t.Paired (.reply endpoint type data) := by
  have hMem := t.locks.mem_startReadBody endpoint type data
  simp only [Exact, held_answered, hMem,
    Entry.answersRename_answered, Paired]
  by_cases hRename : type = .renameSuccess ∨ type = .renameFail
  · simp only [hRename, true_and, forall_const]
    constructor
    · intro hAll
      have hAt := hAll (Jsre.array 32 data)
      simp only [ne_eq, not_true_eq_false, false_and, if_true,
        false_iff, not_or, Nat.not_lt, Bool.not_eq_true] at hAt
      exact ⟨by omega, hAt.2⟩
    · rintro ⟨hOne, hFree⟩ dir
      by_cases hDir : Jsre.array 32 data = dir
      · subst hDir
        simp only [ne_eq, not_true_eq_false, false_and, if_true,
          false_iff, not_or, Nat.not_lt, hFree]
        exact ⟨by omega, by simp⟩
      · have hOld := hExact dir
        simpa [Held, hDir] using hOld
  · simp only [hRename, false_and, false_imp_iff, true_and,
      if_false, Nat.sub_zero, iff_true]
    exact hExact

/-
  A message keeps the locked directories exact if and only
  if it is paired.
-/
theorem exact_step_iff
    {t' : Tables}
    {m : Message}
    (hExact : t.Exact)
    (hStep : t.step m = some t') :
    t'.Exact ↔ t.Paired m := by
  cases m with
  | request type input readsUnlock =>
      rcases Option.bind_eq_some_iff.mp hStep with
        ⟨⟨routed, l'⟩, hTrigger, hSome⟩
      cases hSome
      by_cases hLocked :
          input.uuid ∈ t.locks.lockedDirectoriesForRename
      · simp only [Paired, if_pos hLocked]
        exact exact_locked_iff hExact hLocked hTrigger
      · simp only [Paired, if_neg hLocked]
        exact exact_free_iff hExact hLocked hTrigger
  | reply endpoint type data =>
      cases hStep
      exact exact_reply_iff hExact endpoint type data

theorem exact_start : start.Exact := by
  intro dir
  simp [start, Locks.empty, Held, renamesLeft, lockedByRequest,
    Log.outstanding, Log.isSet]

/-
  The locked directories are exactly the held ones in every
  state of a run if and only if all its messages are paired.
  Then every request to a directory that a file is being
  renamed out of is refused.
-/
theorem exact_iff_paired
    (ms : List Message)
    {t : Tables}
    (hRun : run step start ms = some t) :
    (Always step Exact start ms ↔
      Along step Paired start ms) ∧
    (Along step Paired start ms →
      ∀ (type : RequestType) (input : Jsre.Request)
        (readsUnlock : Bool),
        0 < t.renamesLeft input.uuid →
        ∃ data l', t.locks.trigger readsUnlock type input =
          some (.answer .proxySendError data, l')) := by
  have hStep :
      ∀ t m t', t.Exact → step t m = some t' →
        (t'.Exact ↔ t.Paired m) := by
    intro t m t' hExact hStep
    exact exact_step_iff hExact hStep
  refine ⟨always_iff_along hStep exact_start hRun,
    ?_⟩
  intro hPaired type input readsUnlock hLeft
  have hExact : t.Exact := by
    refine invariant_of_run ?_ exact_start hRun
      hPaired
    intro t m t' hInv hCond hNext
    exact (hStep t m t' hInv hNext).mpr hCond
  have hLocked := (hExact input.uuid).mpr (.inl hLeft)
  rcases Locks.trigger_of_locked hLocked readsUnlock type with
    ⟨data, l', hTrigger, _⟩
  exact ⟨data, l', hTrigger⟩

/- A directory, and a renaming out of it to another one. -/
def sampleDir : Uuid :=
  Vector.replicate 32 3

def sampleRename (destination : UInt8) : Message :=
  .request (.metadata .renameSameproxy)
    { sampleInput with
      uuid := Vector.replicate 32 destination
      data :=
        Jsre.RenameInfo.serialize
          { newFileKey := Vector.replicate 32 destination
            fileParentKey := sampleDir
            newFileName := Vector.replicate 34 0 } }
    false

def sampleDirRequest
    (op : MetaOperation)
    (readsUnlock : Bool) : Message :=
  .request (.metadata op) { sampleInput with uuid := sampleDir }
    readsUnlock

def sampleRenamed : Message :=
  .reply (Vector.replicate 6 0) .renameSuccess
    sampleDir.toList

/-
  The directory is locked and unlocked by requests, then a
  file is renamed out of it, and another request is refused.
-/
def lockedInTurn : List Message :=
  [sampleDirRequest .lock false,
    sampleDirRequest .unlock true,
    sampleRename 4,
    sampleRenamed,
    sampleRename 5,
    sampleDirRequest .addfile false]

theorem exact_iff_paired_lockedInTurn :
    ∃ t, run step start lockedInTurn = some t ∧
      t.renamesLeft sampleDir = 1 ∧
      Always step Exact start lockedInTurn ∧
      ∃ data l', t.locks.trigger false (.metadata .mkdir)
        { sampleInput with uuid := sampleDir } =
          some (.answer .proxySendError data, l') := by
  have hLeft :
      (run step start lockedInTurn).map
        (fun t => t.renamesLeft sampleDir) = some 1 := by
    decide +kernel
  rcases Option.map_eq_some_iff.mp hLeft with ⟨t, hRun, hOne⟩
  have hPaired :
      Along step Paired start lockedInTurn := by
    decide +kernel
  have hBoth := exact_iff_paired lockedInTurn hRun
  exact ⟨t, hRun, hOne, hBoth.1.mpr hPaired,
    hBoth.2 hPaired _ _ _ (by rw [hOne]; decide)⟩

/- An unlock request for a directory that is not locked. -/
def unlockedFirst : List Message :=
  [sampleDirRequest .unlock false]

/- Two renamings out of a directory, and one is answered. -/
def renamedTwice : List Message :=
  [sampleRename 4, sampleRename 5, sampleRenamed]

/- A renaming out of a directory that a request has locked. -/
def renamedWhileLocked : List Message :=
  [sampleDirRequest .lock false, sampleRename 4,
    sampleRenamed]

theorem locked_not_held :
    List.Forall
      (fun ms =>
        ∃ t, run step start ms = some t ∧
          ¬ (sampleDir ∈ t.locks.lockedDirectoriesForRename ↔
            t.Held sampleDir))
      [unlockedFirst, renamedTwice, renamedWhileLocked] := by
  rw [List.forall_iff_forall_mem]
  intro ms hMem
  have hWrong :
      ((run step start ms).map (fun t =>
        decide (sampleDir ∈ t.locks.lockedDirectoriesForRename ↔
          t.Held sampleDir))) = some false := by
    simp only [List.mem_cons, List.not_mem_nil, or_false] at hMem
    rcases hMem with hMs | hMs | hMs
    all_goals
      subst hMs
      decide +kernel
  rcases Option.map_eq_some_iff.mp hWrong with ⟨t, hRun, hNot⟩
  exact ⟨t, hRun, of_decide_eq_false hNot⟩

end Tables

end Proxy

end Slfs
