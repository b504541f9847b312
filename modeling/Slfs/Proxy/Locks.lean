import Mathlib.Data.List.AList
import Mathlib.Data.Finset.Basic
import Mathlib.Data.PNat.Basic
import Slfs.DataFunction.Perform
import Slfs.Proxy.Jobs

/-
  The proxy's tables of opened files and locked directories.

  A request is answered by the proxy itself or handed to a
  worker, and the tables decide which. What a worker answers
  updates them again.

  Main declarations:
    * `Proxy.Locks.startTriggerPost`
    * `Proxy.Locks.startReadBody`
-/

----------
-- Tables
----------

namespace Slfs

namespace Proxy

/- How often files are opened: an entry is never zero. -/
abbrev FileCounts := AList (fun _ : Uuid => ℕ+)

structure Locks where
  openedFiles : FileCounts
  lockedFilesForOpen : FileCounts
  lockedDirectoriesForRename : Finset Uuid

/- `type_t`, with the operation of a metadata request. -/
inductive RequestType where
| file
| metadata (op : MetaOperation)
| wakeup
| storagetest
deriving DecidableEq, Repr

/- A request is answered at once or goes to a worker. -/
inductive Routed where
| answer (type : MsgT) (data : Bytes)
| forward (type : MsgT)
deriving DecidableEq, Repr

namespace Locks

open Coordinator (literal)

def empty : Locks :=
  { openedFiles := ∅
    lockedFilesForOpen := ∅
    lockedDirectoriesForRename := ∅ }

/- One more in a table of counts. -/
def increment (key : Uuid) (m : FileCounts) : FileCounts :=
  match m.lookup key with
  | none => m.insert key 1
  | some n => m.insert key (n + 1)

/- One less; the last one leaves the table. -/
def decrement (key : Uuid) (n : ℕ+) (m : FileCounts) :
    FileCounts :=
  if n = 1 then m.erase key else m.insert key (n - 1)

/- A file that is opened or about to be. -/
def inUse (l : Locks) (key : Uuid) : Bool :=
  (l.lockedFilesForOpen.lookup key).isSome ||
    (l.openedFiles.lookup key).isSome

def triggerMetadata
    (op : MetaOperation)
    (input : Jsre.Request)
    (l : Locks) : Option (Routed × Locks) :=
  match op with
  | .open =>
      match l.openedFiles.lookup input.fileKey with
      | some n =>
          some (.answer .proxySendIp [],
            { l with
              openedFiles :=
                l.openedFiles.insert input.fileKey (n + 1) })
      | none =>
          -- the packet keeps the type it came with
          some (.forward .trigger,
            { l with
              lockedFilesForOpen :=
                increment input.fileKey l.lockedFilesForOpen })
  | .deletefile =>
      if l.inUse input.fileKey then
        some (.answer .proxySendError
          (literal "Error: Cannot delete opened/locked file"), l)
      else some (.forward .workerPushRequest, l)
  | .renameSameproxy =>
      if l.inUse input.fileKey then
        some (.answer .proxySendError
          (literal "Error: Cannot rename opened/locked file"), l)
      else do
        let info ← Jsre.RenameInfo.parse input.data
        some (.forward .workerPushRequest,
          { l with
            lockedDirectoriesForRename :=
              insert info.fileParentKey
                l.lockedDirectoriesForRename })
  | .close =>
      match l.openedFiles.lookup input.fileKey with
      | some n =>
          some (.answer .proxySendOk (literal "OK"),
            { l with
              openedFiles :=
                decrement input.fileKey n l.openedFiles })
      | none =>
          some (.answer .proxySendError
            (literal "Error: File is not open"), l)
  | .lock | .unlock =>
      -- an unlock of a directory that is not locked locks it
      some (.answer .proxySendOk (literal "OK"),
        { l with
          lockedDirectoriesForRename :=
            insert input.uuid l.lockedDirectoriesForRename })
  | _ => some (.forward .workerPushRequest, l)

/-
  What the proxy does with a request of a client. For a
  locked directory the text of the error replaces the body
  of the request, and then the body is read again through a
  pointer to the old one, which is undefined.
-/
def startTriggerPost
    (type : RequestType)
    (input : Jsre.Request)
    (l : Locks) : Option (Routed × Locks) :=
  if input.uuid ∈ l.lockedDirectoriesForRename then none
  else
    match type with
    | .metadata op => l.triggerMetadata op input
    | _ =>
        if (l.openedFiles.lookup input.fileKey).isSome then
          some (.forward .workerPushRequest, l)
        else
          some (.answer .proxySendError
            (literal "Error: File is not open"), l)

def onWorkerFinishedOpeningAFile
    (key : Uuid)
    (success : Bool)
    (l : Locks) : Locks :=
  let opened :=
    if success then increment key l.openedFiles
    else l.openedFiles
  let locked :=
    match l.lockedFilesForOpen.lookup key with
    | none => l.lockedFilesForOpen
    | some n =>
        if success then l.lockedFilesForOpen.erase key
        else decrement key n l.lockedFilesForOpen
  { l with
    openedFiles := opened
    lockedFilesForOpen := locked }

def onWorkerFinishedRenamingFile
    (key : Uuid)
    (l : Locks) : Locks :=
  { l with
    lockedDirectoriesForRename :=
      l.lockedDirectoriesForRename.erase key }

/- What a response of a worker becomes for the client. -/
def startReadBody
    (endpoint : Vector UInt8 6)
    (type : MsgT)
    (data : Bytes)
    (l : Locks) : Bytes × Locks :=
  let key := Jsre.array 32 data
  match type with
  | .openFileSuccess =>
      (endpoint.toList, l.onWorkerFinishedOpeningAFile key true)
  | .openFileNotFound =>
      (literal "Error: File not found",
        l.onWorkerFinishedOpeningAFile key false)
  | .renameSuccess =>
      (literal "OK", l.onWorkerFinishedRenamingFile key)
  | .renameFail =>
      (literal "Error: Invalid argumnts",
        l.onWorkerFinishedRenamingFile key)
  | _ => (data, l)

end Locks

end Proxy

namespace DataFunction

/- The text of a reply ends at its first zero. -/
def isOk (buf : Bytes) : Bool :=
  buf.takeWhile (fun b => b != 0) = Decimal.ascii "OK"

/- The packet that a data function answers a request with. -/
def respond
    (op : MetaOperation)
    (input : Jsre.Request)
    (buf : Bytes) : Option (Proxy.MsgT × Bytes) :=
  match op with
  | .open =>
      some (if isOk buf then .openFileSuccess
        else .openFileNotFound, input.fileKey.toList)
  | .renameSameproxy => do
      let info ← Jsre.RenameInfo.parse input.data
      some (if isOk buf then .renameSuccess else .renameFail,
        info.fileParentKey.toList)
  | _ => some (.workerResponse, buf)

end DataFunction

end Slfs
