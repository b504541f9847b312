import Slfs.Client.PacketCreate
import Slfs.DataFunction.Stored
import Slfs.Proxy.Locks

/-
  Renaming a file from a client.

  The proxy of a request's key answers it or hands it to a
  data function. A renaming locks the source directory if it
  is on another proxy, renames, and unlocks it until the
  answer is `OK`.

  Main declarations:
    * `Client.renameFile`
    * `Client.rename_keeps_entries_iff`
-/

----------
-- Client, Proxies And Data Function
----------

namespace Slfs

open StorageConf (standard)

/- The tables of each proxy, and the stored files. -/
structure FileSystem where
  locks : Nat → Proxy.Locks
  store : Store

/-
  What a request finds when it is handled: clock and left
  bytes, message arrivals, and the address of the worker.
-/
structure Environment where
  amb : Ambient
  schedule : Schedule
  endpoint : Vector UInt8 6

namespace FileSystem

/- The responses to one request, one after another. -/
def readBodies (endpoint : Vector UInt8 6) :
    List (Proxy.MsgT × Bytes) → Proxy.Locks →
      List Bytes × Proxy.Locks
| [], l => ([], l)
| (type, data) :: rest, l =>
    let first := l.startReadBody endpoint type data
    let others := readBodies endpoint rest first.2
    (first.1 :: others.1, others.2)

variable (conf : StorageConf)
variable (formatTime : UInt64 → Bytes) (fuel : Nat)
variable (selectProxy : Uuid → Nat)

/-
  Send a request and wait for the answer, which is the first
  response.
-/
def send
    (env : Environment)
    (request : MetaRequest)
    (fs : FileSystem) : Option (Bytes × FileSystem) := do
  let proxy := selectProxy request.2.uuid
  let (routed, locks) ←
    (fs.locks proxy).startTriggerPost (.metadata request.1)
      request.2
  match routed with
  | .answer type data =>
      some (if type = .proxySendIp then env.endpoint.toList
        else data,
        { fs with
          locks := Function.update fs.locks proxy locks })
  | .forward _ => do
      let (replies, store) ←
        fs.store.startPerformMetadata conf formatTime fuel
          env.amb env.schedule request.1 request.2
      let responses ←
        replies.mapM (DataFunction.respond request.1 request.2)
      let bodies := readBodies env.endpoint responses locks
      let reply ← bodies.1.head?
      some (reply,
        { locks := Function.update fs.locks proxy bodies.2
          store := store })

end FileSystem

namespace Client

open PacketCreate (getParentPath)

variable (conf : StorageConf)
variable (formatTime : UInt64 → Bytes) (fuel : Nat)
variable (selectProxy : Uuid → Nat)
variable (getUuid : Bytes → Uuid)

/-
  The unlock request, and again as often as `rounds` says
  while the answer is not `OK`.
-/
def unlockRounds
    (env : Nat → Environment)
    (parentKey : Uuid) :
    Nat → FileSystem → Option (Bytes × FileSystem)
| 0, fs =>
    fs.send conf formatTime fuel selectProxy (env 0)
      (PacketCreate.unlock parentKey)
| rounds + 1, fs => do
    let (result, fs) ← unlockRounds env parentKey rounds fs
    if result = Decimal.ascii "OK" then some (result, fs)
    else
      fs.send conf formatTime fuel selectProxy
        (env (rounds + 1)) (PacketCreate.unlock parentKey)

/- The source is locked if it is on another proxy. -/
def lockSource
    (env : Environment)
    (parentKey newParentKey : Uuid)
    (fs : FileSystem) : Option FileSystem :=
  if selectProxy newParentKey = selectProxy parentKey then
    some fs
  else
    (fs.send conf formatTime fuel selectProxy env
      (PacketCreate.lock parentKey)).map Prod.snd

/-
  All requests of a renaming, and the last answer to the
  unlock request.
-/
def renameFile
    (env : Nat → Environment)
    (rounds : Nat)
    (filePath newFilePath : Bytes)
    (fs : FileSystem) : Option (Bytes × FileSystem) := do
  let parentKey := getUuid (getParentPath filePath)
  let newParentKey := getUuid (getParentPath newFilePath)
  let fs ←
    lockSource conf formatTime fuel selectProxy (env 0)
      parentKey newParentKey fs
  let request ←
    PacketCreate.renameFile getUuid filePath newFilePath
  let (_, fs) ←
    fs.send conf formatTime fuel selectProxy (env 1) request
  unlockRounds conf formatTime fuel selectProxy
    (fun n => env (n + 2)) parentKey rounds fs

end Client

----------
-- Listed Names
----------

namespace Cluster

open Jsre

variable (conf : StorageConf)

/- A stored directory lists a name. -/
def Lists (c : Cluster) (uuid : Uuid) (name : Bytes) : Prop :=
  ∃ entries, c.Stored conf uuid entries ∧
    Directory.size entries.length < 2 ^ 32 ∧
    name ∈ entries.map FilemetaServer.name

variable {conf : StorageConf} {c : Cluster}
variable {uuid : Uuid} {entries : List FilemetaServer}

theorem Stored.lists_iff
    (h : c.Stored conf uuid entries)
    (hSize : Directory.size entries.length < 2 ^ 32)
    (name : Bytes) :
    c.Lists conf uuid name ↔
      name ∈ entries.map FilemetaServer.name := by
  constructor
  · rintro ⟨entries', hStored, _, hMem⟩
    rwa [h.unique hStored]
  · intro hMem
    exact ⟨entries, h, hSize, hMem⟩

end Cluster

----------
-- The Data Function
----------

namespace Store

open DataFunction
open Jsre

variable {conf : StorageConf} {fuel : Nat}
variable {s s' : Store} {info : RenameInfo}

/- The destination with the entry of the renamed file. -/
theorem destination_of_fetch
    {r : FilemetaServer}
    {uuid : Uuid}
    {entries : List FilemetaServer}
    {destination : Bytes}
    (hFuel : 2 ≤ fuel)
    (hStored : s.servers.Stored conf uuid entries)
    (hRoom : Directory.size (entries.length + 1) < 2 ^ 32)
    (h :
      s.servers.fetch conf uuid
          (startMetaRenamePart2 info r) fuel readsize =
        some (.act (.go (.ok destination)))) :
    Directory.Exactly destination (entries ++ [r]) := by
  have hSize : Directory.size entries.length < 2 ^ 32 := by
    rw [Directory.size_eq] at hRoom ⊢
    omega
  rcases Cluster.fetch_of_stored hStored hSize hFuel
      (fun content =>
        (rfl : startMetaRenamePart2 info r content = _)) with
    ⟨content, hHolds, _, hFetch⟩
  rw [hFetch] at h
  cases hFind : Directory.find content
      (Directory.stats content).fileCount.toNat
      (cstring info.newFileName) with
  | some i => simp [hFind] at h
  | none =>
      simp only [hFind, Option.some.injEq, Next.act.injEq,
        Action.go.injEq, Except.ok.injEq] at h
      rw [← h]
      exact Directory.exactly_append hHolds hRoom r

/-
  A renaming that ends leaves nothing pending, and adds at
  most entries to a destination that is another directory.
-/
theorem renameFile_keeps
    {schedule : Schedule}
    {input : Jsre.Request}
    {replies : List Bytes}
    (hFuel : 2 ≤ fuel)
    (hPending : s.servers.NoPending conf)
    (hInfo : RenameInfo.parse input.data = some info)
    (hSource : info.newFileKey ≠ info.fileParentKey)
    (hDest : info.newFileKey ≠ input.uuid)
    (h :
      s.renameFile conf fuel schedule input =
        some (replies, s')) :
    s'.servers.NoPending conf ∧
      ∀ entries, input.uuid ≠ info.fileParentKey →
        s.servers.Stored conf input.uuid entries →
        Directory.size (entries.length + 1) < 2 ^ 32 →
          ∃ more, more.length ≤ 1 ∧
            s'.servers.Stored conf input.uuid
              (entries ++ more) := by
  -- where nothing is written
  have hSame : s'.servers = s.servers →
      s'.servers.NoPending conf ∧
      ∀ entries, input.uuid ≠ info.fileParentKey →
        s.servers.Stored conf input.uuid entries →
        Directory.size (entries.length + 1) < 2 ^ 32 →
          ∃ more, more.length ≤ 1 ∧
            s'.servers.Stored conf input.uuid
              (entries ++ more) := by
    intro hEq
    rw [hEq]
    exact ⟨hPending, fun entries _ hStored _ =>
      ⟨[], Nat.zero_le _,
        by rw [List.append_nil]; exact hStored⟩⟩
  unfold renameFile at h
  rw [hInfo] at h
  simp only [Option.bind_eq_bind, Option.bind_some] at h
  rcases Option.bind_eq_some_iff.mp h with ⟨next, _, hNext⟩
  cases next with
  | noSuchDirectory =>
      cases hNext
      exact hSame rfl
  | reread size => cases hNext
  | act action =>
      cases action with
      | reply buf =>
          cases hNext
          exact hSame rfl
      | undefined => cases hNext
      | go result =>
          rcases result with ⟨source, r⟩
          rcases Option.bind_eq_some_iff.mp hNext with
            ⟨buf, _, hWrite⟩
          by_cases hDir : sameParentDir input info = true
          · rw [if_pos hDir] at hWrite
            have hWrote := wrote_of_startTwoPcPrepare hPending
              (by simpa using hSource.symm) hWrite
            refine ⟨hWrote.noPending hPending, ?_⟩
            intro entries hNe
            simp only [sameParentDir, decide_eq_true_eq] at hDir
            exact absurd hDir.symm hNe
          · rw [if_neg hDir] at hWrite
            rcases Option.bind_eq_some_iff.mp hWrite with
              ⟨next₂, hFetch, hRest⟩
            split at hRest
            · cases hRest
              exact hSame rfl
            · cases hRest
              exact hSame rfl
            · rename_i destination
              have hUuids :
                  ([⟨info.fileParentKey, 0, source⟩,
                    ⟨input.uuid, 0, destination⟩,
                    ⟨info.newFileKey, 0, buf⟩].map
                      Input.uuid).Nodup := by
                simp only [sameParentDir, decide_eq_true_eq]
                  at hDir
                simp [hDir, hSource.symm, hDest.symm]
              have hWrote :=
                wrote_of_startTwoPcPrepare hPending hUuids hRest
              refine ⟨hWrote.noPending hPending, ?_⟩
              intro entries _ hStored hRoom
              have hContent := destination_of_fetch hFuel
                hStored hRoom hFetch
              exact ⟨[r], Nat.le_refl _,
                Cluster.stored_of_wrote hWrote hUuids
                  (by simp) hContent⟩
            · cases hRest

----------
-- Answered Requests
----------

variable (conf : StorageConf)

/- A directory is empty, and others are as before. -/
structure Emptied (key : Uuid) (s s' : Store) : Prop where
  noPending : s'.servers.NoPending conf
  stored : s'.servers.Stored conf key []
  others :
    ∀ uuid entries, uuid ≠ key →
      s.servers.Stored conf uuid entries →
        s'.servers.Stored conf uuid entries

variable {conf : StorageConf} {key : Uuid}
variable {s s' s'' : Store}

theorem Emptied.trans
    (h : Emptied conf key s s')
    (h' : Emptied conf key s' s'') :
    Emptied conf key s s'' where
  noPending := h'.noPending
  stored := h'.stored
  others := fun uuid entries hNe hStored =>
    h'.others uuid entries hNe
      (h.others uuid entries hNe hStored)

end Store

namespace FileSystem

variable {conf : StorageConf}
variable {formatTime : UInt64 → Bytes} {fuel : Nat}
variable {selectProxy : Uuid → Nat} {env : Environment}
variable {fs fs' : FileSystem} {answer : Bytes}

/-
  The store after a request is the one before, or the data
  function has handled the request.
-/
theorem send_store
    {request : MetaRequest}
    (h :
      fs.send conf formatTime fuel selectProxy env request =
        some (answer, fs')) :
    (∃ type data locks,
      (fs.locks (selectProxy request.2.uuid)).startTriggerPost
          (.metadata request.1) request.2 =
        some (.answer type data, locks) ∧
      fs'.store = fs.store) ∨
    ∃ replies,
      fs.store.startPerformMetadata conf formatTime fuel
          env.amb env.schedule request.1 request.2 =
        some (replies, fs'.store) := by
  rcases Option.bind_eq_some_iff.mp h with
    ⟨⟨routed, locks⟩, hRoute, hNext⟩
  cases routed with
  | answer type data =>
      cases hNext
      exact Or.inl ⟨type, data, locks, hRoute, rfl⟩
  | forward type =>
      rcases Option.bind_eq_some_iff.mp hNext with
        ⟨⟨replies, store⟩, hPerform, hRest⟩
      rcases Option.bind_eq_some_iff.mp hRest with
        ⟨responses, _, hRest'⟩
      rcases Option.bind_eq_some_iff.mp hRest' with
        ⟨reply, _, hSome⟩
      cases hSome
      exact Or.inr ⟨replies, hPerform⟩

/- What the client sends to lock and unlock empties. -/
theorem send_init
    {key : Uuid}
    (hPending : fs.store.servers.NoPending conf)
    (h :
      fs.send conf formatTime fuel selectProxy env
          (PacketCreate.emptyRequest .init key) =
        some (answer, fs')) :
    Store.Emptied conf key fs.store fs'.store := by
  rcases send_store h with
    ⟨type, data, locks, hRoute, _⟩ | ⟨replies, hPerform⟩
  · -- the proxy never answers this operation itself
    unfold Proxy.Locks.startTriggerPost at hRoute
    split at hRoute
    · cases hRoute
    · simp [PacketCreate.emptyRequest,
        Proxy.Locks.triggerMetadata] at hRoute
  · rcases Store.startMetaInit_stored hPending env.amb
        env.schedule (PacketCreate.emptyRequest .init key).2 with
      ⟨s', hRun, hFree, hStored, hOthers⟩
    have hSame : s' = fs'.store := by
      have hEq := hRun.symm.trans hPerform
      simp only [Option.some.injEq, Prod.mk.injEq] at hEq
      exact hEq.2
    rw [← hSame]
    exact ⟨hFree, hStored, hOthers⟩

/- A rename request adds at most to its destination. -/
theorem send_rename
    {request : MetaRequest}
    {info : Jsre.RenameInfo}
    (hFuel : 2 ≤ fuel)
    (hPending : fs.store.servers.NoPending conf)
    (hOp : request.1 = .renameSameproxy)
    (hInfo :
      Jsre.RenameInfo.parse request.2.data = some info)
    (hSource : info.newFileKey ≠ info.fileParentKey)
    (hDest : info.newFileKey ≠ request.2.uuid)
    (h :
      fs.send conf formatTime fuel selectProxy env request =
        some (answer, fs')) :
    fs'.store.servers.NoPending conf ∧
      ∀ entries, request.2.uuid ≠ info.fileParentKey →
        fs.store.servers.Stored conf request.2.uuid entries →
        Directory.size (entries.length + 1) < 2 ^ 32 →
          ∃ more, more.length ≤ 1 ∧
            fs'.store.servers.Stored conf request.2.uuid
              (entries ++ more) := by
  rcases send_store h with
    ⟨_, _, _, _, hSame⟩ | ⟨replies, hPerform⟩
  · rw [hSame]
    exact ⟨hPending, fun entries _ hStored _ =>
      ⟨[], Nat.zero_le _,
        by rw [List.append_nil]; exact hStored⟩⟩
  · rw [hOp] at hPerform
    exact Store.renameFile_keeps hFuel hPending hInfo hSource
      hDest hPerform

end FileSystem

namespace Client

variable {conf : StorageConf}
variable {formatTime : UInt64 → Bytes} {fuel : Nat}
variable {selectProxy : Uuid → Nat}
variable {getUuid : Bytes → Uuid}
variable {env : Nat → Environment} {fs' : FileSystem}

/- However often the unlock request is sent. -/
theorem emptied_unlockRounds
    {key : Uuid}
    (rounds : Nat)
    {fs : FileSystem}
    {answer : Bytes}
    (hPending : fs.store.servers.NoPending conf)
    (h :
      unlockRounds conf formatTime fuel selectProxy env key
          rounds fs = some (answer, fs')) :
    Store.Emptied conf key fs.store fs'.store := by
  induction rounds generalizing fs' answer with
  | zero => exact FileSystem.send_init hPending h
  | succ rounds ih =>
      rcases Option.bind_eq_some_iff.mp h with
        ⟨⟨result, fs₁⟩, hFirst, hRest⟩
      have hEmptied := ih hFirst
      simp only at hRest
      split at hRest
      · cases hRest
        exact hEmptied
      · exact hEmptied.trans
          (FileSystem.send_init hEmptied.noPending hRest)

----------
-- Kept Entries
----------

open PacketCreate (getParentPath splitPath IsFilePath)

/- No two of the paths of a renaming have the same key. -/
def DistinctKeys
    (getUuid : Bytes → Uuid)
    (filePath newFilePath : Bytes) : Prop :=
  let paths :=
    [newFilePath, getParentPath filePath,
      getParentPath newFilePath]
  ∀ p ∈ paths, ∀ q ∈ paths, getUuid p = getUuid q → p = q

/-
  After all requests of a renaming the source is empty, and
  a destination that is another directory has kept its
  entries.
-/
theorem renameFile_spec
    {rounds : Nat}
    {filePath newFilePath : Bytes}
    {fs : FileSystem}
    {answer : Bytes}
    (hFuel : 2 ≤ fuel)
    (hFile : IsFilePath filePath)
    (hNew : IsFilePath newFilePath)
    (hKeys : DistinctKeys getUuid filePath newFilePath)
    (hPending : fs.store.servers.NoPending conf)
    (hRun :
      renameFile conf formatTime fuel selectProxy getUuid env
          rounds filePath newFilePath fs =
        some (answer, fs')) :
    fs'.store.servers.Stored conf
        (getUuid (getParentPath filePath)) [] ∧
      ∀ entries,
        getUuid (getParentPath newFilePath) ≠
            getUuid (getParentPath filePath) →
        fs.store.servers.Stored conf
          (getUuid (getParentPath newFilePath)) entries →
        Directory.size (entries.length + 1) < 2 ^ 32 →
          ∃ more, more.length ≤ 1 ∧
            fs'.store.servers.Stored conf
              (getUuid (getParentPath newFilePath))
              (entries ++ more) := by
  unfold renameFile at hRun
  dsimp only at hRun
  rcases Option.bind_eq_some_iff.mp hRun with
    ⟨fs₁, hLock, hRest⟩
  rcases Option.bind_eq_some_iff.mp hRest with
    ⟨request, hRequest, hRest'⟩
  rcases Option.bind_eq_some_iff.mp hRest' with
    ⟨⟨result, fs₂⟩, hRename, hUnlock⟩
  -- before the rename, other directories are as they were
  have hLocked :
      fs₁.store.servers.NoPending conf ∧
        ∀ uuid entries,
          uuid ≠ getUuid (getParentPath filePath) →
          fs.store.servers.Stored conf uuid entries →
            fs₁.store.servers.Stored conf uuid entries := by
    unfold lockSource at hLock
    split at hLock
    · cases hLock
      exact ⟨hPending, fun _ _ _ hStored => hStored⟩
    · rcases Option.map_eq_some_iff.mp hLock with
        ⟨⟨reply, fs₀⟩, hSend, hEq⟩
      cases hEq
      have hEmptied := FileSystem.send_init hPending hSend
      exact ⟨hEmptied.noPending, hEmptied.others⟩
  rcases PacketCreate.renameFile_eq_some hRequest with
    ⟨info, hOp, hUuid, hInfo, hNewKey, hParentKey⟩
  have hSource : info.newFileKey ≠ info.fileParentKey := by
    rw [hNewKey, hParentKey]
    intro hEq
    exact PacketCreate.ne_getParentPath hNew hFile
      (hKeys _ (by simp) _ (by simp) hEq)
  have hDest : info.newFileKey ≠ request.2.uuid := by
    rw [hNewKey, hUuid]
    intro hEq
    exact PacketCreate.ne_getParentPath hNew hNew
      (hKeys _ (by simp) _ (by simp) hEq)
  rcases FileSystem.send_rename hFuel hLocked.1 hOp hInfo
      hSource hDest hRename with
    ⟨hFree, hGrown⟩
  have hEmptied := emptied_unlockRounds rounds hFree hUnlock
  refine ⟨hEmptied.stored, ?_⟩
  intro entries hNe hStored hRoom
  rw [hUuid, hParentKey] at hGrown
  rcases hGrown entries hNe (hLocked.2 _ _ hNe hStored)
      hRoom with
    ⟨more, hOne, hMore⟩
  exact ⟨more, hOne, hEmptied.others _ _ hNe hMore⟩

variable (conf getUuid)

/-
  Every name other than the file's is still listed in the
  source directory, and every name other than the new one in
  the destination; both names count in both directories if
  they are the same.
-/
def KeepsEntries
    (filePath newFilePath : Bytes)
    (fs fs' : FileSystem) : Prop :=
  let source := getUuid (getParentPath filePath)
  let destination := getUuid (getParentPath newFilePath)
  (∀ name, fs.store.servers.Lists conf source name →
    name ≠ (splitPath filePath).2 →
    (source = destination →
      name ≠ (splitPath newFilePath).2) →
      fs'.store.servers.Lists conf source name) ∧
  (∀ name, fs.store.servers.Lists conf destination name →
    name ≠ (splitPath newFilePath).2 →
    (source = destination → name ≠ (splitPath filePath).2) →
      fs'.store.servers.Lists conf destination name)

variable {conf getUuid}

/-
  A renaming keeps the other entries exactly when the source
  directory has no other entries.
-/
theorem rename_keeps_entries_iff
    {env : Nat → Environment}
    {rounds : Nat}
    {filePath newFilePath : Bytes}
    {fs fs' : FileSystem}
    {answer : Bytes}
    (hFuel : 2 ≤ fuel)
    (hFile : IsFilePath filePath)
    (hNew : IsFilePath newFilePath)
    (hKeys : DistinctKeys getUuid filePath newFilePath)
    (hPending : fs.store.servers.NoPending conf)
    (hRoom :
      ∀ entries,
        fs.store.servers.Stored conf
          (getUuid (getParentPath newFilePath)) entries →
          Directory.size (entries.length + 1) < 2 ^ 32)
    (hRun :
      renameFile conf formatTime fuel selectProxy getUuid env
          rounds filePath newFilePath fs =
        some (answer, fs')) :
    KeepsEntries conf getUuid filePath newFilePath fs fs' ↔
      ∀ name,
        fs.store.servers.Lists conf
          (getUuid (getParentPath filePath)) name →
          name = (splitPath filePath).2 ∨
            getUuid (getParentPath filePath) =
                getUuid (getParentPath newFilePath) ∧
              name = (splitPath newFilePath).2 := by
  rcases renameFile_spec hFuel hFile hNew hKeys hPending
      hRun with
    ⟨hEmpty, hGrown⟩
  constructor
  · intro hKeeps name hListed
    by_contra hOther
    rw [not_or, not_and] at hOther
    have hStill := hKeeps.1 name hListed hOther.1 hOther.2
    rw [hEmpty.lists_iff (by decide)] at hStill
    simp at hStill
  · intro hOnly
    have hSource : ∀ name,
        fs.store.servers.Lists conf
          (getUuid (getParentPath filePath)) name →
        name ≠ (splitPath filePath).2 →
        (getUuid (getParentPath filePath) =
            getUuid (getParentPath newFilePath) →
          name ≠ (splitPath newFilePath).2) →
          False := by
      intro name hListed hNe hNe'
      rcases hOnly name hListed with hEq | ⟨hSame, hEq⟩
      · exact hNe hEq
      · exact hNe' hSame hEq
    refine ⟨fun name hListed hNe hNe' =>
      (hSource name hListed hNe hNe').elim, ?_⟩
    intro name hListed hNe hNe'
    by_cases hSame :
        getUuid (getParentPath newFilePath) =
          getUuid (getParentPath filePath)
    · rw [hSame] at hListed
      exact (hSource name hListed (hNe' hSame.symm)
        (fun _ => hNe)).elim
    · rcases hListed with ⟨entries, hStored, _, hMem⟩
      have hSize := hRoom entries hStored
      rcases hGrown entries hSame hStored hSize with
        ⟨more, hOne, hMore⟩
      refine ⟨entries ++ more, hMore, ?_, ?_⟩
      · rw [Directory.size_eq] at hSize ⊢
        rw [List.length_append]
        omega
      · rw [List.map_append]
        exact List.mem_append_left _ hMem

----------
-- Two Directories
----------

open Jsre
open Decimal (ascii)

/- Short paths are their own keys. -/
def sampleUuid (path : Bytes) : Uuid :=
  array 32 path

def sampleAmbient : Ambient :=
  { now := 0
    reserved := Vector.replicate 60 0
    gap := Vector.replicate 2 0
    rest := Vector.replicate 6 0 }

def sampleEnvironment (n : Nat) : Environment :=
  { amb := sampleAmbient
    schedule := Schedule.inOrder (n + 2).toUInt32
    endpoint := Vector.replicate 6 0 }

/- An entry for an empty file. -/
def sampleEntry (name : String) : FilemetaServer :=
  { owner := 0
    permission := 0
    fileSize := 0
    gap := Vector.replicate 2 0
    creationTime := 0
    modificationTime := 0
    fileName := nameField (ascii name)
    rest := Vector.replicate 6 0 }

def sampleContent (names : List String) : Bytes :=
  names.foldl
    (fun content name =>
      Directory.append content (Directory.stats content)
        (sampleEntry name))
    (DataFunction.emptyStats sampleAmbient).serialize

/- Directories `/x/` and `/y/` with the given names. -/
def sampleWrites (xs ys : List String) : Writes :=
  (.multiInputs,
    [⟨sampleUuid (ascii "/x/"), 0, sampleContent xs⟩,
      ⟨sampleUuid (ascii "/y/"), 0, sampleContent ys⟩])

def sampleFileSystem (xs ys : List String) : FileSystem :=
  { locks := fun _ => Proxy.Locks.empty
    store :=
      ((Store.empty.startTwoPcPrepare standard
        (Schedule.inOrder 1) (sampleWrites xs ys)).map
          Prod.snd).getD Store.empty }

theorem holds_sampleContent
    (names : List String)
    (hFew : names.length < 2 ^ 20) :
    Directory.Holds (sampleContent names)
        (names.map sampleEntry) ∧
      (sampleContent names).length =
        Directory.size names.length := by
  induction names using List.reverseRecOn with
  | nil =>
      exact ⟨Directory.holds_nil rfl, by
        simp [sampleContent, Directory.size]⟩
  | append_singleton names name ih =>
      have hShort : names.length + 1 < 2 ^ 20 := by
        simpa using hFew
      rcases ih (by omega) with ⟨hHolds, _⟩
      have hBound :
          (names.map sampleEntry).length + 1 < 2 ^ 32 := by
        rw [List.length_map]
        omega
      have hAppend :=
        hHolds.append hBound (sampleEntry name)
      have hLength :=
        hHolds.length_append hBound (sampleEntry name)
      have hEq : sampleContent (names ++ [name]) =
          Directory.append (sampleContent names)
            (Directory.stats (sampleContent names))
            (sampleEntry name) := by
        simp [sampleContent, List.foldl_append]
      rw [hEq]
      refine ⟨by simpa using hAppend, ?_⟩
      rw [hLength]
      simp

/- What the directories hold. -/
theorem stored_sampleFileSystem
    (xs ys : List String)
    (hx : xs.length < 2 ^ 20)
    (hy : ys.length < 2 ^ 20) :
    let c := (sampleFileSystem xs ys).store.servers
    c.NoPending standard ∧
      c.Stored standard
        (sampleUuid (ascii "/x/")) (xs.map sampleEntry) ∧
      c.Stored standard
        (sampleUuid (ascii "/y/")) (ys.map sampleEntry) := by
  have hPending :
      Store.empty.servers.NoPending standard :=
    Cluster.noPending_empty _
  have hUuids :
      ((sampleWrites xs ys).2.map Input.uuid).Nodup := by
    simp only [sampleWrites, List.map_cons, List.map_nil]
    decide
  have hSize : ∀ names : List String,
      names.length < 2 ^ 20 →
        Directory.size (names.map sampleEntry).length <
          2 ^ 32 := by
    intro names hFew
    rw [Directory.size_eq, List.length_map]
    omega
  rcases holds_sampleContent xs hx with ⟨hHoldsX, hLengthX⟩
  rcases holds_sampleContent ys hy with ⟨hHoldsY, hLengthY⟩
  rcases Store.commit_stored (Schedule.inOrder 1) .multiInputs
      [⟨sampleUuid (ascii "/y/"), 0, sampleContent ys⟩]
      hPending hUuids
      ⟨hHoldsX, by simpa using hLengthX, hSize xs hx⟩ with
    ⟨s, hRun, hWrote, hFree, hStored⟩
  have hStore : (sampleFileSystem xs ys).store = s := by
    simp only [sampleFileSystem, sampleWrites]
    rw [hRun]
    rfl
  simp only [hStore]
  exact ⟨hFree, hStored,
    Cluster.stored_of_wrote hWrote hUuids (by simp)
      ⟨hHoldsY, by simpa using hLengthY, hSize ys hy⟩⟩

/- The only file of `/x/` is moved to `/y/`. -/
theorem rename_keeps_entries_of_only_file :
    ∃ answer fs',
      renameFile standard (fun _ => []) 2
          (fun _ => 0) sampleUuid sampleEnvironment 0
          (ascii "/x/f") (ascii "/y/h")
          (sampleFileSystem ["f"] ["g"]) =
        some (answer, fs') ∧
      KeepsEntries standard sampleUuid
        (ascii "/x/f") (ascii "/y/h")
        (sampleFileSystem ["f"] ["g"]) fs' := by
  have hSome :
      (renameFile standard (fun _ => []) 2
        (fun _ => 0) sampleUuid sampleEnvironment 0
        (ascii "/x/f") (ascii "/y/h")
        (sampleFileSystem ["f"] ["g"])).isSome = true := by
    decide +kernel
  rcases Option.isSome_iff_exists.mp hSome with
    ⟨⟨answer, fs'⟩, hRun⟩
  rcases stored_sampleFileSystem ["f"] ["g"] (by decide)
      (by decide) with
    ⟨hPending, hX, hY⟩
  refine ⟨answer, fs', hRun, ?_⟩
  refine (rename_keeps_entries_iff (Nat.le_refl 2) (by decide)
    (by decide) ?_ hPending ?_ hRun).mpr ?_
  · unfold DistinctKeys
    decide +kernel
  · intro entries hStored
    rw [← hY.unique hStored]
    decide
  · intro name hListed
    have hMem := (hX.lists_iff (by decide) name).mp hListed
    left
    have hName :
        ["f"].map (FilemetaServer.name ∘ sampleEntry) =
          [(PacketCreate.splitPath (ascii "/x/f")).2] := by
      decide
    rw [List.map_map, hName] at hMem
    exact List.mem_singleton.mp hMem

/-
  Another file of `/x/` is lost, when the file stays in the
  directory and when it moves to another proxy.
-/
theorem rename_empties_source :
    List.Forall
      (fun target =>
        ∃ answer fs',
          renameFile standard (fun _ => []) 2
              target.2 sampleUuid sampleEnvironment 0
              (ascii "/x/f") target.1
              (sampleFileSystem ["f", "g"] []) =
            some (answer, fs') ∧
          Cluster.Lists standard
            (sampleFileSystem ["f", "g"] []).store.servers
            (sampleUuid (ascii "/x/")) (ascii "g") ∧
          ¬ Cluster.Lists standard fs'.store.servers
            (sampleUuid (ascii "/x/")) (ascii "g"))
      [(ascii "/x/h", fun _ => 0),
        (ascii "/y/h", fun key =>
          if key = sampleUuid (ascii "/x/") then 0
          else 1)] := by
  rw [List.forall_iff_forall_mem]
  intro target hTarget
  have hSome :
      ∀ target ∈ [(ascii "/x/h", fun _ => 0),
          (ascii "/y/h", fun key =>
            if key = sampleUuid (ascii "/x/") then 0 else 1)],
        (renameFile standard (fun _ => []) 2
          target.2 sampleUuid sampleEnvironment 0
          (ascii "/x/f") target.1
          (sampleFileSystem ["f", "g"] [])).isSome = true := by
    decide +kernel
  have hPaths :
      ∀ path ∈ [ascii "/x/h", ascii "/y/h"],
        PacketCreate.IsFilePath path ∧
          DistinctKeys sampleUuid (ascii "/x/f") path := by
    unfold DistinctKeys
    decide +kernel
  have hPath : target.1 ∈ [ascii "/x/h", ascii "/y/h"] :=
    List.mem_map_of_mem (f := Prod.fst) hTarget
  rcases Option.isSome_iff_exists.mp (hSome target hTarget) with
    ⟨⟨answer, fs'⟩, hRun⟩
  rcases stored_sampleFileSystem ["f", "g"] [] (by decide)
      (by decide) with
    ⟨hPending, hX, _⟩
  rcases hPaths target.1 hPath with ⟨hNew, hKeys⟩
  rcases renameFile_spec (Nat.le_refl 2) (by decide) hNew hKeys
      hPending hRun with
    ⟨hEmpty, _⟩
  refine ⟨answer, fs', hRun, ?_, ?_⟩
  · rw [hX.lists_iff (by decide)]
    decide
  · have hParent :
        PacketCreate.getParentPath (ascii "/x/f") =
          ascii "/x/" := by
      decide
    rw [hParent] at hEmpty
    rw [hEmpty.lists_iff (by decide)]
    simp

end Client

end Slfs
