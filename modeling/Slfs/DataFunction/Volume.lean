import Slfs.DataFunction.Edits
import Slfs.DataFunction.Records

/-
  Stores that follow a catalog.

  Requests are run one after another on any directory. They
  name directories that exist or do not exist at all, and
  write file data under keys that are not directories.

  Main declarations:
    * `Task.Proper`, the requests that are followed
    * `Volume.refines_catalog`
-/

----------
-- Stores With Directories
----------

namespace Slfs

open Transition

open Jsre

/- A read of the directory finds less than one record. -/
def Cluster.Missing
    (conf : StorageConf)
    (c : Cluster)
    (uuid : Uuid) :
    Prop :=
  ∀ content ∈ c.readBytes conf uuid 0 DataFunction.readsize,
    content.length < recordSize

namespace Store

variable (conf : StorageConf)

/-
  A store without pending logs that has the directories of a
  catalog, each small enough to be read.
-/
structure Holds (s : Store) (cat : Catalog) : Prop where
  noPending : s.servers.NoPending conf
  stored :
    ∀ uuid entries, cat uuid = some entries →
      s.servers.Stored conf uuid entries
  readable :
    ∀ uuid entries, cat uuid = some entries →
      Directory.size entries.length < 2 ^ 32

/- A key that is a directory, or under which nothing is. -/
def Known (s : Store) (cat : Catalog) (uuid : Uuid) : Prop :=
  cat uuid = none → s.servers.Missing conf uuid

end Store

/-
  The requests that a store follows: they name directories or
  keys of nothing, directories have room, and file data does
  not go to a directory.
-/
def Task.Proper
    (conf : StorageConf)
    (s : Store)
    (cat : Catalog)
    (task : Task) :
    Prop :=
  let input := task.input
  match task.work with
  | .metadata op =>
      match op with
      | .init => True
      | .addfile =>
          s.Known conf cat input.uuid ∧ cat.Room input.uuid
      | .mkdir =>
          s.Known conf cat input.uuid ∧ cat.Room input.uuid ∧
            input.fileKey ≠ input.uuid
      | .addfileWrite =>
          s.Known conf cat input.uuid ∧ cat.Room input.uuid ∧
            cat input.fileKey = none
      | .deletefile => s.Known conf cat input.uuid
      | .renameSameproxy =>
          ∀ info ∈ RenameInfo.parse input.data,
            s.Known conf cat info.fileParentKey ∧
              s.Known conf cat input.uuid ∧
              cat.Room input.uuid ∧
              cat info.newFileKey = none
      | .ls | .open | .close | .getstatfile => True
      | .getstatdir | .lock | .unlock => True
  | .file .write =>
      s.Known conf cat input.uuid ∧ cat input.fileKey = none
  | .file .read => True

instance Task.decidableProper
    (conf : StorageConf)
    (s : Store)
    (cat : Catalog)
    (task : Task) :
    Decidable (task.Proper conf s cat) := by
  unfold Task.Proper Store.Known Catalog.Room Cluster.Missing
  split
  · split <;> infer_instance
  · infer_instance
  · infer_instance

/- A store, and the keys of its directories. -/
structure Volume where
  store : Store
  directories : List Uuid

namespace Volume

variable (conf : StorageConf)
variable (formatTime : UInt64 → Bytes) (fuel : Nat)

/- Before any directory has been made. -/
def start (s : Store) : Volume :=
  { store := s, directories := [] }

def catalog (v : Volume) : Catalog :=
  fun uuid =>
    if uuid ∈ v.directories then
      some (v.store.servers.listed conf uuid)
    else none

/- Run a request; one that is answered `OK` may make one. -/
def step (v : Volume) (task : Task) : Option Volume :=
  (v.store.runTask conf formatTime fuel task).map
    (fun result =>
      { store := result.2
        directories :=
          if result.1 = [Coordinator.okReply] then
            task.makes ++ v.directories
          else v.directories })

def Proper (v : Volume) (task : Task) : Prop :=
  task.Proper conf v.store (v.catalog conf)

instance decidableProper
    (v : Volume)
    (task : Task) :
    Decidable (v.Proper conf task) :=
  task.decidableProper conf v.store (v.catalog conf)

/- The store has the directories that it should have. -/
def Sound (v : Volume) : Prop :=
  v.store.Holds conf (v.catalog conf)

end Volume

----------
-- Commits
----------

namespace Store

open Coordinator (okReply)

variable {conf : StorageConf} {s s' : Store}
variable {cat cat' : Catalog}

/- Nothing but the servers matters. -/
theorem Holds.congr
    (h : s.Holds conf cat)
    (hServers : s'.servers = s.servers) :
    s'.Holds conf cat where
  noPending := by
    rw [hServers]
    exact h.noPending
  stored := by
    rw [hServers]
    exact h.stored
  readable := h.readable

/- The servers after a committed write have its edits. -/
theorem Holds.of_wrote
    (h : s.Holds conf cat)
    {inputs : List Input}
    (hEdits : Catalog.Edits inputs cat cat')
    (hWrote :
      Cluster.Wrote conf (Cluster.piecesOf conf inputs)
        s.servers s'.servers) :
    s'.Holds conf cat' where
  noPending := hWrote.noPending h.noPending
  stored := by
    intro other found hFound
    rcases hEdits.edited other found hFound with
      ⟨bytes, hMem, hBytes⟩ | ⟨hNot, hSame⟩
    · exact Cluster.stored_of_wrote hWrote
        hEdits.whole.nodup hMem hBytes
    · exact (h.stored other found hSame).frame hWrote hNot
  readable := by
    intro other found hFound
    rcases hEdits.edited other found hFound with
      ⟨bytes, _, hBytes⟩ | ⟨_, hSame⟩
    · exact hBytes.size
    · exact h.readable other found hSame

/- A commit makes its edits. -/
theorem Holds.commit
    (h : s.Holds conf cat)
    {schedule : Schedule}
    {writes : Writes}
    (hEdits : Catalog.Edits writes.2 cat cat')
    (hData : ∃ input ∈ writes.2, 0 < input.data.length)
    {replies : List Bytes}
    (hRun :
      s.startTwoPcPrepare conf schedule writes =
        some (replies, s')) :
    replies = [okReply] ∧ s'.Holds conf cat' := by
  rcases hData with ⟨input, hInput, hPos⟩
  have hZero := hEdits.whole.position input hInput
  have hLength := hEdits.whole.length_lt input hInput
  rcases commit_of_noPending schedule writes.1 writes.2
    h.noPending hEdits.whole.nodup hInput hPos
    (by omega) with
    ⟨s'', hRun', hWrote, _⟩
  rw [hRun'] at hRun
  cases hRun
  exact ⟨rfl, h.of_wrote hEdits hWrote⟩

end Store

----------
-- Reading Directories
----------

namespace Store

variable {conf : StorageConf} {fuel : Nat}
variable {s s' : Store} {cat : Catalog} {uuid : Uuid}
variable (conf) in
/- The bytes of a directory's records. -/
def records (s : Store) (cat : Catalog) (uuid : Uuid) :
    Bytes :=
  match cat uuid with
  | none => []
  | some entries =>
      (List.range (Directory.size entries.length)).map
        (s.servers.byteAt conf uuid)

variable (conf) in
/- What is read of the start of a file. -/
def read (s : Store) (uuid : Uuid) (size : UInt16) : Bytes :=
  (s.servers.readBytes conf uuid 0 size.toNat).getD []

theorem length_read
    (s : Store)
    (uuid : Uuid)
    (size : UInt16) :
    (s.read conf uuid size).length < 2 ^ 32 := by
  have hSize := size.toNat_lt
  unfold read
  cases hRead :
      s.servers.readBytes conf uuid 0 size.toNat with
  | none => simp
  | some buf =>
      have hLe :=
        Cluster.length_readBytes_le (by omega) hRead
      rw [Option.getD_some]
      omega

theorem Holds.shows_records
    (h : s.Holds conf cat)
    (uuid : Uuid) :
    Directory.Shows (s.records conf cat uuid) (cat uuid) := by
  unfold records
  cases hCat : cat uuid with
  | none => exact (by decide : 0 < recordSize)
  | some entries => exact (h.stored uuid entries hCat).holds

/- A handler gets the records of its directory. -/
theorem Holds.fetch
    {α : Type}
    (h : s.Holds conf cat)
    (hFuel : 2 ≤ fuel)
    (hKnown : s.Known conf cat uuid)
    {readnext : Bytes → Next α}
    (hHandler : DataFunction.Handler readnext)
    {next : Next α}
    (hNext :
      s.servers.fetch conf uuid readnext fuel
        DataFunction.readsize = some next) :
    next = .act .undefined ∨
      next = readnext (s.records conf cat uuid) := by
  unfold records
  cases hCat : cat uuid with
  | some entries =>
      right
      rw [Cluster.fetch_eq_of_stored
        (h.stored uuid entries hCat)
        (h.readable uuid entries hCat) hFuel hHandler] at hNext
      exact (Option.some.inj hNext).symm
  | none =>
      rcases hHandler.begins with ⟨body, hBody⟩
      have hMissing : ∀ content : Bytes,
          content.length < recordSize →
            readnext content = .noSuchDirectory := by
        intro content hShort
        rw [hBody]
        exact if_pos hShort
      rcases fuel with _ | fuel
      · omega
      · unfold Cluster.fetch at hNext
        cases hRead : s.servers.readBytes conf uuid 0
            DataFunction.readsize with
        | none =>
            rw [hRead] at hNext
            exact Or.inl (Option.some.inj hNext).symm
        | some content =>
            have hShort := hKnown hCat content hRead
            rw [hRead] at hNext
            simp only [hMissing content hShort,
              Option.some.injEq] at hNext
            right
            rw [hMissing [] (by decide), hNext]

/- Handlers that only look leave the store as it is. -/
theorem servers_of_look
    {schedule : Schedule}
    {readnext : Bytes → Next Writes}
    (hLook : ∀ content writes,
      readnext content ≠ .act (.go writes))
    {replies : List Bytes}
    (hRun :
      s.perform conf fuel schedule uuid readnext =
        some (replies, s')) :
    s'.servers = s.servers := by
  rcases Option.bind_eq_some_iff.mp hRun with
    ⟨next, hFetch, hFinish⟩
  -- what a read ends with comes from the handler
  have hNext : ∀ fuel size,
      s.servers.fetch conf uuid readnext fuel size =
        some next →
      ∀ writes, next ≠ .act (.go writes) := by
    intro fuel
    induction fuel with
    | zero =>
        intro size hNone
        cases hNone
    | succ fuel ih =>
        intro size hSome writes
        unfold Cluster.fetch at hSome
        split at hSome
        · cases hSome
          simp
        · rename_i content _
          split at hSome
          · exact ih _ hSome writes
          · cases hSome
            exact hLook content writes
  cases next with
  | noSuchDirectory =>
      cases hFinish
      rfl
  | reread size => cases hFinish
  | act action =>
      cases action with
      | reply buf =>
          cases hFinish
          rfl
      | undefined => cases hFinish
      | go writes =>
          exact absurd rfl (hNext _ _ hFetch writes)

end Store

----------
-- What A Request Comes To
----------

open DataFunction

namespace Store

variable {conf : StorageConf}
variable {formatTime : UInt64 → Bytes} {fuel : Nat}
variable {s s' : Store} {cat : Catalog}
variable {replies : List Bytes} {task : Task} (conf) in
/-
  A request replied with an error, or committed what its
  handler went on with. What a data function remembers of the
  directory does not matter.
-/
def Concluded
    (s : Store)
    (replies : List Bytes)
    (s' : Store) :
    Next Writes → Prop
| .noSuchDirectory =>
    replies = [DataFunction.noSuchDirectory] ∧
      s'.servers = s.servers
| .reread _ => False
| .act (.reply buf) =>
    replies = [buf] ∧ s'.servers = s.servers
| .act .undefined => False
| .act (.go writes) =>
    ∃ schedule,
      s.startTwoPcPrepare conf schedule writes =
        some (replies, s')

variable {uuid : Uuid} {schedule : Schedule}

theorem concluded_of_finish
    {next : Next Writes}
    (hRun :
      s.finish conf schedule uuid next = some (replies, s')) :
    Concluded conf s replies s' next := by
  cases next with
  | noSuchDirectory =>
      cases hRun
      exact ⟨rfl, rfl⟩
  | reread size => cases hRun
  | act action =>
      cases action with
      | reply buf =>
          cases hRun
          exact ⟨rfl, rfl⟩
      | undefined => cases hRun
      | go writes => exact ⟨schedule, hRun⟩

theorem Holds.concluded_of_perform
    (h : s.Holds conf cat)
    (hFuel : 2 ≤ fuel)
    (hKnown : s.Known conf cat uuid)
    {readnext : Bytes → Next Writes}
    (hHandler : Handler readnext)
    (hRun :
      s.perform conf fuel schedule uuid readnext =
        some (replies, s')) :
    Concluded conf s replies s'
      (readnext (s.records conf cat uuid)) := by
  rcases Option.bind_eq_some_iff.mp hRun with
    ⟨next, hFetch, hFinish⟩
  have hDone := concluded_of_finish hFinish
  rcases h.fetch hFuel hKnown hHandler hFetch with
    hNone | hNext
  · rw [hNone] at hDone
    exact hDone.elim
  · rwa [hNext] at hDone

/- The parts of a renaming come together. -/
theorem Holds.concluded_of_rename
    (h : s.Holds conf cat)
    (hFuel : 2 ≤ fuel)
    {input : Jsre.Request}
    {info : RenameInfo}
    (hInfo : RenameInfo.parse input.data = some info)
    (hParent : s.Known conf cat info.fileParentKey)
    (hDest : s.Known conf cat input.uuid)
    (hRun :
      s.renameFile conf fuel schedule input =
        some (replies, s')) :
    Concluded conf s replies s'
      (renameNext input info
        (s.records conf cat info.fileParentKey)
        (s.records conf cat input.uuid)
        (s.read conf input.fileKey)) := by
  unfold renameFile at hRun
  rw [hInfo] at hRun
  simp only [Option.bind_eq_bind, Option.bind_some] at hRun
  rcases Option.bind_eq_some_iff.mp hRun with
    ⟨next, hFetch, hNext⟩
  unfold renameNext
  rcases h.fetch hFuel hParent
    (handler_startMetaRenameFile input info) hFetch with
    hNone | hSource
  · rw [hNone] at hNext
    cases hNext
  rw [← hSource]
  cases next with
  | noSuchDirectory =>
      cases hNext
      exact ⟨rfl, rfl⟩
  | reread size => cases hNext
  | act action =>
      cases action with
      | reply buf =>
          cases hNext
          exact ⟨rfl, rfl⟩
      | undefined => cases hNext
      | go result =>
          rcases result with ⟨content, r⟩
          rcases Option.bind_eq_some_iff.mp hNext with
            ⟨buf, hBuf, hRest⟩
          have hRead :
              s.read conf input.fileKey r.fileSize = buf := by
            rw [read, hBuf, Option.getD_some]
          simp only [hRead]
          by_cases hDir : sameParentDir input info = true
          · rw [if_pos hDir] at hRest ⊢
            exact ⟨schedule, hRest⟩
          · rw [if_neg hDir] at hRest ⊢
            rcases Option.bind_eq_some_iff.mp hRest with
              ⟨next', hFetch', hLast⟩
            rcases h.fetch hFuel hDest
              (handler_startMetaRenamePart2 info r)
              hFetch' with
              hNone | hTaken
            · rw [hNone] at hLast
              cases hLast
            rw [← hTaken]
            cases next' with
            | noSuchDirectory =>
                cases hLast
                exact ⟨rfl, rfl⟩
            | reread size => cases hLast
            | act action =>
                cases action with
                | reply buf => cases hLast
                | undefined => cases hLast
                | go taken =>
                    cases taken with
                    | error e =>
                        cases hLast
                        exact ⟨rfl, rfl⟩
                    | ok content' => exact ⟨schedule, hLast⟩

/- Every request that edits comes to what its handler says. -/
theorem Holds.concluded
    (h : s.Holds conf cat)
    (hFuel : 2 ≤ fuel)
    (hProper : task.Proper conf s cat)
    (hWork : task.work.edits = true)
    (hRun :
      s.runTask conf formatTime fuel task =
        some (replies, s')) :
    Concluded conf s replies s'
      (task.next conf (s.records conf cat)
        (s.read conf)) := by
  cases hTask : task.work with
  | metadata op =>
      simp only [Task.Proper, hTask] at hProper
      simp only [Store.runTask, hTask] at hRun
      simp only [Task.next, hTask]
      cases op with
      | init => exact ⟨task.schedule, hRun⟩
      | addfile =>
          exact h.concluded_of_perform hFuel hProper.1
            (handler_startMetaAddFile _ _) hRun
      | mkdir =>
          exact h.concluded_of_perform hFuel hProper.1
            (handler_startMetaMkdir _ _) hRun
      | deletefile =>
          exact h.concluded_of_perform hFuel hProper
            (handler_startMetaDeleteFile _) hRun
      | addfileWrite =>
          exact h.concluded_of_perform hFuel hProper.1
            (handler_startCreateAndWriteFileSingleRequest _ _)
            hRun
      | renameSameproxy =>
          cases hInfo : RenameInfo.parse task.input.data with
          | none =>
              -- without a complete body nothing is run
              simp [startPerformMetadata, renameFile, hInfo]
                at hRun
          | some info =>
              rcases hProper info hInfo with
                ⟨hParent, hDest, _, _⟩
              exact h.concluded_of_rename hFuel hInfo hParent
                hDest hRun
      | ls | «open» | close | getstatfile
      | getstatdir | lock | unlock =>
          rw [hTask] at hWork
          cases hWork
  | file op =>
      simp only [Task.Proper, hTask] at hProper
      simp only [Store.runTask, hTask] at hRun
      simp only [Task.next, hTask]
      cases op with
      | write =>
          exact h.concluded_of_perform hFuel hProper.1
            (handler_startWrite conf _ _) hRun
      | read =>
          rw [hTask] at hWork
          cases hWork

end Store

----------
-- Following A Catalog
----------

open Coordinator (okReply)

/- What the catalog asks of a proper request. -/
theorem Task.Proper.allowed
    {conf : StorageConf}
    {s : Store}
    {cat : Catalog}
    {task : Task}
    (h : task.Proper conf s cat) :
    task.Allowed cat := by
  cases hTask : task.work with
  | metadata op =>
      simp only [Task.Proper, hTask] at h
      simp only [Task.Allowed, hTask]
      cases op with
      | addfile | mkdir | addfileWrite => exact h.2
      | renameSameproxy =>
          intro info hInfo
          exact (h info hInfo).2.2
      | init | deletefile => trivial
      | ls | «open» | close | getstatfile => trivial
      | getstatdir | lock | unlock => trivial
  | file op =>
      simp only [Task.Proper, hTask] at h
      simp only [Task.Allowed, hTask]
      cases op with
      | write => exact h.2
      | read => trivial

namespace Store

variable {conf : StorageConf}
variable {formatTime : UInt64 → Bytes} {fuel : Nat}
variable {s s' : Store} {cat : Catalog}
variable {replies : List Bytes} {task : Task} (conf) in
/-
  A store followed an edit of its catalog. It answers `OK`
  exactly when the edit was not refused.
-/
structure Followed
    (s' : Store)
    (replies : List Bytes)
    (cat : Catalog)
    (edit : Option Catalog) :
    Prop where
  holds : s'.Holds conf (edit.getD cat)
  reply : replies = [okReply] ↔ edit.isSome

/- A handler that follows an edit, and what it came to. -/
theorem Holds.followed
    (h : s.Holds conf cat)
    {edit : Option Catalog}
    {next : Next Writes}
    (hFollows : cat.Follows edit next)
    (hDone : Concluded conf s replies s' next) :
    Followed conf s' replies cat edit := by
  have hRefused : ∀ buf : Bytes, edit = none →
      buf ≠ okReply → replies = [buf] →
      s'.servers = s.servers →
        Followed conf s' replies cat edit := by
    intro buf hEdit hBuf hReply hServers
    rw [hEdit]
    exact
      { holds := h.congr hServers
        reply := by simp [hReply, hBuf] }
  cases next with
  | noSuchDirectory =>
      exact hRefused _ hFollows (by decide) hDone.1 hDone.2
  | reread size => exact hDone.elim
  | act action =>
      cases action with
      | reply buf =>
          exact hRefused buf hFollows.1 hFollows.2 hDone.1
            hDone.2
      | undefined => exact hDone.elim
      | go writes =>
          rcases hFollows with ⟨cat', hEdit, hEdits, hData⟩
          rcases hDone with ⟨schedule, hRun⟩
          rcases h.commit hEdits hData hRun with
            ⟨hReply, hHolds⟩
          rw [hEdit]
          exact
            { holds := hHolds
              reply := by simp [hReply] }

/- A handler that never goes on to write. -/
theorem withDirectory_ne_go
    {content : Bytes}
    {body : Stats → Action Writes}
    {writes : Writes}
    (hBody : ∀ stat, body stat ≠ .go writes) :
    withDirectory content body ≠ .act (.go writes) := by
  unfold withDirectory
  split
  · simp
  · simp only
    split
    · simp
    · simpa using hBody _

/- Requests that only look change no server. -/
theorem servers_of_look_task
    (hWork : task.work.edits = false)
    (hRun :
      s.runTask conf formatTime fuel task =
        some (replies, s')) :
    s'.servers = s.servers := by
  rcases task with ⟨work, input, amb, schedule⟩
  cases work with
  | metadata op =>
      cases op with
      | init | addfile | mkdir | deletefile => cases hWork
      | renameSameproxy | addfileWrite => cases hWork
      | close | lock | unlock =>
          cases hRun
          rfl
      | ls =>
          refine servers_of_look ?_ hRun
          intro content writes
          exact withDirectory_ne_go (by simp)
      | «open» | getstatfile | getstatdir =>
          refine servers_of_look ?_ hRun
          intro content writes
          refine withDirectory_ne_go ?_
          intro stat
          split <;> simp
  | file op =>
      cases op with
      | write => cases hWork
      | read =>
          rcases Option.map_eq_some_iff.mp hRun with
            ⟨buf, _, hSame⟩
          cases hSame
          rfl

/- They keep the catalog. -/
theorem Holds.look
    (h : s.Holds conf cat)
    (hWork : task.work.edits = false)
    (hRun :
      s.runTask conf formatTime fuel task =
        some (replies, s')) :
    s'.Holds conf cat ∧ cat.step conf task = some cat := by
  refine ⟨h.congr (servers_of_look_task hWork hRun), ?_⟩
  rcases task with ⟨work, input, amb, schedule⟩
  cases work with
  | metadata op | file op =>
      cases op <;> first | rfl | cases hWork

/- The handler of a proper request follows the catalog. -/
theorem Holds.follows
    (h : s.Holds conf cat)
    (hProper : task.Proper conf s cat) :
    cat.Follows (cat.step conf task)
      (task.next conf (s.records conf cat) (s.read conf)) :=
  Catalog.follows_next h.shows_records (length_read s)
    h.readable hProper.allowed

/- Requests that edit directories do so in the catalog. -/
theorem Holds.edit
    (h : s.Holds conf cat)
    (hFuel : 2 ≤ fuel)
    (hProper : task.Proper conf s cat)
    (hWork : task.work.edits = true)
    (hRun :
      s.runTask conf formatTime fuel task =
        some (replies, s')) :
    Followed conf s' replies cat (cat.step conf task) :=
  h.followed (h.follows hProper)
    (h.concluded hFuel hProper hWork hRun)

/- Every proper request is followed. -/
theorem Holds.runTask
    (h : s.Holds conf cat)
    (hFuel : 2 ≤ fuel)
    (hProper : task.Proper conf s cat)
    (hRun :
      s.runTask conf formatTime fuel task =
        some (replies, s')) :
    s'.Holds conf (cat.after conf task) := by
  cases hWork : task.work.edits with
  | true => exact (h.edit hFuel hProper hWork hRun).holds
  | false =>
      rcases h.look hWork hRun with ⟨hHolds, hStep⟩
      rw [Catalog.after, hStep]
      exact hHolds

end Store

----------
-- Volumes
----------

namespace Volume

variable {conf : StorageConf}
variable {formatTime : UInt64 → Bytes} {fuel : Nat}
variable {v v' : Volume} {task : Task}

theorem isSome_catalog
    (v : Volume)
    (uuid : Uuid) :
    (v.catalog conf uuid).isSome ↔ uuid ∈ v.directories := by
  unfold catalog
  by_cases hMem : uuid ∈ v.directories
  · simp [hMem]
  · simp [hMem]

/- A store has one catalog with its directories. -/
theorem catalog_eq
    {cat : Catalog}
    (hHolds : v.store.Holds conf cat)
    (hDirectories : ∀ uuid,
      (cat uuid).isSome ↔ uuid ∈ v.directories) :
    v.catalog conf = cat := by
  funext uuid
  cases hCat : cat uuid with
  | none =>
      have hNot : uuid ∉ v.directories := by
        rw [← hDirectories, hCat]
        simp
      simp [catalog, hNot]
  | some entries =>
      have hMem : uuid ∈ v.directories := by
        rw [← hDirectories, hCat]
        rfl
      rw [catalog, if_pos hMem,
        (hHolds.stored uuid entries hCat).listed_eq]

theorem sound_start
    {s : Store}
    (hPending : s.servers.NoPending conf) :
    (start s).Sound conf where
  noPending := hPending
  stored := by
    intro uuid entries hCat
    simp [start, catalog] at hCat
  readable := by
    intro uuid entries hCat
    simp [start, catalog] at hCat

section

variable (h : v.Sound conf) (hFuel : 2 ≤ fuel)
variable (hProper : v.Proper conf task)
variable (hStep : v.step conf formatTime fuel task = some v')
include h hFuel hProper hStep

/- The directories after a request, refused or not. -/
theorem isSome_after
    (uuid : Uuid) :
    ((v.catalog conf).after conf task uuid).isSome ↔
      uuid ∈ v'.directories := by
  rcases Option.map_eq_some_iff.mp hStep with
    ⟨⟨replies, store⟩, hRun, hEq⟩
  subst hEq
  unfold Catalog.after
  cases hWork : task.work.edits with
  | false =>
      rcases h.look hWork hRun with ⟨_, hSame⟩
      rw [hSame]
      simp [isSome_catalog, Task.makes_of_look hWork]
  | true =>
      have hReply := (h.edit hFuel hProper hWork hRun).reply
      cases hEdit : (v.catalog conf).step conf task with
      | none =>
          rw [hEdit] at hReply
          have hRefused : replies ≠ [okReply] := by
            simpa using hReply
          simp [isSome_catalog, hRefused]
      | some cat =>
          rw [hEdit] at hReply
          have hAccepted : replies = [okReply] := by
            simpa using hReply
          rw [Option.getD_some, Catalog.isSome_step hEdit]
          simp [isSome_catalog, hAccepted]

/-
  A proper request takes the catalog of a volume to the next
  one.
-/
theorem catalog_of_step :
    v'.Sound conf ∧
      v'.catalog conf =
        (v.catalog conf).after conf task := by
  rcases Option.map_eq_some_iff.mp hStep with
    ⟨⟨replies, store⟩, hRun, hEq⟩
  have hHolds : v'.store.Holds conf
      ((v.catalog conf).after conf task) := by
    rw [← hEq]
    exact Store.Holds.runTask h hFuel hProper hRun
  have hCat := catalog_eq hHolds
    (isSome_after h hFuel hProper hStep)
  refine ⟨?_, hCat⟩
  unfold Sound
  rw [hCat]
  exact hHolds

end

end Volume

----------
-- Sample Requests
----------

namespace Volume

/- Keys of directories and files. -/
def sampleKey (n : UInt8) : Uuid :=
  Vector.replicate 32 n

/- A request on directory `7`. -/
def sampleTask (work : Work) (name : String) (data : Bytes) :
    Task :=
  { work := work
    input :=
      { uuid := sampleKey 7
        position := 0
        size := UInt32.ofNat data.length
        fileName := nameField (Decimal.ascii name)
        fileKey := sampleKey 8
        data := data }
    amb :=
      { now := 5
        reserved := Vector.replicate 60 1
        gap := Vector.replicate 2 1
        rest := Vector.replicate 6 1 }
    schedule := Schedule.inOrder 3 }

/- A renaming of a file of one of the directories. -/
def sampleRename
    (parent : UInt8)
    (name newName : String) :
    Task :=
  sampleTask (.metadata .renameSameproxy) name
    (RenameInfo.serialize
      { newFileKey := sampleKey 9
        newFileName := nameField (Decimal.ascii newName)
        fileParentKey := sampleKey parent })

----------
-- Runs Of Requests
----------

variable (conf : StorageConf)
variable (formatTime : UInt64 → Bytes) (fuel : Nat)

/- The answer to an edit says what the catalog does. -/
def Answers (v : Volume) (task : Task) : Prop :=
  task.work.edits = true →
    ∀ replies store,
      v.store.runTask conf formatTime fuel task =
          some (replies, store) →
        (replies = [Coordinator.okReply] ↔
          ((v.catalog conf).step conf task).isSome)

/-
  Requests are run one after another on directories that they
  make: renamings between them, writes and reads included.
  The directories are those of the catalog that the requests
  make in turn of an empty one, and a request that edits is
  answered `OK` exactly when the catalog lets it.
-/
theorem refines_catalog
    (s : Store)
    (tasks : List Task)
    (v' : Volume)
    (hFuel : 2 ≤ fuel)
    (hPending : s.servers.NoPending conf)
    (hRun :
      run (step conf formatTime fuel) (start s)
        tasks = some v')
    (hProper :
      Along (step conf formatTime fuel)
        (Proper conf) (start s) tasks) :
    v'.catalog conf =
        tasks.foldl (fun cat task => Catalog.after conf task cat)
          (fun _ => none) ∧
      Along (step conf formatTime fuel)
        (Answers conf formatTime fuel) (start s) tasks := by
  have hSound : (start s).Sound conf := sound_start hPending
  constructor
  · refine (rel_foldl
      (R := fun v cat => v.Sound conf ∧ v.catalog conf = cat)
      ?_ ⟨hSound, rfl⟩ hRun hProper).2
    rintro v task next _ ⟨hInv, rfl⟩ hTask hStep
    exact catalog_of_step hInv hFuel hTask hStep
  · refine along_of_invariant ?_ ?_ hSound hProper
    · intro v task next hInv hTask hStep
      exact (catalog_of_step hInv hFuel hTask hStep).1
    · intro v task hInv hTask hWork replies store hTaskRun
      exact (Store.Holds.edit hInv hFuel hTask hWork
        hTaskRun).reply

/- A file is made and gets a new name. -/
def newName : List Task :=
  [sampleTask (.metadata .init) "" [],
    sampleTask (.metadata .addfile) "a" [0, 1, 2, 3],
    sampleRename 7 "a" "c"]

theorem refines_catalog_of_newName :
    ∃ v',
      run (step .standard (fun _ => []) 2)
          (start Store.empty) newName = some v' ∧
        v'.catalog .standard =
          newName.foldl
            (fun cat task => Catalog.after .standard task cat)
            (fun _ => none) := by
  have hEnds :
      (run (step .standard (fun _ => []) 2)
        (start Store.empty) newName).isSome = true := by
    decide +kernel
  rcases Option.isSome_iff_exists.mp hEnds with ⟨v', hRun⟩
  refine ⟨v', hRun, ?_⟩
  refine (refines_catalog .standard (fun _ => []) 2
    Store.empty newName v' (Nat.le_refl 2)
    (Cluster.noPending_empty .standard) hRun ?_).1
  decide +kernel

end Volume

end Slfs
