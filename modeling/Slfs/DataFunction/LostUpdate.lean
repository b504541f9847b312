import Slfs.DataFunction.Serial

/-
  Two requests that update one directory.

  Each request reads the directory and writes the whole of it
  back with its entry added or deleted. If both read before
  one of them has written, the second write takes the update
  of the first away, and both have replied `OK`.

  Main declarations:
    * `Chain.Alone`, a request and the servers it found
    * `Pair.both_updates_of_apart`
-/

----------
-- Updates Of One Directory
----------

namespace Slfs

open Transition
open StorageConf (standard)

open Jsre (FilemetaServer)

/- The requests that add or delete one entry. -/
def Work.updates : Work → Bool
| .metadata op =>
    match op with
    | .addfile | .mkdir | .deletefile | .addfileWrite => true
    | .init | .renameSameproxy | .ls | .open => false
    | .close | .getstatfile | .getstatdir => false
    | .lock | .unlock => false
| .file _ => false

variable {work : Work} {r : FilemetaServer}

theorem Work.cases_of_updates
    (h : work.updates = true) :
    work = .metadata .addfile ∨ work = .metadata .mkdir ∨
      work = .metadata .deletefile ∨
      work = .metadata .addfileWrite := by
  cases work with
  | file op => cases h
  | metadata op =>
      cases op <;> first | cases h; done | simp

/- Those of them that write under the key of a file. -/
def Work.stores : Work → Bool
| .metadata .mkdir | .metadata .addfileWrite => true
| _ => false

/-
  An added name is among the entries, and a deleted name is
  not.
-/
def Work.Shown
    (work : Work)
    (name : Bytes)
    (entries : List FilemetaServer) :
    Prop :=
  if work = .metadata .deletefile then
    name ∉ entries.map FilemetaServer.name
  else
    name ∈ entries.map FilemetaServer.name

instance Work.decidableShown
    (work : Work)
    (name : Bytes)
    (entries : List FilemetaServer) :
    Decidable (work.Shown name entries) := by
  unfold Work.Shown
  infer_instance

/- Entries with other names. -/
def others (names : List Bytes) (entries : List FilemetaServer) :
    List FilemetaServer :=
  entries.filter (fun r => r.name ∉ names)

/- What an update does to a directory. -/
structure Work.Updated
    (work : Work)
    (name : Bytes)
    (entries entries' : List FilemetaServer) :
    Prop where
  shown : work.Shown name entries'
  kept : (others [name] entries').Perm (others [name] entries)
  unique : (entries'.map FilemetaServer.name).Nodup
  length_le : entries'.length ≤ entries.length + 1

/- An update leaves entries with other names alone. -/
theorem Work.Updated.others
    {work : Work}
    {name : Bytes}
    {entries entries' : List FilemetaServer}
    (h : work.Updated name entries entries')
    {names : List Bytes}
    (hName : name ∈ names) :
    (others names entries').Perm (others names entries) := by
  have hPart : ∀ l : List FilemetaServer,
      Slfs.others names l =
        (Slfs.others [name] l).filter
          (fun r => r.name ∉ names) := by
    intro l
    unfold Slfs.others
    rw [List.filter_filter]
    refine List.filter_congr ?_
    intro r _
    by_cases hMem : r.name ∈ names
    · simp [hMem]
    · have hNe : r.name ≠ name := by
        intro hEq
        exact hMem (hEq ▸ hName)
      simp [hMem, hNe]
  rw [hPart, hPart]
  exact h.kept.filter _

/- What is seen of an update is not changed by another one. -/
theorem Work.Updated.shown_of_ne
    {other : Work}
    {name name' : Bytes}
    {entries entries' : List FilemetaServer}
    (h : work.Updated name entries entries')
    (hName : name' ≠ name) :
    other.Shown name' entries' ↔ other.Shown name' entries := by
  have hMem :
      name' ∈ entries'.map FilemetaServer.name ↔
        name' ∈ entries.map FilemetaServer.name := by
    have hKept : ∀ r : FilemetaServer, r.name = name' →
        (r ∈ entries' ↔ r ∈ entries) := by
      intro r hr
      have hSame := h.kept.mem_iff (a := r)
      simpa [Slfs.others, hr, hName] using hSame
    constructor
    · intro hNew
      rcases List.mem_map.mp hNew with ⟨r, hr, hEq⟩
      exact List.mem_map.mpr ⟨r, (hKept r hEq).mp hr, hEq⟩
    · intro hOld
      rcases List.mem_map.mp hOld with ⟨r, hr, hEq⟩
      exact List.mem_map.mpr ⟨r, (hKept r hEq).mpr hr, hEq⟩
  unfold Shown
  rw [hMem]

/- A new entry is added. -/
theorem updated_append
    {entries : List FilemetaServer}
    (hWork : work ≠ .metadata .deletefile)
    (hUnique : (entries.map FilemetaServer.name).Nodup)
    (hNew : r.name ∉ entries.map FilemetaServer.name) :
    work.Updated r.name entries (entries ++ [r]) where
  shown := by
    unfold Work.Shown
    rw [if_neg hWork]
    simp
  kept := by
    unfold others
    rw [List.filter_append]
    simp
  unique := by
    rw [List.map_append, List.map_singleton]
    refine List.nodup_append.mpr ⟨hUnique, by simp, ?_⟩
    intro a ha b hb hEq
    have hLast : b = r.name := List.mem_singleton.mp hb
    exact hNew (hLast ▸ hEq ▸ ha)
  length_le := by simp

/- An entry is deleted. -/
theorem updated_swapRemove
    {entries : List FilemetaServer}
    {i : Nat}
    (hUnique : (entries.map FilemetaServer.name).Nodup)
    (hEntry : entries[i]? = some r) :
    (Work.metadata .deletefile).Updated r.name entries
      (Table.swapRemove entries i) := by
  have hPerm := Table.perm_swapRemove hEntry
  refine
    { shown := ?_
      kept := ?_
      unique := Table.nodup_map_swapRemove _ hUnique hEntry
      length_le := ?_ }
  · unfold Work.Shown
    rw [if_pos rfl]
    have hNodup := (hPerm.map FilemetaServer.name).nodup_iff.mp
      hUnique
    rw [List.map_cons] at hNodup
    exact (List.nodup_cons.mp hNodup).1
  · have hSame := (hPerm.filter
      (fun a => decide (a.name ∉ [r.name]))).symm
    simpa [others] using hSame
  · rw [Table.length_swapRemove]
    omega

namespace Catalog

/- The catalog of one directory. -/
def only (uuid : Uuid) (entries : List FilemetaServer) :
    Catalog :=
  Function.update (fun _ => none) uuid (some entries)

variable {conf : StorageConf} {cat cat' : Catalog}
variable {uuid : Uuid}
variable {entries entries' : List FilemetaServer}

theorem only_self :
    only uuid entries uuid = some entries :=
  Function.update_self _ _ _

theorem only_of_ne
    {other : Uuid}
    (hOther : other ≠ uuid) :
    only uuid entries other = none :=
  Function.update_of_ne hOther _ _

/- Edits of a catalog, as far as one directory goes. -/
theorem Edits.only
    {inputs : List Input}
    (h : Edits inputs cat cat')
    (hDirectory : cat' uuid = some entries') :
    Edits inputs cat (Catalog.only uuid entries') where
  whole := h.whole
  edited := by
    intro other found hFound
    by_cases hOther : other = uuid
    · subst hOther
      rw [only_self] at hFound
      cases hFound
      exact h.edited other entries' hDirectory
    · rw [only_of_ne hOther] at hFound
      cases hFound

variable {task : Task}

section

variable (hWork : task.work.updates = true)
variable
    (hKey :
      task.work.stores = true →
        task.input.fileKey ≠ task.input.uuid)
include hWork hKey

/- A request that is not refused updates its directory. -/
theorem updated_of_step
    (hUnique : (entries.map FilemetaServer.name).Nodup)
    (hStep :
      (only task.input.uuid entries).step conf task =
        some cat') :
    ∃ entries',
      cat' task.input.uuid = some entries' ∧
        task.work.Updated task.input.name entries entries' := by
  -- what an added entry comes to
  have hAdd : ∀ next,
      task.work ≠ .metadata .deletefile →
      (only task.input.uuid entries).add task.input.uuid
          task.entry = some next →
        next task.input.uuid = some (entries ++ [task.entry]) ∧
          task.work.Updated task.input.name entries
            (entries ++ [task.entry]) := by
    intro next hOp hNext
    rcases add_eq_some hNext with ⟨found, hFound, hNew, rfl⟩
    rw [only_self] at hFound
    cases hFound
    refine ⟨Function.update_self _ _ _, ?_⟩
    rw [← task.name_entry]
    exact updated_append hOp hUnique hNew
  rcases task with ⟨work, input, amb, schedule⟩
  simp only at hWork
  rcases Work.cases_of_updates hWork with rfl | rfl | rfl | rfl
  · exact ⟨_, hAdd cat' (by simp) hStep⟩
  · rcases Option.map_eq_some_iff.mp hStep with
      ⟨next, hNext, rfl⟩
    have hDone := hAdd next (by simp) hNext
    refine ⟨_, ?_, hDone.2⟩
    rw [Function.update_of_ne (Ne.symm (hKey rfl))]
    exact hDone.1
  · rcases remove_eq_some hStep with
      ⟨found, i, r, hFound, hEntry, hName, rfl⟩
    have hSame : entries = found :=
      Option.some.inj (only_self.symm.trans hFound)
    subst hSame
    refine ⟨_, Function.update_self _ _ _, ?_⟩
    have hDone := updated_swapRemove hUnique hEntry
    rw [hName] at hDone
    exact hDone
  · exact ⟨_, hAdd cat' (by simp) hStep⟩

/- A directory with room for one more entry. -/
theorem allowed_only
    (hRoom : Directory.size (entries.length + 1) < 2 ^ 32) :
    task.Allowed (only task.input.uuid entries) := by
  have hFits :
      (only task.input.uuid entries).Room task.input.uuid := by
    intro found hFound
    rw [only_self] at hFound
    cases hFound
    exact hRoom
  rcases task with ⟨work, input, amb, schedule⟩
  simp only at hWork
  rcases Work.cases_of_updates hWork with rfl | rfl | rfl | rfl
  · exact hFits
  · exact ⟨hFits, hKey rfl⟩
  · trivial
  · exact ⟨hFits, only_of_ne (hKey rfl)⟩

end

end Catalog

namespace DataFunction

variable {conf : StorageConf}

theorem handler_of_updates
    {formatTime : UInt64 → Bytes}
    {work : Work}
    (hWork : work.updates = true)
    (amb : Ambient)
    (input : Jsre.Request) :
    Handler (handler conf formatTime amb work input) := by
  rcases Work.cases_of_updates hWork with rfl | rfl | rfl | rfl
  · exact handler_startMetaAddFile amb input
  · exact handler_startMetaMkdir amb input
  · exact handler_startMetaDeleteFile input
  · exact handler_startCreateAndWriteFileSingleRequest amb input

theorem next_of_updates
    (formatTime : UInt64 → Bytes)
    {task : Task}
    (hWork : task.work.updates = true)
    (records : Uuid → Bytes)
    (read : Uuid → UInt16 → Bytes) :
    task.next conf records read =
      handler conf formatTime task.amb task.work task.input
        (records task.input.uuid) := by
  rcases task with ⟨work, input, amb, schedule⟩
  simp only at hWork
  rcases Work.cases_of_updates hWork with rfl | rfl | rfl | rfl
    <;> rfl

end DataFunction

----------
-- A Request And The Servers It Found
----------

open Coordinator (okReply)

/- A read of a directory that brings at least a record. -/
structure Reading.OfDirectory (uuid : Uuid) (r : Reading) :
    Prop where
  cont : r.cont = .directory
  directory : r.range.uuid = uuid
  position : r.range.position = 0
  record : Jsre.recordSize ≤ r.range.size
  size : r.range.size < 2 ^ 32

namespace Chain

/- A request that updates a directory. -/
structure Updates (uuid : Uuid) (c : Chain) : Prop where
  work : c.work.updates = true
  directory : c.input.uuid = uuid
  key : c.work.stores = true → c.input.fileKey ≠ uuid

/- No server has answered the request. -/
def Waits (conf : StorageConf) (c : Chain) : Prop :=
  c.replies = [] ∧ c.writes = [] ∧
    ∀ r ∈ c.reads,
      ∀ i < (Reading.chunks conf r.range).length,
        r.answers i = none

instance decidableWaits
    (conf : StorageConf)
    (c : Chain) :
    Decidable (c.Waits conf) := by
  unfold Waits
  infer_instance

/- Nothing of the request is on its way. -/
def Over (c : Chain) : Prop :=
  c.live = 0 ∧ ∀ w ∈ c.writes, w.Over

instance decidableOver
    (c : Chain) :
    Decidable c.Over := by
  unfold Over
  infer_instance

/- A request that reads its directory from some servers. -/
structure Looking
    (conf : StorageConf)
    (base : Cluster)
    (c : Chain) :
    Prop where
  replies : c.replies = []
  writes : c.writes = []
  live : 0 < c.live
  reads :
    ∀ r ∈ c.reads,
      r.Serving conf base ∧ r.OfDirectory c.input.uuid

/-
  A request that found a directory in some servers, and what
  it has made of the servers.
-/
inductive Alone
    (conf : StorageConf)
    (base : Cluster)
    (entries : List FilemetaServer)
    (servers : Cluster)
    (c : Chain) :
    Prop where
| looking
    (hLooking : c.Looking conf base)
    (hServers : servers = base)
| refused
    (hReplies : c.replies ≠ [])
    (hWrites : c.writes = [])
    (hError : okReply ∉ c.replies)
    (hServers : servers = base)
| writing
    {w : Writing} {inputs : List Input}
    {entries' : List FilemetaServer}
    (hReplies : c.replies = [])
    (hWrites : c.writes = [w])
    (hPieces : w.pieces = Cluster.piecesOf conf inputs)
    (hDelivered : w.Delivered conf base servers)
    (hEdits :
      Catalog.Edits inputs (Catalog.only c.input.uuid entries)
        (Catalog.only c.input.uuid entries'))
    (hUpdated : c.work.Updated c.input.name entries entries')

variable {conf : StorageConf}
variable {formatTime : UInt64 → Bytes} {s s' : Store}
variable {c c' : Chain} {e : Event} {amb : Ambient}
variable {r n : Nat} {reading : Reading}
variable {base : Cluster} {version : Version}

/- The request itself stays the same. -/
theorem request_of_call
    {cont : Cont}
    {content : Bytes}
    (h :
      call conf formatTime amb version cont content s c =
        some (s', c')) :
    c'.work = c.work ∧ c'.input = c.input := by
  rcases Option.map_eq_some_iff.mp h with
    ⟨next, hProceed, hEq⟩
  cases hEq
  revert hProceed
  cases (DataFunction.resume conf formatTime amb c.work c.input
    c.join cont content).outcome with
  | reply | read | commit | wait =>
      rintro ⟨⟩
      exact ⟨rfl, rfl⟩
  | undefined => rintro ⟨⟩

theorem request_of_step
    (h : step conf formatTime s c e = some (s', c')) :
    c'.work = c.work ∧ c'.input = c.input := by
  cases stepped_of_step h with
  | serve | answer | readDeadline => exact ⟨rfl, rfl⟩
  | lastAnswer _ _ _ _ hCall | nothing _ _ _ hCall
  | readTimer _ _ hCall =>
      have hSame := request_of_call hCall
      exact hSame
  | send | prepare | response | commit => exact ⟨rfl, rfl⟩
  | deadline | timer => exact ⟨rfl, rfl⟩

theorem work_begin
    {work : Work}
    {input : Jsre.Request}
    (h : begin conf amb version work input = some c) :
    c.work = work := by
  unfold begin at h
  revert h
  cases DataFunction.begin amb work input with
  | reply | read | commit | wait =>
      rintro ⟨⟩
      rfl
  | undefined => rintro ⟨⟩

theorem Updates.step
    {uuid : Uuid}
    (h : c.Updates uuid)
    (hStep : Chain.step conf formatTime s c e = some (s', c')) :
    c'.Updates uuid := by
  rcases request_of_step hStep with ⟨hWork, hInput⟩
  exact
    { work := hWork ▸ h.work
      directory := hInput ▸ h.directory
      key := by
        rw [hWork, hInput]
        exact h.key }

/- The timer of an orderly read does not fire. -/
theorem Tidy.timer_ne
    (h : Tidy conf c)
    (hRead : c.reads[r]? = some reading) :
    reading.timer ≠ .expired := by
  have hTimely := h.timely _ (List.mem_of_getElem? hRead)
  intro hTimer
  by_cases hCalled : reading.Called
  · rw [(hTimely.done hCalled).1] at hTimer
    cases hTimer
  · rw [hTimely.waits hCalled] at hTimer
    cases hTimer

/- The steps of a request that has no read to wait for. -/
theorem Tidy.still_or_writing
    (h : Tidy conf c)
    (hLive : c.live = 0)
    (hStep : Chain.step conf formatTime s c e = some (s', c')) :
    (s'.servers = s.servers ∧ c'.replies = c.replies ∧
        c'.writes = c.writes ∧ c'.live = 0) ∨
      ∃ w writing writing',
        c.writes[w]? = some writing ∧
          c' = c.setWriting w writing' ∧
          Writing.Stepped conf s.servers writing s'.servers
            writing' := by
  have hCalled : ∀ {r : Nat} {reading : Reading},
      c.reads[r]? = some reading → reading.Called := by
    intro r reading hRead
    by_contra hNew
    have hPos := live_pos (List.mem_of_getElem? hRead) hNew
    omega
  -- a read that changes without calling again
  have hStill : ∀ {r : Nat} {reading reading' : Reading},
      c.reads[r]? = some reading →
      reading'.reader = reading.reader →
        (c.setReading r reading').live = 0 := by
    intro r reading reading' hRead hSame
    have hSum := live_setReading hRead reading'
    rw [Reading.live_of_called (hCalled hRead)] at hSum
    have hNow : reading'.Called := by
      unfold Reading.Called
      rw [hSame]
      exact hCalled hRead
    rw [Reading.live_of_called hNow] at hSum
    omega
  cases stepped_of_step hStep with
  | serve hRead =>
      exact Or.inl ⟨rfl, rfl, rfl, hStill hRead rfl⟩
  | answer hRead _ hSlot | lastAnswer hRead _ hSlot =>
      exact absurd (hCalled hRead)
        ((h.timely _ (List.mem_of_getElem? hRead)).not_called
          hSlot)
  | nothing hRead _ hNew => exact absurd (hCalled hRead) hNew
  | readDeadline hRead =>
      exact Or.inl ⟨rfl, rfl, rfl, hStill hRead rfl⟩
  | readTimer hRead hTimer =>
      exact absurd hTimer (h.timer_ne hRead)
  | send hWrite _ hSession =>
      exact Or.inr ⟨_, _, _, hWrite, rfl, .send _ hSession⟩
  | prepare hWrite hPiece hSent hRequest =>
      exact Or.inr ⟨_, _, _, hWrite, rfl,
        .prepare hPiece hSent hRequest⟩
  | @response w i writing type session hWrite hHandled hSession =>
      refine Or.inr ⟨_, _, _, hWrite, rfl, ?_⟩
      have hServers :
          ((writing.session.coordinator.outcome type).elim s
            (s.setChecked writing.uuids)).servers =
              s.servers := by
        cases writing.session.coordinator.outcome type <;> rfl
      rw [hServers]
      exact .response hHandled hSession
  | commit hWrite hPiece hOnWay hRequest =>
      exact Or.inr ⟨_, _, _, hWrite, rfl,
        .commit hPiece hOnWay hRequest⟩
  | deadline hWrite hSession =>
      exact Or.inr ⟨_, _, _, hWrite, rfl, .deadline hSession⟩
  | timer hWrite hSession =>
      exact Or.inr ⟨_, _, _, hWrite, rfl, .timer hSession⟩

/- A request that has replied or writes waits for no read. -/
theorem Tidy.live_eq_zero
    (h : Tidy conf c)
    (hClosed : c.replies ≠ [] ∨ c.writes ≠ []) :
    c.live = 0 := by
  by_contra hLive
  have hNone := h.waiting (Nat.pos_of_ne_zero hLive)
  rcases hClosed with hSome | hSome
  · have hPos := List.length_pos_of_ne_nil hSome
    omega
  · have hPos := List.length_pos_of_ne_nil hSome
    omega

/- One read of a request that looks has changed. -/
theorem Looking.setReading
    {reading' : Reading}
    (h : c.Looking conf base)
    (hRead : c.reads[r]? = some reading)
    (hServing : reading'.Serving conf base)
    (hRange : reading'.range = reading.range)
    (hCont : reading'.cont = reading.cont)
    (hCalled : reading'.Called ↔ reading.Called) :
    (c.setReading r reading').Looking conf base where
  replies := h.replies
  writes := h.writes
  live := by
    have hSum := live_setReading hRead reading'
    have hSame : reading'.live = reading.live := by
      unfold Reading.live
      simp only [hCalled]
    have hPos := h.live
    omega
  reads := by
    intro a hMem
    rcases Table.mem_set hMem with rfl | ⟨j, _, hj⟩
    · have hOld := (h.reads reading
        (List.mem_of_getElem? hRead)).2
      exact ⟨hServing,
        { cont := hCont ▸ hOld.cont
          directory := hRange ▸ hOld.directory
          position := hRange ▸ hOld.position
          record := hRange ▸ hOld.record
          size := hRange ▸ hOld.size }⟩
    · exact h.reads a (List.mem_of_getElem? hj)

/- The handler of a request follows the request. -/
theorem Updates.follows
    {base : Store}
    {entries : List FilemetaServer}
    (hUpdates : c.Updates c.input.uuid)
    (hHolds :
      base.Holds conf (Catalog.only c.input.uuid entries))
    (hRoom : Directory.size (entries.length + 1) < 2 ^ 32)
    (formatTime : UInt64 → Bytes)
    (amb : Ambient) :
    (Catalog.only c.input.uuid entries).Follows
      ((Catalog.only c.input.uuid entries).step conf
        ⟨c.work, c.input, amb, Schedule.inOrder 0⟩)
      (DataFunction.handler conf formatTime amb c.work c.input
        (base.records conf (Catalog.only c.input.uuid entries)
          c.input.uuid)) := by
  let task : Task := ⟨c.work, c.input, amb, Schedule.inOrder 0⟩
  have hAllowed :
      task.Allowed (Catalog.only task.input.uuid entries) :=
    Catalog.allowed_only hUpdates.work hUpdates.key hRoom
  have hRead : ∀ (uuid : Uuid) (size : UInt16),
      ((fun _ _ => [] : Uuid → UInt16 → Bytes) uuid
        size).length < 2 ^ 32 := by
    simp
  have hFollows :
      (Catalog.only c.input.uuid entries).Follows
        ((Catalog.only c.input.uuid entries).step conf task)
        (task.next conf
          (base.records conf
            (Catalog.only c.input.uuid entries))
          (fun _ _ => [])) :=
    Catalog.follows_next hHolds.shows_records hRead
      hHolds.readable hAllowed
  rw [DataFunction.next_of_updates formatTime
    hUpdates.work] at hFollows
  exact hFollows

/- The directory is read again. -/
theorem looking_of_reread
    (hReplies : c.replies = [])
    (hWrites : c.writes = [])
    (hReads :
      ∀ r ∈ c.reads,
        r.Serving conf base ∧ r.OfDirectory c.input.uuid)
    (hRecord : Jsre.recordSize ≤ n)
    (hSize : n < 2 ^ 32) :
    { c with
      join := none
      reads := c.reads ++
        [Reading.start conf
          (.directory, ⟨c.input.uuid, 0, n⟩)] }.Looking
      conf base where
  replies := hReplies
  writes := hWrites
  live :=
    live_pos
      (List.mem_append_right _ (List.mem_singleton.mpr rfl))
      (Reading.not_called_start _)
  reads := by
    intro r hMem
    rcases List.mem_append.mp hMem with hOld | hLast
    · exact hReads r hOld
    · rw [List.mem_singleton.mp hLast]
      exact ⟨Reading.serving_start _,
        { cont := rfl
          directory := rfl
          position := rfl
          record := hRecord
          size := hSize }⟩

/- The handler has gone on with its update. -/
theorem alone_of_go
    {entries : List FilemetaServer}
    {writes : Writes}
    (hUpdates : c.Updates c.input.uuid)
    (hUnique : (entries.map FilemetaServer.name).Nodup)
    (hReplies : c.replies = [])
    (hWrites : c.writes = [])
    (hFollows :
      (Catalog.only c.input.uuid entries).Follows
        ((Catalog.only c.input.uuid entries).step conf
          ⟨c.work, c.input, amb, Schedule.inOrder 0⟩)
        (.act (.go writes))) :
    Alone conf base entries base
      { c with
        join := none
        writes :=
          c.writes ++ [Writing.start conf version writes] } := by
  rcases hFollows with
    ⟨cat', hStep, hEdits, input, hInput, hPos⟩
  rcases Catalog.updated_of_step hUpdates.work hUpdates.key
    hUnique hStep with
    ⟨entries', hDirectory, hUpdated⟩
  have hZero := hEdits.whole.position input hInput
  have hLength := hEdits.whole.length_lt input hInput
  have hPieces : Cluster.piecesOf conf writes.2 ≠ [] :=
    Cluster.piecesOf_ne_nil hInput hPos (by omega)
  refine .writing (w := Writing.start conf version writes)
    hReplies ?_ rfl (Writing.delivered_start hPieces)
    (hEdits.only hDirectory) hUpdated
  simp only [hWrites, List.nil_append]

/-
  The callback of a directory gets what was read of the
  servers that were found.
-/
theorem alone_of_call
    {base : Store}
    {entries : List FilemetaServer}
    {content : Bytes}
    (hHolds :
      base.Holds conf (Catalog.only c.input.uuid entries))
    (hUnique : (entries.map FilemetaServer.name).Nodup)
    (hRoom : Directory.size (entries.length + 1) < 2 ^ 32)
    (hUpdates : c.Updates c.input.uuid)
    (hReplies : c.replies = [])
    (hWrites : c.writes = [])
    (hReads :
      ∀ r ∈ c.reads,
        r.Serving conf base.servers ∧
          r.OfDirectory c.input.uuid)
    (hRecord : Jsre.recordSize ≤ n)
    (hSize : n < 2 ^ 32)
    (hRead :
      base.servers.readBytes conf c.input.uuid 0 n =
        some content)
    (hServers : s.servers = base.servers)
    (hCall :
      call conf formatTime amb version .directory content s c =
        some (s', c')) :
    Alone conf base.servers entries s'.servers c' := by
  have hStored := hHolds.stored _ _ Catalog.only_self
  have hSmall := hHolds.readable _ _ Catalog.only_self
  have hHandler :
      DataFunction.Handler
        (DataFunction.handler conf formatTime amb c.work
          c.input) :=
    DataFunction.handler_of_updates hUpdates.work amb c.input
  have hFollows :=
    hUpdates.follows hHolds hRoom formatTime amb
  have hRecords :
      base.records conf (Catalog.only c.input.uuid entries)
          c.input.uuid =
        (List.range (Directory.size entries.length)).map
          (base.servers.byteAt conf c.input.uuid) := by
    simp only [Store.records, Catalog.only_self]
  have hOnce := Cluster.readnext_of_stored hStored hSmall
    hRecord hSize hHandler hRead
  rw [← hRecords] at hOnce
  rw [servers_of_call hCall, hServers]
  rcases Option.map_eq_some_iff.mp hCall with
    ⟨next, hProceed, hEq⟩
  cases hEq
  simp only [DataFunction.resume] at hProceed
  rcases hOnce with hShort | hSame
  · rw [hShort] at hProceed
    cases hProceed
    exact .looking (looking_of_reread hReplies hWrites hReads
      (Nat.le_add_right _ _) hSmall) rfl
  · rw [hSame] at hProceed
    cases hNext : DataFunction.handler conf formatTime amb
        c.work c.input (base.records conf
          (Catalog.only c.input.uuid entries)
          c.input.uuid) with
    | noSuchDirectory =>
        rw [hNext] at hProceed
        cases hProceed
        refine .refused ?_ hWrites ?_ rfl
        · simp
        · simp only [hReplies]
          decide
    | reread size =>
        rcases hHandler.begins with ⟨body, hBody⟩
        rw [hBody, hRecords,
          Cluster.withDirectory_of_holds hStored.holds] at hNext
        cases hNext
    | act action =>
        rw [hNext] at hProceed hFollows
        cases action with
        | reply buf =>
            cases hProceed
            refine .refused ?_ hWrites ?_ rfl
            · simp
            · simpa [hReplies] using Ne.symm hFollows.2
        | undefined => cases hProceed
        | go writes =>
            cases hProceed
            exact alone_of_go (c := c) hUpdates hUnique hReplies
              hWrites hFollows

end Chain

----------
-- Steps Of A Request That Is Alone
----------

namespace Chain

variable {conf : StorageConf}
variable {formatTime : UInt64 → Bytes} {base : Store}
variable {entries : List FilemetaServer} {uuid : Uuid}
variable {s s' : Store} {c c' : Chain} {e : Event}

/- A request that looks at the servers it found. -/
theorem Looking.step
    (h : c.Looking conf base.servers)
    (hTidy : c.Tidy conf)
    (hUpdates : c.Updates uuid)
    (hHolds : base.Holds conf (Catalog.only uuid entries))
    (hUnique : (entries.map FilemetaServer.name).Nodup)
    (hRoom : Directory.size (entries.length + 1) < 2 ^ 32)
    (hServers : s.servers = base.servers)
    (hStep : Chain.step conf formatTime s c e = some (s', c')) :
    Alone conf base.servers entries s'.servers c' := by
  have hDirectory := hUpdates.directory
  subst hDirectory
  have hTimely : ∀ {r : Nat} {reading : Reading},
      c.reads[r]? = some reading → reading.Timely conf :=
    fun hRead => hTidy.timely _ (List.mem_of_getElem? hRead)
  have hOld : ∀ {r : Nat} {reading : Reading},
      c.reads[r]? = some reading →
        reading.Serving conf base.servers ∧
          reading.OfDirectory c.input.uuid :=
    fun hRead => h.reads _ (List.mem_of_getElem? hRead)
  have hNoWrite : ∀ {w : Nat} {writing : Writing},
      c.writes[w]? ≠ some writing := by
    intro w writing hWrite
    rw [h.writes] at hWrite
    cases hWrite
  cases stepped_of_step hStep with
  | serve hRead hChunk hServed hNew =>
      rw [hServers] at hServed
      refine .looking ?_ hServers
      exact h.setReading hRead
        ((hOld hRead).1.serve hChunk hServed hNew) rfl rfl
        Iff.rfl
  | answer hRead hServed hSlot hMore =>
      refine .looking ?_ hServers
      refine h.setReading hRead ((hOld hRead).1.onResponse
        hServed) rfl rfl ?_
      constructor
      · intro hCalled
        exact absurd hMore hCalled
      · intro hCalled
        exact absurd hCalled ((hTimely hRead).not_called hSlot)
  | @lastAnswer r i amb version reading buf content rest _ _
      hRead hServed hSlot hLast hCall =>
      have hServing := (hOld hRead).1
      have hRange := (hOld hRead).2
      have hContent := hServing.content (hTimely hRead) hServed
        hSlot hLast
      rw [hRange.directory, hRange.position] at hContent
      rw [hRange.cont] at hCall
      refine alone_of_call
        (c := c.setReading r (reading.onResponse i buf)) hHolds
        hUnique hRoom ⟨hUpdates.work, rfl, hUpdates.key⟩
        h.replies h.writes ?_ hRange.record hRange.size hContent
        hServers hCall
      intro a hMem
      rcases Table.mem_set hMem with rfl | ⟨j, _, hj⟩
      · exact ⟨hServing.onResponse hServed,
          hRange.cont, hRange.directory, hRange.position,
          hRange.record, hRange.size⟩
      · exact h.reads a (List.mem_of_getElem? hj)
  | nothing hRead hSize =>
      have hRecord := (hOld hRead).2.record
      rw [hSize] at hRecord
      exact absurd hRecord (by decide)
  | readDeadline hRead =>
      have hServing := (hOld hRead).1
      refine .looking ?_ hServers
      exact h.setReading hRead
        ⟨hServing.served, hServing.filled⟩ rfl rfl Iff.rfl
  | readTimer hRead hTimer =>
      exact absurd hTimer (hTidy.timer_ne hRead)
  | send hWrite | prepare hWrite | response hWrite
  | commit hWrite | deadline hWrite | timer hWrite =>
      exact absurd hWrite hNoWrite

section

variable (h : Alone conf base.servers entries s.servers c)
variable (hTidy : c.Tidy conf)
variable (hUpdates : c.Updates uuid)
variable
    (hHolds : base.Holds conf (Catalog.only uuid entries))
include h hTidy hUpdates hHolds

/- A request keeps to the servers that it found. -/
theorem Alone.step
    (hUnique : (entries.map FilemetaServer.name).Nodup)
    (hRoom : Directory.size (entries.length + 1) < 2 ^ 32)
    (hStep : Chain.step conf formatTime s c e = some (s', c')) :
    Alone conf base.servers entries s'.servers c' := by
  rcases request_of_step hStep with ⟨hWork, hInput⟩
  cases h with
  | looking hLooking hServers =>
      exact hLooking.step hTidy hUpdates hHolds hUnique hRoom
        hServers hStep
  | refused hReplies hWrites hError hServers =>
      have hLive := hTidy.live_eq_zero (Or.inl hReplies)
      rcases hTidy.still_or_writing hLive hStep with
        ⟨hSame, hStill, hNone, _⟩ | ⟨w, writing, _, hWrite, _⟩
      · refine .refused ?_ (hNone.trans hWrites) ?_
          (hSame.trans hServers)
        · rw [hStill]
          exact hReplies
        · rw [hStill]
          exact hError
      · rw [hWrites] at hWrite
        cases hWrite
  | @writing w inputs entries' hReplies hWrites hPieces
      hDelivered hEdits hUpdated =>
      have hLive := hTidy.live_eq_zero
        (Or.inr (by rw [hWrites]; simp))
      rw [← hInput] at hEdits hUpdated
      rw [← hWork] at hUpdated
      rcases hTidy.still_or_writing hLive hStep with
        ⟨hSame, hStill, hKept, _⟩ |
          ⟨place, writing, writing', hWrite, rfl, hMoved⟩
      · refine .writing (hStill.trans hReplies)
          (hKept.trans hWrites) hPieces ?_ hEdits hUpdated
        rw [hSame]
        exact hDelivered
      · have hPlace : place = 0 ∧ writing = w := by
          rw [hWrites] at hWrite
          rcases place with _ | place
          · exact ⟨rfl, (Option.some.inj hWrite).symm⟩
          · cases hWrite
        rcases hPlace with ⟨rfl, rfl⟩
        have hSettled := hTidy.settled writing
          (List.mem_of_getElem? hWrite)
        have hNodup :
            (writing.pieces.map Piece.key).Nodup := by
          rw [hPieces]
          exact Cluster.nodup_piecesOf hEdits.whole.nodup
        have hNext := hDelivered.stepped hSettled hNodup
          hHolds.noPending hMoved
        refine .writing (w := writing') hReplies ?_ ?_ hNext
          hEdits hUpdated
        · change c.writes.set 0 writing' = [writing']
          rw [hWrites]
          rfl
        · rw [← hPieces]
          exact hMoved.pieces_eq

/-
  A request with nothing on its way has left the directory
  alone, or it has made its update.
-/
theorem Alone.settle
    (hOver : c.Over) :
    (okReply ∉ c.answers ∧ s.servers = base.servers) ∨
      ∃ entries',
        s.Holds conf (Catalog.only uuid entries') ∧
          c.work.Updated c.input.name entries entries' := by
  cases h with
  | looking hLooking =>
      have hPos := hLooking.live
      have hZero := hOver.1
      omega
  | refused hReplies hWrites hError hServers =>
      left
      refine ⟨?_, hServers⟩
      unfold answers
      rw [hWrites]
      simpa using hError
  | @writing w inputs entries' hReplies hWrites hPieces
      hDelivered hEdits hUpdated =>
      right
      have hMem : w ∈ c.writes := by simp [hWrites]
      have hNodup : (w.pieces.map Piece.key).Nodup := by
        rw [hPieces]
        exact Cluster.nodup_piecesOf hEdits.whole.nodup
      have hWrote := hDelivered.wrote (hTidy.settled w hMem)
        hNodup hHolds.noPending (hOver.2 w hMem)
      rw [hPieces] at hWrote
      rw [hUpdates.directory] at hEdits
      exact ⟨entries', hHolds.of_wrote hEdits hWrote, hUpdated⟩

end

end Chain

----------
-- Requests That Are Idle
----------

namespace Chain

/- The event is a server's answer to a read. -/
def Event.serves : Event → Bool
| .serve _ _ => true
| _ => false

/-
  A request that no server has answered, or that has nothing
  on its way.
-/
inductive Idle
    (conf : StorageConf)
    (base : Cluster)
    (c : Chain) :
    Prop where
| waits
    (hWaits : c.Waits conf)
    (hLooking : c.Looking conf base)
| done
    (hOver : c.Over)
    (hRecorded : ∀ w ∈ c.writes, w.Recorded)

variable {conf : StorageConf}
variable {formatTime : UInt64 → Bytes}
variable {base base' : Cluster}
variable {entries : List FilemetaServer} {s s' : Store}
variable {c c' : Chain} {e : Event}

/- A request that was not answered may look at any servers. -/
theorem Looking.rebase
    (h : c.Looking conf base)
    (hWaits : c.Waits conf) :
    c.Looking conf base' where
  replies := h.replies
  writes := h.writes
  live := h.live
  reads := by
    intro r hMem
    rcases h.reads r hMem with ⟨hServing, hDirectory⟩
    have hNone : ∀ i buf, r.answers i ≠ some buf := by
      intro i buf hSome
      rcases hServing.served i buf hSome with ⟨_, hChunk, _⟩
      have hLt := (List.getElem?_eq_some_iff.mp hChunk).1
      rw [hWaits.2.2 r hMem i hLt] at hSome
      cases hSome
    refine ⟨?_, hDirectory⟩
    exact
      { served := fun i buf hSome =>
          absurd hSome (hNone i buf)
        filled := hServing.filled }

theorem Looking.not_over
    (h : c.Looking conf base) :
    ¬ c.Over := by
  intro hOver
  have hPos := h.live
  have hZero := hOver.1
  omega

variable {servers : Cluster}

/- A request that was not answered has changed nothing. -/
theorem Alone.servers_of_waits
    (h : Alone conf base entries servers c)
    (hWaits : c.Waits conf) :
    servers = base := by
  cases h with
  | looking _ hServers => exact hServers
  | refused _ _ _ hServers => exact hServers
  | writing _ hWrites =>
      have hNone := hWaits.2.1
      rw [hWrites] at hNone
      cases hNone

theorem Alone.idle
    (h : Alone conf base entries servers c)
    (hIdle : c.Waits conf ∨ c.Over) :
    c.Idle conf base := by
  cases h with
  | looking hLooking =>
      rcases hIdle with hWaits | hOver
      · exact .waits hWaits hLooking
      · exact absurd hOver hLooking.not_over
  | refused hReplies hWrites =>
      rcases hIdle with hWaits | hOver
      · exact absurd hWaits.1 hReplies
      · exact .done hOver (by simp [hWrites])
  | writing _ hWrites _ hDelivered =>
      rcases hIdle with hWaits | hOver
      · have hNone := hWaits.2.1
        rw [hWrites] at hNone
        cases hNone
      · refine .done hOver ?_
        intro w hMem
        rw [hWrites] at hMem
        rw [List.mem_singleton.mp hMem]
        exact hDelivered.toRecorded

theorem Waits.answers_eq
    (h : c.Waits conf) :
    c.answers = [] := by
  unfold answers
  rw [h.1, h.2.1]
  rfl

/- A request that was not answered can only be answered. -/
theorem Waits.step
    (h : c.Waits conf)
    (hLooking : c.Looking conf base)
    (hTidy : c.Tidy conf)
    (hServes : e.serves = false)
    (hStep : Chain.step conf formatTime s c e = some (s', c')) :
    s'.servers = s.servers ∧ c'.Waits conf ∧
      c'.Looking conf base := by
  have hNoAnswer : ∀ {r i : Nat} {reading : Reading}
      {buf : Bytes}, c.reads[r]? = some reading →
        reading.answers i ≠ some buf := by
    intro r i reading buf hRead hSome
    have hMem := List.mem_of_getElem? hRead
    rcases (hLooking.reads _ hMem).1.served i buf hSome with
      ⟨_, hChunk, _⟩
    have hLt := (List.getElem?_eq_some_iff.mp hChunk).1
    rw [h.2.2 _ hMem i hLt] at hSome
    cases hSome
  have hNoWrite : ∀ {w : Nat} {writing : Writing},
      c.writes[w]? ≠ some writing := by
    intro w writing hWrite
    rw [h.2.1] at hWrite
    cases hWrite
  cases stepped_of_step hStep with
  | serve => cases hServes
  | answer hRead hServed | lastAnswer hRead hServed =>
      exact absurd hServed (hNoAnswer hRead)
  | nothing hRead hSize =>
      have hRecord := (hLooking.reads _
        (List.mem_of_getElem? hRead)).2.record
      rw [hSize] at hRecord
      exact absurd hRecord (by decide)
  | @readDeadline r reading hRead =>
      have hServing := (hLooking.reads _
        (List.mem_of_getElem? hRead)).1
      refine ⟨rfl, ⟨h.1, h.2.1, ?_⟩, ?_⟩
      · intro a hMem
        rcases Table.mem_set hMem with rfl | ⟨j, _, hj⟩
        · exact h.2.2 reading (List.mem_of_getElem? hRead)
        · exact h.2.2 a (List.mem_of_getElem? hj)
      · exact hLooking.setReading hRead
          ⟨hServing.served, hServing.filled⟩ rfl rfl Iff.rfl
  | readTimer hRead hTimer =>
      exact absurd hTimer (hTidy.timer_ne hRead)
  | send hWrite | prepare hWrite | response hWrite
  | commit hWrite | deadline hWrite | timer hWrite =>
      exact absurd hWrite hNoWrite

/- A request with nothing on its way has done all it does. -/
theorem Over.step
    (h : c.Over)
    (hRecorded : ∀ w ∈ c.writes, w.Recorded)
    (hTidy : c.Tidy conf)
    (hStep : Chain.step conf formatTime s c e = some (s', c')) :
    s'.servers = s.servers ∧ c'.Over ∧
      (∀ w ∈ c'.writes, w.Recorded) ∧
      c'.answers = c.answers := by
  rcases hTidy.still_or_writing h.1 hStep with
    ⟨hServers, hReplies, hWrites, hLive⟩ |
      ⟨place, writing, writing', hWrite, rfl, hMoved⟩
  · refine ⟨hServers, ⟨hLive, ?_⟩, ?_, ?_⟩
    · rw [hWrites]
      exact h.2
    · rw [hWrites]
      exact hRecorded
    · unfold answers
      rw [hReplies, hWrites]
  · have hMem := List.mem_of_getElem? hWrite
    have hSettled := hTidy.settled writing hMem
    rcases (h.2 writing hMem).stepped (hRecorded writing hMem)
      hSettled hMoved with
      ⟨hServers, hOver, hSame⟩
    refine ⟨hServers, ⟨h.1, ?_⟩, ?_, ?_⟩
    · intro w hw
      rcases Table.mem_set hw with rfl | ⟨j, _, hj⟩
      · exact hOver
      · exact h.2 w (List.mem_of_getElem? hj)
    · intro w hw
      rcases Table.mem_set hw with rfl | ⟨j, _, hj⟩
      · exact (hRecorded writing hMem).stepped hSettled hMoved
      · exact hRecorded w (List.mem_of_getElem? hj)
    · have hReplies := Table.map_set_of_key
        (fun w : Writing => w.session.coordinator.replies)
        hWrite hSame
      unfold answers setWriting
      rw [List.flatMap_def, List.flatMap_def, hReplies]

end Chain

----------
-- Taking Turns
----------

/- Two different requests that update one directory. -/
structure Chain.Both
    (conf : StorageConf)
    (uuid : Uuid)
    (c d : Chain) :
    Prop where
  tidy : c.Tidy conf ∧ d.Tidy conf
  updates : c.Updates uuid ∧ d.Updates uuid
  names : c.input.name ≠ d.input.name

/-
  One request has found the directory, and the other one is
  idle. The entries that neither of them names are those of
  the start.
-/
structure Chain.Turn
    (conf : StorageConf)
    (uuid : Uuid)
    (start : List FilemetaServer)
    (base : Store)
    (entries : List FilemetaServer)
    (s : Store)
    (c d : Chain) :
    Prop where
  holds : base.Holds conf (Catalog.only uuid entries)
  unique : (entries.map FilemetaServer.name).Nodup
  kept :
    (others [c.input.name, d.input.name] entries).Perm
      (others [c.input.name, d.input.name] start)
  alone : c.Alone conf base.servers entries s.servers
  idle : d.Idle conf base.servers
  shown :
    okReply ∈ d.answers → d.work.Shown d.input.name entries
  room : Directory.size (entries.length + 1) < 2 ^ 32
  rest :
    d.Over ∨ Directory.size (entries.length + 2) < 2 ^ 32

/- It is the turn of the first request. -/
def Chain.Turns
    (conf : StorageConf)
    (uuid : Uuid)
    (start : List FilemetaServer)
    (s : Store)
    (c d : Chain) :
    Prop :=
  ∃ base entries, Turn conf uuid start base entries s c d

theorem others_swap
    (a b : Bytes)
    (entries : List FilemetaServer) :
    others [a, b] entries = others [b, a] entries := by
  unfold others
  refine List.filter_congr ?_
  intro r _
  simp [and_comm]

namespace Chain

variable {conf : StorageConf}
variable {formatTime : UInt64 → Bytes} {uuid : Uuid}
variable {start : List FilemetaServer} {base : Store}
variable {entries : List FilemetaServer} {s s' : Store}
variable {c d c' d' : Chain} {e : Event}

theorem Both.symm
    (h : Both conf uuid c d) :
    Both conf uuid d c where
  tidy := h.tidy.symm
  updates := h.updates.symm
  names := h.names.symm

theorem Both.step
    (h : Both conf uuid c d)
    (hOrder : c.Orderly e)
    (hStep : Chain.step conf formatTime s c e = some (s', c')) :
    Both conf uuid c' d where
  tidy := ⟨tidy_step h.tidy.1 hOrder hStep, h.tidy.2⟩
  updates := ⟨h.updates.1.step hStep, h.updates.2⟩
  names := by
    rw [(request_of_step hStep).2]
    exact h.names

section

variable (h : Turn conf uuid start base entries s c d)
variable (hBoth : Both conf uuid c d)
include h hBoth

/- The request whose turn it is takes a step. -/
theorem Turn.step
    (hStep : Chain.step conf formatTime s c e = some (s', c')) :
    Turn conf uuid start base entries s' c' d where
  holds := h.holds
  unique := h.unique
  kept := by
    rw [(request_of_step hStep).2]
    exact h.kept
  alone := h.alone.step hBoth.tidy.1 hBoth.updates.1 h.holds
    h.unique h.room hStep
  idle := h.idle
  shown := h.shown
  room := h.room
  rest := h.rest

/- An idle request takes a step and stays idle. -/
theorem Turn.step_idle
    (hServes : e.serves = true → d.Over)
    (hStep : Chain.step conf formatTime s d e = some (s', d')) :
    Turn conf uuid start base entries s' c d' := by
  rcases request_of_step hStep with ⟨hWork, hInput⟩
  have hKept := h.kept
  rw [← hInput] at hKept
  cases h.idle with
  | waits hWaits hLooking =>
      have hNotOver := hLooking.not_over
      have hOther : e.serves = false := by
        by_contra hSome
        exact hNotOver (hServes (by simpa using hSome))
      rcases hWaits.step hLooking hBoth.tidy.2 hOther hStep with
        ⟨hServers, hWaits', hLooking'⟩
      refine
        { holds := h.holds
          unique := h.unique
          kept := hKept
          alone := hServers ▸ h.alone
          idle := .waits hWaits' hLooking'
          shown := ?_
          room := h.room
          rest := Or.inr (h.rest.resolve_left hNotOver) }
      rw [hWaits'.answers_eq]
      exact fun hMem => absurd hMem List.not_mem_nil
  | done hOver hRecorded =>
      rcases hOver.step hRecorded hBoth.tidy.2 hStep with
        ⟨hServers, hOver', hRecorded', hAnswers⟩
      refine
        { holds := h.holds
          unique := h.unique
          kept := hKept
          alone := hServers ▸ h.alone
          idle := .done hOver' hRecorded'
          shown := ?_
          room := h.room
          rest := Or.inl hOver' }
      rw [hAnswers, hWork, hInput]
      exact h.shown

/- A turn goes to the request that has waited. -/
theorem Turn.pass
    (hIdle : c.Waits conf ∨ c.Over)
    (hNotOver : ¬ d.Over) :
    Turns conf uuid start s d c := by
  have hKept := h.kept
  rw [others_swap, others_swap _ _ start] at hKept
  have hMore := h.rest.resolve_left hNotOver
  cases h.idle with
  | done hOver => exact absurd hOver hNotOver
  | waits hWaits hLooking =>
      -- nothing has been written yet
      have hSame :
          s.servers = base.servers → okReply ∉ c.answers →
            Turn conf uuid start base entries s d c := by
        intro hServers hNone
        exact
          { holds := h.holds
            unique := h.unique
            kept := hKept
            alone := .looking hLooking hServers
            idle := h.alone.idle hIdle
            shown := fun hMem => absurd hMem hNone
            room := h.room
            rest := Or.inr hMore }
      by_cases hOver : c.Over
      · rcases h.alone.settle hBoth.tidy.1 hBoth.updates.1
          h.holds hOver with
          ⟨hNone, hServers⟩ | ⟨entries', hHolds, hUpdated⟩
        · exact ⟨base, entries, hSame hServers hNone⟩
        · have hLength := hUpdated.length_le
          have hFits :
              Directory.size (entries'.length + 1) < 2 ^ 32 := by
            rw [Directory.size_eq] at hMore ⊢
            omega
          have hIdle' : c.Idle conf s.servers := by
            cases h.alone.idle hIdle with
            | waits _ hLive => exact absurd hOver hLive.not_over
            | done _ hRecorded => exact .done hOver hRecorded
          refine ⟨s, entries', ?_⟩
          exact
            { holds := hHolds
              unique := hUpdated.unique
              kept := (hUpdated.others (by simp)).trans hKept
              alone := .looking (hLooking.rebase hWaits) rfl
              idle := hIdle'
              shown := fun _ => hUpdated.shown
              room := hFits
              rest := Or.inl hOver }
      · have hWaits' := hIdle.resolve_right hOver
        refine ⟨base, entries, hSame ?_ ?_⟩
        · exact h.alone.servers_of_waits hWaits'
        · rw [hWaits'.answers_eq]
          exact List.not_mem_nil

end

/- One of the requests takes a step. -/
theorem turns_step
    (h :
      Turns conf uuid start s c d ∨ Turns conf uuid start s d c)
    (hBoth : Both conf uuid c d)
    (hServes : e.serves = true → d.Waits conf ∨ d.Over)
    (hStep : Chain.step conf formatTime s c e = some (s', c')) :
    Turns conf uuid start s' c' d ∨
      Turns conf uuid start s' d c' := by
  rcases h with ⟨base, entries, hTurn⟩ | ⟨base, entries, hTurn⟩
  · exact Or.inl ⟨base, entries, hTurn.step hBoth hStep⟩
  · by_cases hNew : e.serves = true ∧ ¬ c.Over
    · rcases hTurn.pass hBoth.symm (hServes hNew.1) hNew.2 with
        ⟨base', entries', hTurn'⟩
      exact Or.inl ⟨base', entries', hTurn'.step hBoth hStep⟩
    · refine Or.inr ⟨base, entries,
        hTurn.step_idle hBoth.symm ?_ hStep⟩
      intro hServe
      by_contra hNotOver
      exact hNew ⟨hServe, hNotOver⟩

/- The end of both requests. -/
theorem Turn.both
    (h : Turn conf uuid start base entries s c d)
    (hBoth : Both conf uuid c d)
    (hOver : c.Over)
    (hOk : okReply ∈ c.answers)
    (hOk' : okReply ∈ d.answers) :
    ∃ entries',
      s.servers.Stored conf uuid entries' ∧
        c.work.Shown c.input.name entries' ∧
        d.work.Shown d.input.name entries' ∧
        (others [c.input.name, d.input.name] entries').Perm
          (others [c.input.name, d.input.name] start) := by
  rcases h.alone.settle hBoth.tidy.1 hBoth.updates.1 h.holds
    hOver with
    ⟨hNone, _⟩ | ⟨entries', hHolds, hUpdated⟩
  · exact absurd hOk hNone
  · refine ⟨entries', hHolds.stored _ _ Catalog.only_self,
      hUpdated.shown, ?_,
      (hUpdated.others (by simp)).trans h.kept⟩
    exact (hUpdated.shown_of_ne hBoth.names.symm).mpr
      (h.shown hOk')

end Chain

----------
-- Two Requests Over One Store
----------

/- Two requests of one data function. -/
structure Pair where
  store : Store
  left : Chain
  right : Chain

namespace Pair

inductive Event where
| left (e : Chain.Event)
| right (e : Chain.Event)

variable (conf : StorageConf)
variable (formatTime : UInt64 → Bytes)

/- A step of one of the requests. -/
def step (t : Pair) : Event → Option Pair
| .left e =>
    (t.left.step conf formatTime t.store e).map
      (fun next => { t with store := next.1, left := next.2 })
| .right e =>
    (t.right.step conf formatTime t.store e).map
      (fun next => { t with store := next.1, right := next.2 })

/-
  The steps are orderly, and a server answers a read of one
  request while it has not answered the other one yet, or
  nothing of the other one is on its way any more.
-/
def Apart (t : Pair) : Event → Prop
| .left e =>
    t.left.Orderly e ∧
      (e.serves = true → t.right.Waits conf ∨ t.right.Over)
| .right e =>
    t.right.Orderly e ∧
      (e.serves = true → t.left.Waits conf ∨ t.left.Over)

instance decidableApart
    (t : Pair) :
    ∀ e : Event, Decidable (Apart conf t e)
| .left e =>
    inferInstanceAs (Decidable (t.left.Orderly e ∧
      (e.serves = true → t.right.Waits conf ∨ t.right.Over)))
| .right e =>
    inferInstanceAs (Decidable (t.right.Orderly e ∧
      (e.serves = true → t.left.Waits conf ∨ t.left.Over)))

/- All commits are through, and both requests replied `OK`. -/
def Accepted (t : Pair) : Prop :=
  (t.left.Over ∧ t.right.Over) ∧
    okReply ∈ t.left.answers ∧ okReply ∈ t.right.answers

instance decidableAccepted
    (t : Pair) :
    Decidable t.Accepted := by
  unfold Accepted
  infer_instance

/-
  The directory has both updates, and the entries that none
  of the requests names are those it had.
-/
def Reflects
    (uuid : Uuid)
    (entries : List FilemetaServer)
    (t : Pair) :
    Prop :=
  let found := t.store.servers.listed conf uuid
  let names := [t.left.input.name, t.right.input.name]
  t.store.servers.Stored conf uuid found ∧
    t.left.work.Shown t.left.input.name found ∧
    t.right.work.Shown t.right.input.name found ∧
    (others names found).Perm (others names entries)

/- The requests have taken turns so far. -/
structure TakingTurns
    (uuid : Uuid)
    (entries : List FilemetaServer)
    (t : Pair) :
    Prop where
  both : t.left.Both conf uuid t.right
  turn :
    Chain.Turns conf uuid entries t.store t.left t.right ∨
      Chain.Turns conf uuid entries t.store t.right t.left

variable {conf formatTime} {uuid : Uuid}
variable {entries : List FilemetaServer}

/- A request that has just begun. -/
theorem looking_begin
    {amb : Ambient}
    {version : Version}
    {work : Work}
    {input : Jsre.Request}
    {c : Chain}
    (hBegin :
      Chain.begin conf amb version work input = some c)
    (hUpdates : c.Updates uuid)
    (base : Cluster) :
    c.Looking conf base ∧ c.Waits conf := by
  have hWork : work.updates = true := by
    rw [← Chain.work_begin hBegin]
    exact hUpdates.work
  have hChain : c =
      { work := work
        input := input
        join := none
        reads :=
          [Reading.start conf
            (.directory,
              ⟨input.uuid, 0, DataFunction.readsize⟩)]
        writes := []
        replies := [] } := by
    rcases Work.cases_of_updates hWork with
      rfl | rfl | rfl | rfl
    all_goals exact (Option.some.inj hBegin).symm
  subst hChain
  refine ⟨?_, rfl, rfl, ?_⟩
  · refine
      { replies := rfl
        writes := rfl
        live := Chain.live_pos (List.mem_singleton.mpr rfl)
          (Reading.not_called_start _)
        reads := ?_ }
    intro r hMem
    rw [List.mem_singleton.mp hMem]
    have hRecord :
        Jsre.recordSize ≤ DataFunction.readsize := by decide
    have hSize : DataFunction.readsize < 2 ^ 32 := by decide
    exact ⟨Reading.serving_start _, rfl, rfl, rfl, hRecord,
      hSize⟩
  · intro r hMem i _
    rw [List.mem_singleton.mp hMem]
    rfl

theorem takingTurns_step
    (t : Pair)
    (e : Event)
    (t' : Pair)
    (h : t.TakingTurns conf uuid entries)
    (hApart : Apart conf t e)
    (hStep : step conf formatTime t e = some t') :
    t'.TakingTurns conf uuid entries := by
  cases e with
  | left e =>
      rcases Option.map_eq_some_iff.mp hStep with
        ⟨next, hNext, rfl⟩
      exact
        { both := h.both.step hApart.1 hNext
          turn := Chain.turns_step h.turn h.both hApart.2 hNext }
  | right e =>
      rcases Option.map_eq_some_iff.mp hStep with
        ⟨next, hNext, rfl⟩
      exact
        { both := (h.both.symm.step hApart.1 hNext).symm
          turn := (Chain.turns_step h.turn.symm h.both.symm
            hApart.2 hNext).symm }

/- What the turns come to in the end. -/
theorem TakingTurns.reflects
    {t : Pair}
    (h : t.TakingTurns conf uuid entries)
    (hAccepted : t.Accepted) :
    t.Reflects conf uuid entries := by
  rcases hAccepted with ⟨⟨hLeft, hRight⟩, hOk, hOk'⟩
  rcases h.turn with ⟨base, found, hTurn⟩ | ⟨base, found, hTurn⟩
  · rcases hTurn.both h.both hLeft hOk hOk' with
      ⟨entries', hStored, hShown, hShown', hKept⟩
    have hListed := hStored.listed_eq
    simp only [Reflects, hListed]
    exact ⟨hStored, hShown, hShown', hKept⟩
  · rcases hTurn.both h.both.symm hRight hOk' hOk with
      ⟨entries', hStored, hShown, hShown', hKept⟩
    have hListed := hStored.listed_eq
    rw [others_swap, others_swap _ _ entries] at hKept
    simp only [Reflects, hListed]
    exact ⟨hStored, hShown', hShown, hKept⟩

/-
  In every run in which a server answers one request only
  while the other is idle, two requests that both replied
  `OK` have both updated the directory.
-/
theorem both_updates_of_apart
    (conf : StorageConf)
    (formatTime : UInt64 → Bytes)
    (uuid : Uuid)
    (entries : List FilemetaServer)
    (amb amb' : Ambient)
    (version version' : Version)
    (work work' : Work)
    (input input' : Jsre.Request)
    (store : Store)
    (left right : Chain)
    (es : List Event)
    (final : Pair)
    (hLeft :
      Chain.begin conf amb version work input = some left)
    (hRight :
      Chain.begin conf amb' version' work' input' = some right)
    (hUpdates : left.Updates uuid ∧ right.Updates uuid)
    (hNames : left.input.name ≠ right.input.name)
    (hHolds : store.Holds conf (Catalog.only uuid entries))
    (hUnique : (entries.map FilemetaServer.name).Nodup)
    (hRoom : Directory.size (entries.length + 2) < 2 ^ 32)
    (hRun :
      run (step conf formatTime)
        ⟨store, left, right⟩ es = some final)
    (hApart :
      Along (step conf formatTime) (Apart conf)
        ⟨store, left, right⟩ es)
    (hAccepted : final.Accepted) :
    final.Reflects conf uuid entries := by
  have hFirst := looking_begin hLeft hUpdates.1 store.servers
  have hSecond := looking_begin hRight hUpdates.2 store.servers
  have hStart :
      (Pair.mk store left right).TakingTurns conf uuid
        entries := by
    refine
      { both :=
          { tidy :=
              ⟨Chain.tidy_begin hLeft, Chain.tidy_begin hRight⟩
            updates := hUpdates
            names := hNames }
        turn := Or.inl ⟨store, entries, ?_⟩ }
    exact
      { holds := hHolds
        unique := hUnique
        kept := List.Perm.refl _
        alone := .looking hFirst.1 rfl
        idle := .waits hSecond.2 hSecond.1
        shown := by
          rw [hSecond.2.answers_eq]
          exact fun hMem => absurd hMem List.not_mem_nil
        room := by
          rw [Directory.size_eq] at hRoom ⊢
          omega
        rest := Or.inr hRoom }
  have hEnd := invariant_of_run
    (I := fun t => t.TakingTurns conf uuid entries)
    takingTurns_step hStart hRun hApart
  exact hEnd.reflects hAccepted

/- A request in the directory, before its first step. -/
def sampleChain (op : MetaOperation) (name : String) : Chain :=
  { work := .metadata op
    input :=
      (Volume.sampleTask (.metadata op) name [0, 1, 2, 3]).input
    join := none
    reads :=
      [Reading.start standard (.directory,
          ⟨Volume.sampleKey 7, 0, DataFunction.readsize⟩)]
    writes := []
    replies := [] }

/- A file and a directory are to be added. -/
def sampleStart : Pair :=
  { store := Scene.sampleStore
    left := sampleChain .addfile "a"
    right := sampleChain .mkdir "b" }

/- The directory is read, and its callback runs. -/
def sampleRead (version : Version) : List Chain.Event :=
  [.serve 0 0, .answer 0 0 Scene.sampleAmbient version]

/- The directory is written. -/
def sampleWrite : List Chain.Event :=
  [.send 0, .prepare 0 0, .response 0 0, .commit 0 0 true]

/- Two files are written, and their messages interleave. -/
def sampleWrites : List Chain.Event :=
  [.send 0, .send 0, .prepare 0 1, .prepare 0 0,
    .response 0 0, .response 0 1, .commit 0 1 true,
    .commit 0 0 true]

theorem holds_sampleStore :
    Scene.sampleStore.Holds standard
      (Catalog.only (Volume.sampleKey 7) []) := by
  have hEnds :
      ((Volume.start Store.empty).step standard
        (fun _ => []) 2
        (Volume.sampleTask (.metadata .init) "" [])).isSome =
          true := by
    decide +kernel
  rcases Option.isSome_iff_exists.mp hEnds with ⟨v, hStep⟩
  have hStore : Scene.sampleStore = v.store := by
    unfold Scene.sampleStore
    rw [hStep]
    rfl
  rcases Option.map_eq_some_iff.mp hStep with
    ⟨⟨replies, store⟩, hRun, hVolume⟩
  have hEmpty :
      Store.empty.Holds standard (fun _ => none) :=
    { noPending :=
        Cluster.noPending_empty standard
      stored := fun _ _ hNone => nomatch hNone
      readable := fun _ _ hNone => nomatch hNone }
  have hProper :
      (Volume.sampleTask (.metadata .init) "" []).Proper
        standard Store.empty (fun _ => none) :=
    trivial
  have hHolds := hEmpty.runTask (Nat.le_refl 2) hProper hRun
  rw [hStore, ← hVolume]
  exact hHolds

/- The file is added before the directory is read again. -/
theorem both_updates_one_after_another :
    ∃ final,
      run (step standard (fun _ => [])) sampleStart
          ((sampleRead 9 ++ sampleWrite).map .left ++
            (sampleRead 10 ++ sampleWrites).map .right) =
        some final ∧
      final.Accepted ∧
      final.Reflects standard (Volume.sampleKey 7)
        [] := by
  have hEnds :
      (run (step standard (fun _ => [])) sampleStart
          ((sampleRead 9 ++ sampleWrite).map .left ++
            (sampleRead 10 ++ sampleWrites).map .right)).map
          (fun t => decide t.Accepted) = some true := by
    decide +kernel
  rcases Option.map_eq_some_iff.mp hEnds with
    ⟨final, hRun, hAccepted⟩
  have hDone := of_decide_eq_true hAccepted
  refine ⟨final, hRun, hDone, ?_⟩
  refine both_updates_of_apart standard
    (fun _ => []) (Volume.sampleKey 7) [] Scene.sampleAmbient
    Scene.sampleAmbient 0 0 (.metadata .addfile)
    (.metadata .mkdir) (sampleChain .addfile "a").input
    (sampleChain .mkdir "b").input Scene.sampleStore
    (sampleChain .addfile "a") (sampleChain .mkdir "b") _ final
    rfl rfl ⟨?_, ?_⟩ (by decide) holds_sampleStore
    List.nodup_nil (by decide) hRun ?_ hDone
  · exact ⟨rfl, rfl, by decide⟩
  · exact ⟨rfl, rfl, by decide⟩
  · decide +kernel

/- Two files are to be added. -/
def sampleFiles : Pair :=
  { store := Scene.sampleStore
    left := sampleChain .addfile "a"
    right := sampleChain .addfile "b" }

/-
  Both requests read the empty directory. The second one
  writes it without the file of the first one.
-/
theorem update_lost :
    sampleFiles.store.Holds standard
        (Catalog.only (Volume.sampleKey 7) []) ∧
      ∃ final,
        run (step standard (fun _ => []))
            sampleFiles
            ((sampleRead 9).map .left ++
              (sampleRead 10).map .right ++
              sampleWrite.map .left ++
              sampleWrite.map .right) =
          some final ∧
        final.Accepted ∧
        (final.store.servers.listed standard
            (Volume.sampleKey 7)).map FilemetaServer.name =
          [Decimal.ascii "b"] ∧
        ¬ final.Reflects standard
            (Volume.sampleKey 7) [] := by
  have hEnds :
      (run (step standard (fun _ => [])) sampleFiles
          ((sampleRead 9).map .left ++
            (sampleRead 10).map .right ++
            sampleWrite.map .left ++
            sampleWrite.map .right)).map
          (fun t => (decide t.Accepted,
            (t.store.servers.listed standard
              (Volume.sampleKey 7)).map FilemetaServer.name,
            decide (t.left.work.Shown t.left.input.name
              (t.store.servers.listed standard
                (Volume.sampleKey 7))))) =
        some (true, [Decimal.ascii "b"], false) := by
    decide +kernel
  rcases Option.map_eq_some_iff.mp hEnds with
    ⟨final, hRun, hSeen⟩
  rcases Prod.mk.inj hSeen with ⟨hAccepted, hRest⟩
  rcases Prod.mk.inj hRest with ⟨hListed, hShown⟩
  refine ⟨holds_sampleStore, final, hRun,
    of_decide_eq_true hAccepted, hListed, ?_⟩
  intro hReflects
  exact absurd hReflects.2.1 (of_decide_eq_false hShown)

end Pair

end Slfs
