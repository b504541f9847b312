import Slfs.DataFunction.Perform
import Slfs.DataFunction.System

/-
  Requests that wait for their answers.

  A request is a chain of callbacks: it reads its directory,
  goes on in a handler and writes with a two-phase commit.
  Answers and deadline timers come at any time, and a callback
  does not know of the others.

  Main declarations:
    * `Chain.step`
    * `Chain.content_of_step`
-/

----------
-- Callbacks
----------

namespace Slfs

open Jsre (FilemetaServer RenameInfo)

/- A range of a file. -/
structure Range where
  uuid : Uuid
  position : Nat
  size : Nat
deriving DecidableEq, Repr

/- What a read calls when its bytes are there. -/
inductive Cont where
| directory
| renameSource
| renameDestination (r : FilemetaServer)
| renameFile
| file
deriving DecidableEq, Repr

/-
  Variables that the parts of a renaming share: what has been
  read so far, and how many reads are missing.
-/
structure Join where
  outstandingRequests : Int
  allRequestsSuccessful : Bool
  errorString : Bytes
  source : Bytes
  destination : Option Bytes
  file : Option Bytes
deriving DecidableEq, Repr

/-
  What a callback does: call `next`, read, write, or leave it
  to the callbacks of other reads.
-/
inductive Outcome where
| reply (buf : Bytes)
| read (reads : List (Cont × Range))
| commit (writes : Writes)
| wait
| undefined
deriving DecidableEq, Repr

/-
  A callback has run. It may have erased the record of a
  directory in the recoder.
-/
structure Resumed where
  join : Option Join
  erased : List Uuid
  outcome : Outcome
deriving DecidableEq, Repr

namespace Join

/-
  A part of a renaming is done. The last one writes if all of
  them found what they looked for.
-/
def finish
    (input : Jsre.Request)
    (info : RenameInfo)
    (j : Join) :
    Join × Outcome :=
  let j :=
    { j with outstandingRequests := j.outstandingRequests - 1 }
  if j.outstandingRequests = 0 then
    if j.allRequestsSuccessful then
      match j.file with
      | none => (j, .undefined)
      | some file =>
          if DataFunction.sameParentDir input info then
            (j, .commit (.multiInputs,
              [⟨info.fileParentKey, 0, j.source⟩,
                ⟨info.newFileKey, 0, file⟩]))
          else
            match j.destination with
            | none => (j, .undefined)
            | some destination =>
                (j, .commit (.multiInputs,
                  [⟨info.fileParentKey, 0, j.source⟩,
                    ⟨input.uuid, 0, destination⟩,
                    ⟨info.newFileKey, 0, file⟩]))
    else (j, .reply j.errorString)
  else (j, .wait)

/- A part found an error. -/
def fail (j : Join) (e : DataFunction.RenameSubOperation) :
    Join :=
  { j with
    errorString := e.text
    allRequestsSuccessful := false }

end Join

namespace DataFunction

variable (conf : StorageConf)
variable (formatTime : UInt64 → Bytes)

/- The handler of a request that reads one directory. -/
def handler
    (amb : Ambient)
    (work : Work)
    (input : Jsre.Request) :
    Bytes → Next Writes :=
  match work with
  | .metadata op =>
      match op with
      | .addfile => startMetaAddFile amb input
      | .ls => startMetaLs formatTime
      | .mkdir => startMetaMkdir amb input
      | .deletefile => startMetaDeleteFile input
      | .addfileWrite =>
          startCreateAndWriteFileSingleRequest amb input
      | .open => startMetaOpenFile input
      | .getstatfile => startMetaGetStat formatTime false input
      | .getstatdir => startMetaGetStat formatTime true input
      | .init | .renameSameproxy | .close | .lock | .unlock =>
          fun _ => .act .undefined
  | .file .write => startWrite conf amb input
  | .file .read => fun _ => .act .undefined

/- What the handler of a directory asks for. -/
def resumeDirectory (uuid : Uuid) : Next Writes → Resumed
| .noSuchDirectory =>
    ⟨none, [uuid], .reply noSuchDirectory⟩
| .reread size =>
    ⟨none, [], .read [(.directory, ⟨uuid, 0, size⟩)]⟩
| .act (.reply buf) => ⟨none, [], .reply buf⟩
| .act .undefined => ⟨none, [], .undefined⟩
| .act (.go writes) => ⟨none, [], .commit writes⟩

/-
  The source directory of a renaming has been read. The file
  is read, and the destination if it is another directory.
-/
def resumeSource
    (input : Jsre.Request)
    (info : RenameInfo) :
    Next (Bytes × FilemetaServer) → Resumed
| .noSuchDirectory =>
    ⟨none, [info.fileParentKey], .reply noSuchDirectory⟩
| .reread size =>
    ⟨none, [], .read
      [(.renameSource, ⟨info.fileParentKey, 0, size⟩)]⟩
| .act (.reply buf) => ⟨none, [], .reply buf⟩
| .act .undefined => ⟨none, [], .undefined⟩
| .act (.go (source, r)) =>
    let file : Cont × Range :=
      (.renameFile, ⟨input.fileKey, 0, r.fileSize.toNat⟩)
    let join : Join :=
      { outstandingRequests := 1
        allRequestsSuccessful := true
        errorString := []
        source := source
        destination := none
        file := none }
    if sameParentDir input info then
      ⟨some join, [], .read [file]⟩
    else
      ⟨some { join with outstandingRequests := 2 }, [],
        .read [(.renameDestination r,
          ⟨input.uuid, 0, readsize⟩), file]⟩

/- The destination of a renaming has been read. -/
def resumeDestination
    (input : Jsre.Request)
    (info : RenameInfo)
    (r : FilemetaServer)
    (j : Join) :
    Next (Except RenameSubOperation Bytes) → Resumed
| .noSuchDirectory =>
    let done := (j.fail .directoryNotFound).finish input info
    ⟨some done.1, [input.uuid], done.2⟩
| .reread size =>
    ⟨some j, [], .read
      [(.renameDestination r, ⟨input.uuid, 0, size⟩)]⟩
| .act (.go (.error e)) =>
    let done := (j.fail e).finish input info
    ⟨some done.1, [], done.2⟩
| .act (.go (.ok destination)) =>
    let done :=
      { j with destination := some destination }.finish input
        info
    ⟨some done.1, [], done.2⟩
| .act _ => ⟨some j, [], .undefined⟩

/- A callback gets the bytes of its read. -/
def resume
    (amb : Ambient)
    (work : Work)
    (input : Jsre.Request)
    (join : Option Join)
    (cont : Cont)
    (content : Bytes) :
    Resumed :=
  match cont with
  | .directory =>
      resumeDirectory input.uuid
        (handler conf formatTime amb work input content)
  | .file => ⟨none, [], .reply content⟩
  | .renameSource =>
      match RenameInfo.parse input.data with
      | none => ⟨none, [], .undefined⟩
      | some info =>
          resumeSource input info
            (startMetaRenameFile input info content)
  | .renameDestination r =>
      match RenameInfo.parse input.data, join with
      | some info, some j =>
          resumeDestination input info r j
            (startMetaRenamePart2 info r content)
      | _, _ => ⟨join, [], .undefined⟩
  | .renameFile =>
      match RenameInfo.parse input.data, join with
      | some info, some j =>
          let done :=
            { j with file := some content }.finish input info
          ⟨some done.1, [], done.2⟩
      | _, _ => ⟨join, [], .undefined⟩

/- What a request does first. -/
def begin
    (amb : Ambient)
    (work : Work)
    (input : Jsre.Request) :
    Outcome :=
  match work with
  | .metadata op =>
      match op with
      | .init => .commit (startMetaInit amb input)
      | .renameSameproxy =>
          match RenameInfo.parse input.data with
          | none => .undefined
          | some info =>
              .read [(.renameSource,
                ⟨info.fileParentKey, 0, readsize⟩)]
      | .close | .lock | .unlock => .wait
      | .addfile | .ls | .mkdir | .deletefile =>
          .read [(.directory, ⟨input.uuid, 0, readsize⟩)]
      | .addfileWrite | .open | .getstatfile | .getstatdir =>
          .read [(.directory, ⟨input.uuid, 0, readsize⟩)]
  | .file .write =>
      .read [(.directory, ⟨input.uuid, 0, readsize⟩)]
  | .file .read =>
      .read [(.file, ⟨input.fileKey, input.position.toNat,
        input.size.toNat⟩)]

end DataFunction

----------
-- Reads, Commits And Chains
----------

/-
  A read: the answers that its servers have sent, and the
  accumulator with the answers that have been handled.
-/
structure Reading where
  cont : Cont
  range : Range
  answers : Nat → Option Bytes
  reader : Reader
  timer : Timer

namespace Reading

variable (conf : StorageConf)

def chunks (r : Range) : List Chunk :=
  Cluster.readChunks conf r.position r.size

def start (call : Cont × Range) : Reading :=
  { cont := call.1
    range := call.2
    answers := fun _ => none
    reader := Reader.start (chunks conf call.2).length
    timer := .armed }

/- The callback has been called with the bytes. -/
def Called (r : Reading) : Prop :=
  r.reader.replies ≠ []

instance decidableCalled
    (r : Reading) :
    Decidable r.Called := by
  unfold Called
  infer_instance

/- The answer to request `i` is handled. -/
def onResponse (r : Reading) (i : Nat) (buf : Bytes) :
    Reading :=
  let reader := r.reader.onResponse i buf
  { r with
    reader := reader
    timer :=
      if reader.replies = [] then r.timer
      else r.timer.cancel }

/- A read of nothing is done at once. -/
def onNothing (r : Reading) : Reading :=
  { r with
    reader := { r.reader with replies := [[]] }
    timer := r.timer.cancel }

end Reading

/-
  A commit in progress. The messages of the second round that
  are on their way are kept with the number of their piece.
-/
structure Writing where
  kind : PrepareKind
  version : Version
  uuids : List Uuid
  pieces : List Piece
  session : Session
  requests : Nat → Request
  onWay : List (Nat × Bool)

namespace Writing

def start
    (conf : StorageConf)
    (version : Version)
    (writes : Writes) :
    Writing :=
  { kind := writes.1
    version := version
    uuids := writes.2.map Input.uuid
    pieces := Cluster.piecesOf conf writes.2
    session := Session.start
    requests := fun _ => .unsent
    onWay := [] }

def size (w : Writing) : Nat := w.pieces.length

def stepSession (w : Writing) (e : Session.Event) :
    Option Session :=
  Session.step w.kind w.size w.session e

/- The second round is sent if the outcome is there. -/
def broadcast (w : Writing) : Option Bool → Writing
| none => w
| some agree =>
    { w with
      onWay := w.onWay ++
        (List.range w.size).map (fun i => (i, agree)) }

end Writing

/- A request, what it has started, and its calls of `next`. -/
structure Chain where
  work : Work
  input : Jsre.Request
  join : Option Join
  reads : List Reading
  writes : List Writing
  replies : List Bytes

namespace Chain

/-
  Steps of a chain. A callback that runs finds a clock and
  left bytes, and a commit that it starts takes a version.
-/
inductive Event where
| serve (r i : Nat)
| answer (r i : Nat) (amb : Ambient) (version : Version)
| nothing (r : Nat) (amb : Ambient) (version : Version)
| readDeadline (r : Nat)
| readTimer (r : Nat) (amb : Ambient) (version : Version)
| send (w : Nat)
| prepare (w i : Nat)
| response (w i : Nat)
| commit (w i : Nat) (agree : Bool)
| deadline (w : Nat)
| timer (w : Nat)

def readTimeout : Bytes :=
  Coordinator.literal "Error: Read Request Timeout"

def setReading (c : Chain) (r : Nat) (reading : Reading) :
    Chain :=
  { c with reads := c.reads.set r reading }

def setWriting (c : Chain) (w : Nat) (writing : Writing) :
    Chain :=
  { c with writes := c.writes.set w writing }

variable (conf : StorageConf)
variable (formatTime : UInt64 → Bytes)

/- The chain after an outcome; none where it is undefined. -/
def proceed
    (version : Version)
    (c : Chain) :
    Outcome → Option Chain
| .reply buf => some { c with replies := c.replies ++ [buf] }
| .read reads =>
    some
      { c with
        reads := c.reads ++ reads.map (Reading.start conf) }
| .commit writes =>
    some
      { c with
        writes :=
          c.writes ++ [Writing.start conf version writes] }
| .wait => some c
| .undefined => none

/- Start a request. -/
def begin
    (amb : Ambient)
    (version : Version)
    (work : Work)
    (input : Jsre.Request) :
    Option Chain :=
  proceed conf version
    { work := work
      input := input
      join := none
      reads := []
      writes := []
      replies := [] }
    (DataFunction.begin amb work input)

/- Call a callback. -/
def call
    (amb : Ambient)
    (version : Version)
    (cont : Cont)
    (content : Bytes)
    (s : Store)
    (c : Chain) :
    Option (Store × Chain) :=
  let done :=
    DataFunction.resume conf formatTime amb c.work c.input
      c.join cont content
  (proceed conf version { c with join := done.join }
    done.outcome).map
    (fun c => (s.setChecked done.erased false, c))

/- One step of a chain over the servers. -/
def step (s : Store) (c : Chain) :
    Event → Option (Store × Chain)
| .serve r i => do
    let reading ← c.reads[r]?
    let chunk ← (Reading.chunks conf reading.range)[i]?
    let buf ← s.servers.readAnswer conf reading.range.uuid chunk
    if reading.answers i = none then
      some (s, c.setReading r
        { reading with
          answers :=
            Function.update reading.answers i (some buf) })
    else
      none
| .answer r i amb version => do
    let reading ← c.reads[r]?
    let buf ← reading.answers i
    if reading.reader.results[i]? = some none then
      let reading' := reading.onResponse i buf
      let c := c.setReading r reading'
      match reading'.reader.replies with
      | [] => some (s, c)
      | content :: _ =>
          call conf formatTime amb version reading.cont content
            s c
    else
      none
| .nothing r amb version => do
    let reading ← c.reads[r]?
    if reading.range.size = 0 ∧ ¬ reading.Called then
      call conf formatTime amb version reading.cont [] s
        (c.setReading r reading.onNothing)
    else
      none
| .readDeadline r => do
    let reading ← c.reads[r]?
    some (s, c.setReading r
      { reading with timer := reading.timer.expire })
| .readTimer r amb version => do
    let reading ← c.reads[r]?
    if reading.timer = .expired then
      call conf formatTime amb version reading.cont readTimeout
        (s.setChecked [reading.range.uuid] false)
        (c.setReading r { reading with timer := .fired })
    else
      none
| .send w => do
    let writing ← c.writes[w]?
    let i := writing.session.coordinator.sent
    let p ← writing.pieces[i]?
    let session ← writing.stepSession .send
    some (s, c.setWriting w
      { writing with
        session := session
        requests := Function.update writing.requests i
          (.sent (s.recoder p.uuid)) })
| .prepare w i => do
    let writing ← c.writes[w]?
    let p ← writing.pieces[i]?
    let quick ← (writing.requests i).sent?
    let (resp, servers) ← s.servers.request conf
      (p.prepareRequest quick writing.version)
    some ({ s with servers := servers }, c.setWriting w
      { writing with
        requests := Function.update writing.requests i
          (.handled resp.header.type) })
| .response w i => do
    let writing ← c.writes[w]?
    let type ← (writing.requests i).handled?
    let session ← writing.stepSession (.respond i type)
    let outcome := writing.session.coordinator.outcome type
    some (outcome.elim s (s.setChecked writing.uuids),
      c.setWriting w
        ({ writing with session := session }.broadcast outcome))
| .commit w i agree => do
    let writing ← c.writes[w]?
    let p ← writing.pieces[i]?
    if (i, agree) ∈ writing.onWay then
      let (_, servers) ← s.servers.request conf
        (p.commitRequest agree writing.version)
      some ({ s with servers := servers }, c.setWriting w
        { writing with
          onWay := writing.onWay.erase (i, agree) })
    else
      none
| .deadline w => do
    let writing ← c.writes[w]?
    let session ← writing.stepSession .deadline
    some (s, c.setWriting w { writing with session := session })
| .timer w => do
    let writing ← c.writes[w]?
    let session ← writing.stepSession .timer
    some (s.setChecked writing.uuids false,
      c.setWriting w { writing with session := session })

/- All calls of `next` of a request. -/
def answers (c : Chain) : List Bytes :=
  c.replies ++
    c.writes.flatMap
      (fun w => w.session.coordinator.replies)

----------
-- Steps By Their Effect
----------

/- What each event does where it can happen. -/
inductive Stepped
    (conf : StorageConf)
    (formatTime : UInt64 → Bytes)
    (s : Store)
    (c : Chain) :
    Event → Store → Chain → Prop where
| serve
    {r i : Nat} {reading : Reading} {chunk : Chunk}
    {buf : Bytes}
    (hRead : c.reads[r]? = some reading)
    (hChunk :
      (Reading.chunks conf reading.range)[i]? = some chunk)
    (hServed :
      s.servers.readAnswer conf reading.range.uuid chunk =
        some buf)
    (hNew : reading.answers i = none) :
    Stepped conf formatTime s c (.serve r i) s
      (c.setReading r
        { reading with
          answers :=
            Function.update reading.answers i (some buf) })
| answer
    {r i : Nat} {amb : Ambient} {version : Version}
    {reading : Reading} {buf : Bytes}
    (hRead : c.reads[r]? = some reading)
    (hServed : reading.answers i = some buf)
    (hSlot : reading.reader.results[i]? = some none)
    (hMore : (reading.onResponse i buf).reader.replies = []) :
    Stepped conf formatTime s c (.answer r i amb version) s
      (c.setReading r (reading.onResponse i buf))
| lastAnswer
    {r i : Nat} {amb : Ambient} {version : Version}
    {reading : Reading} {buf content : Bytes}
    {rest : List Bytes} {s' : Store} {c' : Chain}
    (hRead : c.reads[r]? = some reading)
    (hServed : reading.answers i = some buf)
    (hSlot : reading.reader.results[i]? = some none)
    (hLast :
      (reading.onResponse i buf).reader.replies =
        content :: rest)
    (hCall :
      call conf formatTime amb version reading.cont content s
        (c.setReading r (reading.onResponse i buf)) =
          some (s', c')) :
    Stepped conf formatTime s c (.answer r i amb version) s' c'
| nothing
    {r : Nat} {amb : Ambient} {version : Version}
    {reading : Reading} {s' : Store} {c' : Chain}
    (hRead : c.reads[r]? = some reading)
    (hSize : reading.range.size = 0)
    (hNew : ¬ reading.Called)
    (hCall :
      call conf formatTime amb version reading.cont [] s
        (c.setReading r reading.onNothing) = some (s', c')) :
    Stepped conf formatTime s c (.nothing r amb version) s' c'
| readDeadline
    {r : Nat} {reading : Reading}
    (hRead : c.reads[r]? = some reading) :
    Stepped conf formatTime s c (.readDeadline r) s
      (c.setReading r
        { reading with timer := reading.timer.expire })
| readTimer
    {r : Nat} {amb : Ambient} {version : Version}
    {reading : Reading} {s' : Store} {c' : Chain}
    (hRead : c.reads[r]? = some reading)
    (hTimer : reading.timer = .expired)
    (hCall :
      call conf formatTime amb version reading.cont readTimeout
        (s.setChecked [reading.range.uuid] false)
        (c.setReading r { reading with timer := .fired }) =
          some (s', c')) :
    Stepped conf formatTime s c (.readTimer r amb version) s' c'
| send
    {w : Nat} {writing : Writing} {p : Piece}
    {session : Session}
    (hWrite : c.writes[w]? = some writing)
    (hPiece :
      writing.pieces[writing.session.coordinator.sent]? =
        some p)
    (hSession : writing.stepSession .send = some session) :
    Stepped conf formatTime s c (.send w) s
      (c.setWriting w
        { writing with
          session := session
          requests := Function.update writing.requests
            writing.session.coordinator.sent
            (.sent (s.recoder p.uuid)) })
| prepare
    {w i : Nat} {writing : Writing} {p : Piece} {quick : Bool}
    {resp : Packet} {servers : Cluster}
    (hWrite : c.writes[w]? = some writing)
    (hPiece : writing.pieces[i]? = some p)
    (hSent : writing.requests i = .sent quick)
    (hRequest :
      s.servers.request conf
        (p.prepareRequest quick writing.version) =
          some (resp, servers)) :
    Stepped conf formatTime s c (.prepare w i)
      { s with servers := servers }
      (c.setWriting w
        { writing with
          requests := Function.update writing.requests i
            (.handled resp.header.type) })
| response
    {w i : Nat} {writing : Writing} {type : MsgT}
    {session : Session}
    (hWrite : c.writes[w]? = some writing)
    (hHandled : writing.requests i = .handled type)
    (hSession :
      writing.stepSession (.respond i type) = some session) :
    Stepped conf formatTime s c (.response w i)
      ((writing.session.coordinator.outcome type).elim s
        (s.setChecked writing.uuids))
      (c.setWriting w
        ({ writing with session := session }.broadcast
          (writing.session.coordinator.outcome type)))
| commit
    {w i : Nat} {agree : Bool} {writing : Writing} {p : Piece}
    {resp : Packet} {servers : Cluster}
    (hWrite : c.writes[w]? = some writing)
    (hPiece : writing.pieces[i]? = some p)
    (hOnWay : (i, agree) ∈ writing.onWay)
    (hRequest :
      s.servers.request conf
        (p.commitRequest agree writing.version) =
          some (resp, servers)) :
    Stepped conf formatTime s c (.commit w i agree)
      { s with servers := servers }
      (c.setWriting w
        { writing with
          onWay := writing.onWay.erase (i, agree) })
| deadline
    {w : Nat} {writing : Writing} {session : Session}
    (hWrite : c.writes[w]? = some writing)
    (hSession : writing.stepSession .deadline = some session) :
    Stepped conf formatTime s c (.deadline w) s
      (c.setWriting w { writing with session := session })
| timer
    {w : Nat} {writing : Writing} {session : Session}
    (hWrite : c.writes[w]? = some writing)
    (hSession : writing.stepSession .timer = some session) :
    Stepped conf formatTime s c (.timer w)
      (s.setChecked writing.uuids false)
      (c.setWriting w { writing with session := session })

variable {conf : StorageConf}
variable {formatTime : UInt64 → Bytes} {s s' : Store}
variable {c c' : Chain} {e : Event}

/- Every step is one of those. -/
theorem stepped_of_step
    (h : step conf formatTime s c e = some (s', c')) :
    Stepped conf formatTime s c e s' c' := by
  cases e with
  | serve r i =>
      rcases Option.bind_eq_some_iff.mp h with
        ⟨reading, hRead, h⟩
      rcases Option.bind_eq_some_iff.mp h with
        ⟨chunk, hChunk, h⟩
      rcases Option.bind_eq_some_iff.mp h with
        ⟨buf, hServed, h⟩
      by_cases hNew : reading.answers i = none
      · rw [if_pos hNew] at h
        cases h
        exact .serve hRead hChunk hServed hNew
      · rw [if_neg hNew] at h
        cases h
  | answer r i amb version =>
      rcases Option.bind_eq_some_iff.mp h with
        ⟨reading, hRead, h⟩
      rcases Option.bind_eq_some_iff.mp h with
        ⟨buf, hServed, h⟩
      by_cases hSlot : reading.reader.results[i]? = some none
      · rw [if_pos hSlot] at h
        cases hReplies :
            (reading.onResponse i buf).reader.replies with
        | nil =>
            simp only [hReplies] at h
            cases h
            exact .answer hRead hServed hSlot hReplies
        | cons content rest =>
            simp only [hReplies] at h
            exact .lastAnswer hRead hServed hSlot hReplies h
      · rw [if_neg hSlot] at h
        cases h
  | nothing r amb version =>
      rcases Option.bind_eq_some_iff.mp h with
        ⟨reading, hRead, h⟩
      by_cases hNew :
          reading.range.size = 0 ∧ ¬ reading.Called
      · rw [if_pos hNew] at h
        exact .nothing hRead hNew.1 hNew.2 h
      · rw [if_neg hNew] at h
        cases h
  | readDeadline r =>
      rcases Option.bind_eq_some_iff.mp h with
        ⟨reading, hRead, h⟩
      cases h
      exact .readDeadline hRead
  | readTimer r amb version =>
      rcases Option.bind_eq_some_iff.mp h with
        ⟨reading, hRead, h⟩
      by_cases hTimer : reading.timer = .expired
      · rw [if_pos hTimer] at h
        exact .readTimer hRead hTimer h
      · rw [if_neg hTimer] at h
        cases h
  | send w =>
      rcases Option.bind_eq_some_iff.mp h with
        ⟨writing, hWrite, h⟩
      rcases Option.bind_eq_some_iff.mp h with ⟨p, hPiece, h⟩
      rcases Option.bind_eq_some_iff.mp h with
        ⟨session, hSession, h⟩
      cases h
      exact .send hWrite hPiece hSession
  | prepare w i =>
      rcases Option.bind_eq_some_iff.mp h with
        ⟨writing, hWrite, h⟩
      rcases Option.bind_eq_some_iff.mp h with ⟨p, hPiece, h⟩
      rcases Option.bind_eq_some_iff.mp h with ⟨quick, hSent, h⟩
      rcases Option.bind_eq_some_iff.mp h with
        ⟨⟨resp, servers⟩, hRequest, h⟩
      cases h
      exact .prepare hWrite hPiece
        (Request.sent?_eq_some.mp hSent) hRequest
  | response w i =>
      rcases Option.bind_eq_some_iff.mp h with
        ⟨writing, hWrite, h⟩
      rcases Option.bind_eq_some_iff.mp h with
        ⟨type, hHandled, h⟩
      rcases Option.bind_eq_some_iff.mp h with
        ⟨session, hSession, h⟩
      cases h
      exact .response hWrite
        (Request.handled?_eq_some.mp hHandled) hSession
  | commit w i agree =>
      rcases Option.bind_eq_some_iff.mp h with
        ⟨writing, hWrite, h⟩
      rcases Option.bind_eq_some_iff.mp h with ⟨p, hPiece, h⟩
      by_cases hOnWay : (i, agree) ∈ writing.onWay
      · rw [if_pos hOnWay] at h
        rcases Option.bind_eq_some_iff.mp h with
          ⟨⟨resp, servers⟩, hRequest, h⟩
        cases h
        exact .commit hWrite hPiece hOnWay hRequest
      · rw [if_neg hOnWay] at h
        cases h
  | deadline w =>
      rcases Option.bind_eq_some_iff.mp h with
        ⟨writing, hWrite, h⟩
      rcases Option.bind_eq_some_iff.mp h with
        ⟨session, hSession, h⟩
      cases h
      exact .deadline hWrite hSession
  | timer w =>
      rcases Option.bind_eq_some_iff.mp h with
        ⟨writing, hWrite, h⟩
      rcases Option.bind_eq_some_iff.mp h with
        ⟨session, hSession, h⟩
      cases h
      exact .timer hWrite hSession

----------
-- The Servers
----------

/- A callback does not touch the servers itself. -/
theorem servers_of_call
    {amb : Ambient}
    {version : Version}
    {cont : Cont}
    {content : Bytes}
    (h :
      call conf formatTime amb version cont content s c =
        some (s', c')) :
    s'.servers = s.servers := by
  rcases Option.map_eq_some_iff.mp h with ⟨_, _, hEq⟩
  cases hEq
  rfl

variable (conf) in
/- A prepare is handled where its block exists. -/
def Found (s : Store) (c : Chain) : Event → Prop
| .prepare w i =>
    ∀ writing ∈ c.writes[w]?, ∀ p ∈ writing.pieces[i]?,
      (s.servers.block conf p.key).content.isSome
| .serve _ _ | .answer _ _ _ _ | .nothing _ _ _ => True
| .readDeadline _ | .readTimer _ _ _ | .send _ => True
| .response _ _ | .commit _ _ _ => True
| .deadline _ | .timer _ => True

instance decidableFound
    (s : Store)
    (c : Chain) :
    ∀ e : Event, Decidable (Found conf s c e)
| .prepare w i =>
    inferInstanceAs
      (Decidable (∀ writing ∈ c.writes[w]?,
        ∀ p ∈ writing.pieces[i]?,
          (s.servers.block conf p.key).content.isSome))
| .serve _ _ | .answer _ _ _ _ | .nothing _ _ _ =>
    isTrue trivial
| .readDeadline _ | .readTimer _ _ _ | .send _ => isTrue trivial
| .response _ _ | .commit _ _ _ => isTrue trivial
| .deadline _ | .timer _ => isTrue trivial

/-
  The content of a block is changed by a message that
  executes, and by a prepare that finds no block.
-/
theorem content_of_step
    (h : step conf formatTime s c e = some (s', c'))
    (hFound : Found conf s c e)
    (hOther : ∀ w i, e ≠ .commit w i true)
    (k : BlockKey) :
    (s'.servers.block conf k).content =
      (s.servers.block conf k).content := by
  cases stepped_of_step h with
  | serve | answer | readDeadline | send | deadline => rfl
  | lastAnswer _ _ _ _ hCall => rw [servers_of_call hCall]
  | nothing _ _ _ hCall => rw [servers_of_call hCall]
  | readTimer _ _ hCall =>
      rw [servers_of_call hCall]
      rfl
  | timer => rfl
  | @response w i writing type =>
      cases writing.session.coordinator.outcome type <;> rfl
  | @prepare w i writing p quick resp servers hWrite hPiece _
      hRequest =>
      have hCreated := Block.created_of_isSome
        (hFound writing hWrite p hPiece)
      cases quick with
      | true =>
          rw [(Cluster.request_prepareQuick hRequest).2 k]
          split
          · rename_i hKey
            rw [hKey, hCreated]
            rfl
          · rfl
      | false =>
          rw [(Cluster.request_prepare hRequest).2 k]
          split
          · rename_i hKey
            rw [hKey, hCreated]
            split
            · rfl
            · rfl
          · rfl
  | @commit w i agree writing p resp servers _ _ _ hRequest =>
      cases agree with
      | true => exact absurd rfl (hOther w i)
      | false =>
          rw [Cluster.request_commit hRequest k]
          split
          · rfl
          · rfl

end Chain

end Slfs
