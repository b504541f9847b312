import Slfs.DataFunction.BlockStore
import Slfs.DataFunction.Metadata

/-
  Requests that are run to completion, one after another.

  The reads of a request see one state of the servers, all
  its prepares are answered, and the second round is delivered
  in full. The messages of a round arrive in any order.

  Main declarations:
    * `Store.perform`
    * `Store.startTwoPcPrepare_of_noPending`
-/

----------
-- Rounds Of A Commit
----------

namespace Slfs

/- The order in which the messages of a round arrive. -/
structure Arrival where
  order : Nat → List Nat
  perm : ∀ n, (order n).Perm (List.range n)

/- In the order in which they were sent. -/
def Arrival.inOrder : Arrival :=
  { order := List.range, perm := fun _ => List.Perm.refl _ }

/- Version number and arrivals of a two-phase commit. -/
structure Schedule where
  version : Version
  prepares : Arrival
  responses : Arrival
  commits : Arrival

def Schedule.inOrder (version : Version) : Schedule :=
  { version := version
    prepares := .inOrder
    responses := .inOrder
    commits := .inOrder }

namespace Coordinator

/- All requests are out. -/
def sendAll (k : Nat) : Coordinator :=
  Nat.iterate send k start

/- Handle the answers in some order. -/
def onResponses
    (kind : PrepareKind)
    (c : Coordinator)
    (types : List MsgT)
    (order : List Nat) :
    Coordinator :=
  order.foldl
    (fun c i => c.onResponse kind (types.getD i .err)) c

end Coordinator

namespace Cluster

variable (conf : StorageConf) (pieces : List Piece)
variable (version : Version)

/- The prepares reach their servers, which answer. -/
def prepareRound (quick : Uuid → Bool) :
    List Nat → Cluster → Option (List MsgT × Cluster)
| [], c => some ([], c)
| i :: rest, c => do
    let p ← pieces[i]?
    let (resp, c) ← c.request conf
      (p.prepareRequest (quick p.uuid) version)
    let (types, c) ← prepareRound quick rest c
    some (resp.header.type :: types, c)

/- The messages of the second round reach their servers. -/
def commitRound (agree : Bool) :
    List Nat → Cluster → Option Cluster
| [], c => some c
| i :: rest, c => do
    let p ← pieces[i]?
    let (_, c) ← c.request conf
      (p.commitRequest agree version)
    commitRound agree rest c

end Cluster

/- The servers, and what one data function remembers. -/
structure Store where
  servers : Cluster
  recoder : Uuid → Bool

namespace Store

def empty : Store :=
  { servers := Cluster.empty, recoder := fun _ => false }

/- `mark_checked` and `erase_checked`. -/
def setChecked
    (s : Store)
    (uuids : List Uuid)
    (checked : Bool) :
    Store :=
  { s with
    recoder := fun uuid =>
      if uuid ∈ uuids then checked else s.recoder uuid }

/-
  A two-phase commit from the first prepare to the last
  message of the second round, with the calls of `next`. A
  write without blocks waits for the deadline.
-/
def startTwoPcPrepare
    (conf : StorageConf)
    (schedule : Schedule)
    (writes : Writes)
    (s : Store) :
    Option (List Bytes × Store) := do
  let pieces := Cluster.piecesOf conf writes.2
  let k := pieces.length
  let (types, servers) ←
    Cluster.prepareRound conf pieces schedule.version s.recoder
      (schedule.prepares.order k) s.servers
  let c :=
    (Coordinator.sendAll k).onResponses writes.1 types
      (schedule.responses.order k)
  let uuids := writes.2.map Input.uuid
  match c.commits with
  | [] =>
      some (c.onDeadline.onTimer.replies,
        { s with servers := servers }.setChecked uuids false)
  | agree :: _ => do
      let servers ←
        Cluster.commitRound conf pieces schedule.version agree
          (schedule.commits.order k) servers
      some (c.replies,
        { s with servers := servers }.setChecked uuids agree)

end Store

----------
-- A Commit Without Pending Logs
----------

namespace Coordinator

@[simp] theorem sendAll_outstandingRequests
    (k : Nat) :
    (sendAll k).outstandingRequests = k := by
  induction k with
  | zero => rfl
  | succ k ih =>
      unfold sendAll at ih ⊢
      rw [Function.iterate_succ_apply']
      simp only [send, ih]
      omega

/- Sending touches nothing but the counters. -/
theorem sendAll_rest
    (k : Nat) :
    (sendAll k).allSsbdAgree = true ∧
      (sendAll k).replies = [] ∧
      (sendAll k).commits = [] := by
  induction k with
  | zero => exact ⟨rfl, rfl, rfl⟩
  | succ k ih =>
      unfold sendAll at ih ⊢
      rw [Function.iterate_succ_apply']
      exact ih

/- When all answers agree, the last one commits the write. -/
theorem onResponses_of_agree
    (kind : PrepareKind)
    {types : List MsgT}
    {order : List Nat}
    {c : Coordinator}
    (hTypes : ∀ i ∈ order,
      types.getD i .err = .twoPcPrepareAgree)
    (hOrder : order ≠ [])
    (hCount : c.outstandingRequests = order.length)
    (hAgree : c.allSsbdAgree = true) :
    (c.onResponses kind types order).replies =
        c.replies ++ [okReply] ∧
      (c.onResponses kind types order).commits =
        c.commits ++ [true] := by
  induction order generalizing c with
  | nil => exact absurd rfl hOrder
  | cons i rest ih =>
      have hType := hTypes i List.mem_cons_self
      have hAgreed : c.agreed .twoPcPrepareAgree = true := by
        simp [agreed, hAgree]
      have hStep :
          c.onResponses kind types (i :: rest) =
            (c.onResponse kind .twoPcPrepareAgree).onResponses
              kind types rest := by
        unfold onResponses
        rw [List.foldl_cons, hType]
      rw [hStep]
      cases rest with
      | nil =>
          have hOne : c.outstandingRequests = 1 := by
            simpa using hCount
          rw [onResponse_of_eq hOne, hAgreed]
          exact ⟨rfl, rfl⟩
      | cons j rest =>
          have hNe : c.outstandingRequests ≠ 1 := by
            simp only [List.length_cons] at hCount
            omega
          rw [onResponse_of_ne hNe]
          refine ih
            (fun k hk => hTypes k (List.mem_cons_of_mem _ hk))
            (List.cons_ne_nil _ _) ?_ hAgreed
          simp only [List.length_cons] at hCount ⊢
          omega

end Coordinator

end Slfs

namespace Slfs

namespace Cluster

variable (conf : StorageConf) {pieces : List Piece}
variable (version : Version) (quick : Uuid → Bool)

/- The prepare of piece `i`, as a message of the write. -/
def prepareDelivery
    (pieces : List Piece)
    (quick : Uuid → Bool)
    (i : Nat) :
    Delivery :=
  .prepare i ((pieces[i]?.map (fun p => quick p.uuid)).getD
    false)

variable {c : Cluster} {order : List Nat}

/-
  On a block with nothing pending every prepare agrees, and
  it leaves the other blocks alone.
-/
theorem request_prepare_agree
    {conf : StorageConf}
    {p : Piece}
    {version : Version}
    {quick : Bool}
    {c' : Cluster}
    {resp : Packet}
    (hPending : (c.block conf p.key).havePending = false)
    (hRequest :
      c.request conf (p.prepareRequest quick version) =
        some (resp, c')) :
    resp.header.type = .twoPcPrepareAgree ∧
      ∀ l, l ≠ p.key → c'.block conf l = c.block conf l := by
  have hFree := Block.havePending_created hPending
  cases quick with
  | true =>
      have hSpec := request_prepareQuick hRequest
      exact ⟨hSpec.1, fun l hl => by
        rw [hSpec.2 l, if_neg hl]⟩
  | false =>
      have hSpec := request_prepare hRequest
      rw [hFree] at hSpec
      exact ⟨hSpec.1, fun l hl => by
        rw [hSpec.2 l, if_neg hl]⟩

/- A round of prepares on blocks with nothing pending. -/
theorem prepareRound_of_noPending
    (hNodup : (pieces.map Piece.key).Nodup)
    (hShort : ∀ p ∈ pieces, p.data.length ≤ 2 ^ 16)
    (hOrder : order.Nodup)
    (hIndex : ∀ i ∈ order, i < pieces.length)
    (hPending : ∀ i ∈ order, ∀ p, pieces[i]? = some p →
      (c.block conf p.key).havePending = false) :
    ∃ c',
      prepareRound conf pieces version quick order c =
          some (List.replicate order.length
            .twoPcPrepareAgree, c') ∧
        Transition.run (deliver conf pieces version) c
          (order.map (prepareDelivery pieces quick)) =
            some c' := by
  induction order generalizing c with
  | nil => exact ⟨c, rfl, rfl⟩
  | cons i rest ih =>
      have hLt := hIndex i List.mem_cons_self
      have hPiece := List.getElem?_eq_getElem hLt
      rcases request_isSome conf c
        (pieces[i].prepareRequest_ne_get (quick pieces[i].uuid)
          version)
        (fun _ => pieces[i].prepareRequest_fits _ version
          (hShort _ (List.getElem_mem hLt))) with
        ⟨resp, m, hRequest⟩
      have hType := request_prepare_agree
        (hPending i List.mem_cons_self _ hPiece) hRequest
      -- the other pieces are on other blocks
      have hRest : ∀ j ∈ rest, ∀ p, pieces[j]? = some p →
          (m.block conf p.key).havePending = false := by
        intro j hj p hp
        have hNe : p.key ≠ pieces[i].key := by
          intro hEq
          have hSame :=
            Table.index_eq_of_key hNodup hPiece hp hEq
          exact (List.nodup_cons.mp hOrder).1 (hSame ▸ hj)
        rw [hType.2 _ hNe]
        exact hPending j (List.mem_cons_of_mem _ hj) p hp
      rcases ih (List.nodup_cons.mp hOrder).2
        (fun j hj => hIndex j (List.mem_cons_of_mem _ hj))
        hRest with
        ⟨c', hRound, hRun⟩
      have hStep : c.deliver conf pieces version
          (prepareDelivery pieces quick i) = some m := by
        simp [deliver, prepareDelivery, Delivery.index,
          Delivery.packet, hPiece, hRequest]
      refine ⟨c', ?_, ?_⟩
      · simp only [prepareRound, hPiece, hRequest, hRound,
          Option.bind_eq_bind, Option.bind_some, hType.1,
          List.length_cons, List.replicate_succ]
      · exact Transition.run_cons.mpr ⟨m, hStep, hRun⟩

/- A second round that commits. -/
theorem commitRound_execute
    (hIndex : ∀ i ∈ order, i < pieces.length)
    (c : Cluster) :
    ∃ c',
      commitRound conf pieces version true order c = some c' ∧
        Transition.run (deliver conf pieces version) c
          (order.map Delivery.commitExecute) = some c' := by
  induction order generalizing c with
  | nil => exact ⟨c, rfl, rfl⟩
  | cons i rest ih =>
      have hLt := hIndex i List.mem_cons_self
      have hPiece := List.getElem?_eq_getElem hLt
      rcases request_isSome conf c
        (pieces[i].commitRequest_ne_get true version)
        (fun hCarries => by cases hCarries) with
        ⟨resp, m, hRequest⟩
      have hStep : c.deliver conf pieces version
          (.commitExecute i) = some m := by
        simp [deliver, Delivery.index, Delivery.packet, hPiece,
          hRequest]
      rcases ih
        (fun j hj => hIndex j (List.mem_cons_of_mem _ hj)) m with
        ⟨c', hRound, hRun⟩
      refine ⟨c', ?_, ?_⟩
      · simp only [commitRound, hPiece, hRequest,
          Option.bind_eq_bind, Option.bind_some, hRound]
      · exact Transition.run_cons.mpr ⟨m, hStep, hRun⟩

/- A message of each piece, in any order. -/
theorem filter_map_of_perm
    {n i : Nat}
    (hOrder : order.Perm (List.range n))
    (hi : i < n)
    (f : Nat → Delivery)
    (hIndex : ∀ j, (f j).index = j) :
    (order.map f).filter (fun d => d.index = i) = [f i] := by
  have hOnce : order.count i = 1 :=
    List.count_eq_one_of_mem
      (hOrder.nodup_iff.mpr List.nodup_range)
      (hOrder.symm.subset (List.mem_range.mpr hi))
  have hSingle : order.filter (fun j => j = i) = [i] := by
    rw [List.filter_eq, hOnce]
    rfl
  rw [List.filter_map]
  simp only [Function.comp_def, hIndex, hSingle, List.map_cons,
    List.map_nil]

/- Prepares in any order, and then commits in any order. -/
theorem scheduled_of_perm
    {prepares commits : List Nat}
    (hPrepares : prepares.Perm (List.range pieces.length))
    (hCommits : commits.Perm (List.range pieces.length)) :
    Scheduled pieces
      (prepares.map (prepareDelivery pieces quick) ++
        commits.map Delivery.commitExecute) := by
  refine ⟨?_, ?_⟩
  · intro d hd
    rcases List.mem_append.mp hd with hd | hd
    · rcases List.mem_map.mp hd with ⟨i, hi, hEq⟩
      rw [← hEq]
      exact List.mem_range.mp (hPrepares.subset hi)
    · rcases List.mem_map.mp hd with ⟨i, hi, hEq⟩
      rw [← hEq]
      exact List.mem_range.mp (hCommits.subset hi)
  · intro i hi
    refine ⟨(pieces[i]?.map (fun p => quick p.uuid)).getD false,
      ?_⟩
    rw [List.filter_append,
      filter_map_of_perm hPrepares hi _ (fun _ => rfl),
      filter_map_of_perm hCommits hi _ (fun _ => rfl)]
    rfl

end Cluster

namespace Store

open Coordinator (okReply)

variable {conf : StorageConf}

/-
  With nothing pending a write is answered `OK` and all of it
  is committed.
-/
theorem startTwoPcPrepare_of_noPending
    (schedule : Schedule)
    (writes : Writes)
    {s : Store}
    (hPending : s.servers.NoPending conf)
    (hNodup :
      ((Cluster.piecesOf conf writes.2).map Piece.key).Nodup)
    (hNe : Cluster.piecesOf conf writes.2 ≠ []) :
    ∃ s',
      s.startTwoPcPrepare conf schedule writes =
          some ([okReply], s') ∧
        Cluster.Wrote conf (Cluster.piecesOf conf writes.2)
          s.servers s'.servers := by
  have hPrepares := schedule.prepares.perm
    (Cluster.piecesOf conf writes.2).length
  have hResponses := schedule.responses.perm
    (Cluster.piecesOf conf writes.2).length
  have hCommits := schedule.commits.perm
    (Cluster.piecesOf conf writes.2).length
  have hPos := List.length_pos_iff.mpr hNe
  rcases Cluster.prepareRound_of_noPending conf
    schedule.version s.recoder hNodup
    (fun _ => Cluster.length_of_mem_piecesOf)
    (hPrepares.nodup_iff.mpr List.nodup_range)
    (fun i hi => List.mem_range.mp (hPrepares.subset hi))
    (fun _ _ p _ => hPending p.key) with
    ⟨c₁, hRound, hRun₁⟩
  rcases Cluster.commitRound_execute conf schedule.version
    (fun i hi => List.mem_range.mp (hCommits.subset hi)) c₁ with
    ⟨c₂, hCommit, hRun₂⟩
  -- the coordinator sees nothing but agreement
  have hTypes : ∀ i ∈ schedule.responses.order
      (Cluster.piecesOf conf writes.2).length,
      (List.replicate (schedule.prepares.order
        (Cluster.piecesOf conf writes.2).length).length
          MsgT.twoPcPrepareAgree).getD i .err =
        .twoPcPrepareAgree := by
    intro i hi
    have hLt := List.mem_range.mp (hResponses.subset hi)
    rw [hPrepares.length_eq, List.length_range]
    simp [List.getD_eq_getElem?_getD, hLt]
  have hLength := hResponses.length_eq
  rw [List.length_range] at hLength
  have hRest := Coordinator.sendAll_rest
    (Cluster.piecesOf conf writes.2).length
  have hDone := Coordinator.onResponses_of_agree
    writes.1 hTypes
    (List.ne_nil_of_length_pos (by rw [hLength]; exact hPos))
    (by rw [hLength, Coordinator.sendAll_outstandingRequests])
    hRest.1
  rw [hRest.2.1, hRest.2.2] at hDone
  have hWrote : Cluster.Wrote conf
      (Cluster.piecesOf conf writes.2) s.servers c₂ :=
    Cluster.wrote_of_scheduled hNodup hPending
      (Cluster.scheduled_of_perm s.recoder hPrepares hCommits)
      (Transition.run_append.mpr ⟨c₁, hRun₁, hRun₂⟩)
  refine ⟨{ s with servers := c₂ }.setChecked
    (writes.2.map Input.uuid) true, ?_, hWrote⟩
  unfold startTwoPcPrepare
  simp only [hRound, Option.bind_eq_bind, Option.bind_some,
    hDone.1, hDone.2, List.nil_append, hCommit]

end Store

----------
-- Operations
----------

/-
  Read a directory until its handler does something else than
  reading again. The fuel bounds the number of reads.
-/
def Cluster.fetch
    {α : Type}
    (conf : StorageConf)
    (c : Cluster)
    (uuid : Uuid)
    (readnext : Bytes → Next α) :
    (fuel readsize : Nat) → Option (Next α)
| 0, _ => none
| fuel + 1, readsize =>
    match c.readBytes conf uuid 0 readsize with
    | none => some (.act .undefined)
    | some content =>
        match readnext content with
        | .reread size => c.fetch conf uuid readnext fuel size
        | next => some next

namespace Store

open DataFunction
open Jsre

variable (conf : StorageConf) (fuel : Nat)

/- What the handler of a directory asked for. -/
def finish
    (schedule : Schedule)
    (uuid : Uuid)
    (s : Store) :
    Next Writes → Option (List Bytes × Store)
| .noSuchDirectory =>
    some ([DataFunction.noSuchDirectory],
      s.setChecked [uuid] false)
| .reread _ => none
| .act (.reply buf) => some ([buf], s)
| .act .undefined => none
| .act (.go writes) =>
    s.startTwoPcPrepare conf schedule writes

/- An operation on the directory of a request. -/
def perform
    (schedule : Schedule)
    (uuid : Uuid)
    (readnext : Bytes → Next Writes)
    (s : Store) :
    Option (List Bytes × Store) := do
  let next ← s.servers.fetch conf uuid readnext fuel readsize
  s.finish conf schedule uuid next

/-
  A renaming reads the source directory, the destination if
  it is another one, and the file.
-/
def renameFile
    (schedule : Schedule)
    (input : Request)
    (s : Store) :
    Option (List Bytes × Store) := do
  let info ← RenameInfo.parse input.data
  let next ← s.servers.fetch conf info.fileParentKey
    (startMetaRenameFile input info) fuel readsize
  match next with
  | .noSuchDirectory =>
      some ([DataFunction.noSuchDirectory],
        s.setChecked [info.fileParentKey] false)
  | .reread _ => none
  | .act (.reply buf) => some ([buf], s)
  | .act .undefined => none
  | .act (.go (source, r)) => do
      let buf ← s.servers.readBytes conf input.fileKey 0
        r.fileSize.toNat
      if sameParentDir input info then
        s.startTwoPcPrepare conf schedule (.multiInputs,
          [⟨info.fileParentKey, 0, source⟩,
            ⟨info.newFileKey, 0, buf⟩])
      else
        let next ← s.servers.fetch conf input.uuid
          (startMetaRenamePart2 info r) fuel readsize
        match next with
        | .noSuchDirectory =>
            some ([RenameSubOperation.directoryNotFound.text],
              s.setChecked [input.uuid] false)
        | .act (.go (.error e)) => some ([e.text], s)
        | .act (.go (.ok destination)) =>
            s.startTwoPcPrepare conf schedule (.multiInputs,
              [⟨info.fileParentKey, 0, source⟩,
                ⟨input.uuid, 0, destination⟩,
                ⟨info.newFileKey, 0, buf⟩])
        | _ => none

end Store

/- `meta_operation_t`. -/
inductive MetaOperation where
| init
| addfile
| ls
| mkdir
| deletefile
| renameSameproxy
| addfileWrite
| open
| close
| getstatfile
| getstatdir
| lock
| unlock
deriving DecidableEq, Repr

/- `operation_t`. -/
inductive Operation where
| write
| read
deriving DecidableEq, Repr

/- A metadata request or a file request. -/
inductive Work where
| metadata (op : MetaOperation)
| file (op : Operation)
deriving DecidableEq, Repr

namespace Store

open DataFunction
open Jsre

variable (conf : StorageConf)
variable (formatTime : UInt64 → Bytes) (fuel : Nat)
variable (amb : Ambient) (schedule : Schedule)

/- A metadata request, with the calls of `next`. -/
def startPerformMetadata
    (op : MetaOperation)
    (input : Request)
    (s : Store) :
    Option (List Bytes × Store) :=
  let directory := s.perform conf fuel schedule input.uuid
  match op with
  | .init =>
      s.startTwoPcPrepare conf schedule (startMetaInit amb input)
  | .addfile => directory (startMetaAddFile amb input)
  | .ls => directory (startMetaLs formatTime)
  | .mkdir => directory (startMetaMkdir amb input)
  | .deletefile => directory (startMetaDeleteFile input)
  | .renameSameproxy => s.renameFile conf fuel schedule input
  | .addfileWrite =>
      directory (startCreateAndWriteFileSingleRequest amb input)
  | .open => directory (startMetaOpenFile input)
  | .close => some ([], s)
  | .getstatfile =>
      directory (startMetaGetStat formatTime false input)
  | .getstatdir =>
      directory (startMetaGetStat formatTime true input)
  | .lock | .unlock => some ([], s)

/- A file request, with the calls of `next`. -/
def startPerform
    (op : Operation)
    (input : Request)
    (s : Store) :
    Option (List Bytes × Store) :=
  match op with
  | .write =>
      s.perform conf fuel schedule input.uuid
        (startWrite conf amb input)
  | .read =>
      (s.servers.readBytes conf input.fileKey
        input.position.toNat input.size.toNat).map
        (fun buf => ([buf], s))

end Store

end Slfs
