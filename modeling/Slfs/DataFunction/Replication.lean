import Mathlib.Data.List.ProdSigma
import Slfs.DataFunction.BlockStore

/-
  Replicas of committed blocks.

  When all commits of a write are acknowledged the data
  function asks further servers for a copy of each block, with
  a request like the prepare, but with nothing in its body.

  Main declarations:
    * `ReplicationConf`
    * `Cluster.replicasEqual_iff`
-/

----------
-- Replication
----------

namespace Slfs

open Transition

/-
  The backend list names every server twice: the second half
  starts at `replicationStartIndex` and is for replicas. The
  engine draws an index of the first half.
-/
structure ReplicationConf extends StorageConf where
  replicationSize : Nat
  replicationStartIndex : Nat
  draw_lt : ∀ uuid n, draw uuid n < replicationStartIndex

namespace ReplicationConf

/- The server behind an index of the backend list. -/
def backend (conf : ReplicationConf) (index : Nat) : Nat :=
  if index < conf.replicationStartIndex then index
  else index - conf.replicationStartIndex

/- The server that is chosen for a replica of a block. -/
def replicaHost
    (conf : ReplicationConf)
    (k : BlockKey)
    (replicaIndex : Nat) : Nat :=
  conf.backend
    (conf.replicationStartIndex +
      conf.selectReplica k.uuid k.blockid replicaIndex)

/- Three copies on one server, in blocks of four bytes. -/
def small : ReplicationConf :=
  { StorageConf.small with
    replicationSize := 3
    replicationStartIndex := 1
    draw_lt := fun _ _ => Nat.zero_lt_one }

end ReplicationConf

namespace Piece

/- The request for a copy, which has no body. -/
def replicationRequest
    (p : Piece)
    (version : Version) : Packet :=
  Packet.createRequest p.uuid .replication version
    p.blockid p.offset p.data.length

end Piece

namespace Ssbd

def replicaKey (k : BlockKey) : Bytes :=
  k.name ++ Decimal.ascii "repl"

/- The copy of a block that a server keeps. -/
def replica (s : Ssbd) (k : BlockKey) : Option Bytes :=
  s.db (replicaKey k)

end Ssbd

/-
  A write with the order in which its messages arrive: the
  prepares and commits, and then the requests for copies, by
  the number of the piece and the index of the replica.
-/
structure Write where
  input : Input
  version : Version
  schedule : List Delivery
  replications : List (Nat × Nat)
deriving DecidableEq, Repr

namespace Cluster

variable (conf : ReplicationConf)

/- Send a packet to a server and wait for the answer. -/
def requestAt
    (c : Cluster)
    (index : Nat)
    (pack : Packet) : Option (Packet × Cluster) :=
  match (c index).startReadHeader pack.serialize with
  | none => none
  | some (resp, server) =>
      some (resp.serialize,
        fun i => if i = index then server else c i)

/- A request for a copy is handled by its server. -/
def startReplication
    (pieces : List Piece)
    (version : Version)
    (c : Cluster)
    (d : Nat × Nat) : Option Cluster :=
  match pieces[d.1]? with
  | none => none
  | some p =>
      (c.requestAt (conf.replicaHost p.key d.2)
        (p.replicationRequest version)).map Prod.snd

/- All messages of a write, one after another. -/
def write (c : Cluster) (w : Write) : Option Cluster := do
  let pieces := w.input.pieces conf.toStorageConf
  let c ← run
    (deliver conf.toStorageConf pieces w.version) c w.schedule
  run
    (startReplication conf pieces w.version) c w.replications

/- Every message of the write is delivered once. -/
def Delivered (w : Write) : Prop :=
  let pieces := w.input.pieces conf.toStorageConf
  Scheduled pieces w.schedule ∧
    w.replications.Perm
      ((List.range pieces.length).product
        (List.range' 1 (conf.replicationSize - 1)))

/- Every block written has its bytes in all its copies. -/
def ReplicasEqual (ws : List Write) (c : Cluster) : Prop :=
  ∀ w ∈ ws, ∀ p ∈ w.input.pieces conf.toStorageConf,
    ∀ replicaIndex, 1 ≤ replicaIndex →
      replicaIndex < conf.replicationSize →
      (c (conf.replicaHost p.key replicaIndex)).replica p.key =
        (c.block conf.toStorageConf p.key).content

end Cluster

----------
-- Copies And Blocks Are Apart
----------

namespace Ssbd

theorem name_ne_replicaKey
    (k l : BlockKey) :
    k.name ≠ replicaKey l :=
  BlockKey.name_ne_append k l rfl (by decide)

theorem replicaKey_inj
    {k l : BlockKey}
    (h : replicaKey k = replicaKey l) :
    k = l :=
  (BlockKey.name_append_inj rfl rfl h).1

theorem replica_createMissing
    (s : Ssbd)
    (k l : BlockKey) :
    (s.createMissing k.name).replica l = s.replica l := by
  unfold createMissing replica
  cases s.db k.name with
  | some old => rfl
  | none =>
      exact Db.put_of_ne _ _ (name_ne_replicaKey k l).symm

/- Only a request for a copy changes a copy. -/
theorem replica_startReadHeader
    {s s' : Ssbd}
    {pack resp : Packet}
    (hType : pack.header.type ≠ .replication)
    (h : s.startReadHeader pack = some (resp, s'))
    (k : BlockKey) :
    s'.replica k = s.replica k := by
  have hCreated := replica_createMissing s pack.header.key k
  unfold startReadHeader at h
  cases hCase : pack.header.type with
  | replication => exact absurd hCase hType
  | get =>
      simp only [hCase, Option.map_eq_some_iff] at h
      rcases h with ⟨_, _, hEq⟩
      cases hEq
      rfl
  | twoPcPrepare =>
      simp only [hCase, startTwoPcPrepare,
        PacketHeader.asString_eq, db_createMissing,
        havePendingLog_createMissing] at h
      rw [← hCreated]
      split at h
      · cases h
        rfl
      · rcases Option.bind_eq_some_iff.mp h with ⟨_, _, hEq⟩
        cases hEq
        rfl
  | twoPcPrepareQuick =>
      simp only [hCase, startTwoPcPrepareQuick,
        PacketHeader.asString_eq, db_createMissing] at h
      rcases Option.bind_eq_some_iff.mp h with ⟨_, _, hEq⟩
      cases hEq
      rw [← hCreated]
      rfl
  | twoPcCommitExecute =>
      simp only [hCase, Option.some.injEq] at h
      obtain rfl : _ = s' := congrArg Prod.snd h
      exact Db.put_of_ne _ _
        (name_ne_replicaKey pack.header.key k).symm
  | twoPcCommitRollback =>
      simp only [hCase, Option.some.injEq] at h
      obtain rfl : _ = s' := congrArg Prod.snd h
      rfl
  | _ =>
      simp only [hCase, Option.some.injEq, Prod.mk.injEq] at h
      rw [h.2]

theorem replica_startReplication
    {s s' : Ssbd}
    {pack resp : Packet}
    (h : s.startReplication pack = some (resp, s'))
    (k : BlockKey) :
    s'.replica k =
      if k = pack.header.key then
        some (newImage ((s.replica k).getD []) pack)
      else s.replica k := by
  rcases Option.bind_eq_some_iff.mp h with ⟨_, hImage, hEq⟩
  cases hEq
  cases newBlock_eq_some hImage
  unfold replica
  by_cases hKey : k = pack.header.key
  · subst hKey
    rw [if_pos rfl]
    exact Db.put_same _ _ _
  · rw [if_neg hKey]
    apply Db.put_of_ne
    intro h
    exact hKey (replicaKey_inj h)

end Ssbd

namespace Piece

theorem replicationRequest_fits
    (p : Piece)
    (version : Version) :
    (p.replicationRequest version).serialize.Fits := by
  have hOffset : p.offset % 2 ^ 16 < 2 ^ 16 :=
    Nat.mod_lt _ (by decide)
  exact (by omega : p.offset % 2 ^ 16 + 0 < 2 ^ 32)

/- Without a body a copy grows to the offset and no further. -/
theorem length_newImage_replicationRequest
    (p : Piece)
    (version : Version)
    (oldBlock : Bytes) :
    (Ssbd.newImage oldBlock
        (p.replicationRequest version).serialize).length =
      max (p.offset % 2 ^ 16) oldBlock.length := by
  have hPosition :
      (p.replicationRequest version).serialize.header.position =
        p.offset % 2 ^ 16 := rfl
  have hDatasize :
      (p.replicationRequest version).serialize.header.datasize =
        0 := rfl
  have hData :
      (p.replicationRequest version).serialize.data = [] := rfl
  have hBound : p.offset % 2 ^ 16 < 2 ^ 16 :=
    Nat.mod_lt _ (by decide)
  unfold Ssbd.newImage
  simp only [hPosition, hDatasize, hData, Nat.add_zero]
  rw [Buffer.length_copyInto, Buffer.length_resize]
  rw [Buffer.length_resize, List.length_nil]
  omega

end Piece

namespace Cluster

variable {conf : ReplicationConf} {c c' : Cluster}
variable {d : Nat × Nat} {input : Input}
variable {ds : List (Nat × Nat)} {w : Write}
variable {ws : List Write}

/- Prepares and commits leave the copies alone. -/
theorem replica_deliver
    {pieces : List Piece}
    {version : Version}
    {d : Delivery}
    (h : c.deliver conf.toStorageConf pieces version d = some c')
    (i : Nat)
    (k : BlockKey) :
    (c' i).replica k = (c i).replica k := by
  unfold deliver at h
  cases hPiece : pieces[d.index]? with
  | none => simp [hPiece] at h
  | some p =>
      simp only [hPiece, Option.map_eq_some_iff] at h
      rcases h with ⟨⟨resp, m⟩, hRequest, hEq⟩
      have hSame : m = c' := hEq
      subst hSame
      rcases request_cases hRequest with
        ⟨answer, server, hHandle, _, rfl⟩
      simp only
      split
      · rename_i hHost
        rw [hHost]
        refine Ssbd.replica_startReadHeader ?_ hHandle k
        rw [Packet.serialize_type]
        cases d with
        | prepare index quick =>
            cases quick <;> exact fun hType => by cases hType
        | commitExecute index => exact fun hType => by cases hType
      · rfl

/- A request for a copy changes one copy and no block. -/
theorem startReplication_effect
    {pieces : List Piece}
    {version : Version}
    (h : c.startReplication conf pieces version d = some c') :
    ∃ p, pieces[d.1]? = some p ∧
      (∀ k, c'.block conf.toStorageConf k =
        c.block conf.toStorageConf k) ∧
      ∀ i k, (c' i).replica k =
        if i = conf.replicaHost p.key d.2 ∧ k = p.key then
          some
            (Ssbd.newImage (((c i).replica k).getD [])
              (p.replicationRequest version).serialize)
        else (c i).replica k := by
  unfold startReplication at h
  cases hPiece : pieces[d.1]? with
  | none => simp [hPiece] at h
  | some p =>
      simp only [hPiece, Option.map_eq_some_iff] at h
      rcases h with ⟨⟨resp, m⟩, hRequest, hEq⟩
      have hSame : m = c' := hEq
      subst hSame
      unfold requestAt at hRequest
      split at hRequest
      · cases hRequest
      · rename_i answer server hServer
        cases hRequest
        refine ⟨p, rfl, ?_, ?_⟩
        · intro k
          unfold block
          simp only
          split
          · rename_i hHost
            rw [hHost, Ssbd.startReplication_block hServer]
          · rfl
        · intro i k
          simp only
          by_cases hHost : i = conf.replicaHost p.key d.2
          · subst hHost
            have hKey :
                (p.replicationRequest
                  version).serialize.header.key = p.key := rfl
            rw [if_pos rfl,
              Ssbd.replica_startReplication hServer, hKey]
            simp
          · simp [hHost]

----------
-- Copies Stay Shorter
----------

variable (conf : ReplicationConf)

/- Length of a block, and of a copy on some server. -/
def size (c : Cluster) (k : BlockKey) : Nat :=
  (c.block conf.toStorageConf k).bytes.length

def replicaSize (c : Cluster) (i : Nat) (k : BlockKey) : Nat :=
  (((c i).replica k).getD []).length

/- A copy is empty or shorter than its block. -/
def Shorter (c : Cluster) : Prop :=
  ∀ i k, c.replicaSize i k = 0 ∨
    c.replicaSize i k < c.size conf k

variable {conf}

theorem shorter_empty : Cluster.empty.Shorter conf := by
  intro i k
  exact Or.inl rfl

/- A write makes its blocks longer than the piece's offset. -/
theorem size_of_wrote
    (hWrote :
      Wrote conf.toStorageConf
        (input.pieces conf.toStorageConf) c c') :
    (∀ k, c.size conf k ≤ c'.size conf k) ∧
      ∀ p ∈ input.pieces conf.toStorageConf,
        p.offset < c'.size conf p.key := by
  have hPiece :
      ∀ p ∈ input.pieces conf.toStorageConf,
        c'.size conf p.key =
          max (p.offset + p.data.length)
            (c.size conf p.key) := by
    intro p hp
    have hFits := Input.fits_of_mem_pieces hp
    have hLe := conf.blocksize_le
    have hContent := hWrote.content p hp
    rw [Piece.image_eq hFits.1 (by omega)] at hContent
    unfold size
    have hBytes :
        (c'.block conf.toStorageConf p.key).bytes =
          Buffer.overlay
            (c.block conf.toStorageConf p.key).bytes
            p.offset p.data := by
      unfold Block.bytes
      rw [hContent]
      rfl
    rw [hBytes, Buffer.length_overlay]
  constructor
  · intro k
    by_cases hMem :
        k ∈ (input.pieces conf.toStorageConf).map Piece.key
    · rcases List.mem_map.mp hMem with ⟨p, hp, hKey⟩
      rw [← hKey, hPiece p hp]
      omega
    · unfold size
      rw [hWrote.frame k hMem]
  · intro p hp
    have hFits := Input.fits_of_mem_pieces hp
    rw [hPiece p hp]
    omega

/- A request for a copy keeps the copies shorter. -/
theorem shorter_startReplication
    {pieces : List Piece}
    {version : Version}
    (hShorter : c.Shorter conf)
    (hOffset : ∀ p ∈ pieces, p.offset < c.size conf p.key)
    (hStep :
      c.startReplication conf pieces version d = some c') :
    c'.Shorter conf := by
  rcases startReplication_effect hStep with
    ⟨p, hPiece, hBlock, hReplica⟩
  intro i k
  have hSize : c'.size conf k = c.size conf k := by
    unfold size
    rw [hBlock]
  unfold replicaSize
  rw [hSize, hReplica i k]
  split
  · rename_i hHere
    have hLess := hOffset p (List.mem_of_getElem? hPiece)
    have hMod : p.offset % 2 ^ 16 ≤ p.offset := Nat.mod_le _ _
    have hOld := hShorter i k
    unfold replicaSize at hOld
    rw [← hHere.2] at hLess
    rw [Option.getD_some,
      Piece.length_newImage_replicationRequest]
    omega
  · exact hShorter i k

/- The copies of a write, once it is committed. -/
theorem run_startReplication
    {pieces : List Piece}
    {version : Version}
    (hShorter : c.Shorter conf)
    (hOffset : ∀ p ∈ pieces, p.offset < c.size conf p.key)
    (hRun :
      run (startReplication conf pieces version)
        c ds = some c') :
    c'.Shorter conf ∧
      ∀ k, c'.block conf.toStorageConf k =
        c.block conf.toStorageConf k := by
  refine invariant_of_any_run
    (I := fun t => Cluster.Shorter conf t ∧
      ∀ k, Cluster.block conf.toStorageConf t k =
        c.block conf.toStorageConf k)
    ?_ ⟨hShorter, fun _ => rfl⟩ hRun
  rintro t d t' ⟨hInv, hSame⟩ hStep
  have hHere :
      ∀ p ∈ pieces, p.offset < Cluster.size conf t p.key := by
    intro p hp
    unfold size
    rw [hSame]
    exact hOffset p hp
  refine ⟨shorter_startReplication hInv hHere hStep, ?_⟩
  rcases startReplication_effect hStep with ⟨p, _, hBlock, _⟩
  intro k
  rw [hBlock, hSame]

theorem shorter_of_deliver
    {pieces : List Piece}
    {version : Version}
    {schedule : List Delivery}
    (hShorter : c.Shorter conf)
    (hSize : ∀ k, c.size conf k ≤ c'.size conf k)
    (hRun :
      run
        (deliver conf.toStorageConf pieces version) c schedule =
        some c') :
    c'.Shorter conf := by
  have hReplica :
      ∀ i k, (c' i).replica k = (c i).replica k := by
    refine invariant_of_any_run
      (I := fun t : Cluster =>
        ∀ i k, (t i).replica k = (c i).replica k)
      ?_ (fun _ _ => rfl) hRun
    intro t d t' hInv hStep i k
    rw [replica_deliver hStep, hInv]
  intro i k
  have hOld := hShorter i k
  have hGrown := hSize k
  unfold replicaSize at hOld ⊢
  rw [hReplica]
  omega

/- Requests for copies always find a server. -/
theorem run_startReplication_isSome
    {pieces : List Piece}
    (version : Version)
    (hIndex : ∀ d ∈ ds, d.1 < pieces.length)
    (c : Cluster) :
    ∃ c',
      run (startReplication conf pieces version)
        c ds = some c' := by
  induction ds generalizing c with
  | nil => exact ⟨c, rfl⟩
  | cons d rest ih =>
      have hLt := hIndex d List.mem_cons_self
      have hPiece := List.getElem?_eq_getElem hLt
      have hStep :
          ∃ m, c.startReplication conf pieces version d =
            some m := by
        have hSome := (Ssbd.startReadHeader_isSome_iff
          (c (conf.replicaHost pieces[d.1].key d.2))
          (pieces[d.1].replicationRequest version).serialize
          (fun hType => by cases hType)).mpr
          (fun _ => Or.inl
            (pieces[d.1].replicationRequest_fits version))
        rcases Option.isSome_iff_exists.mp hSome with
          ⟨_, hServer⟩
        simp [startReplication, hPiece, requestAt, hServer]
      rcases hStep with ⟨m, hStep⟩
      rcases ih (fun e he =>
        hIndex e (List.mem_cons_of_mem _ he)) m with
        ⟨c', hRun⟩
      exact ⟨c', run_cons.mpr ⟨m, hStep, hRun⟩⟩

----------
-- Sequences Of Writes
----------

/- What a sequence of writes leaves of the servers. -/
structure WroteAll
    (conf : ReplicationConf)
    (ws : List Write)
    (c c' : Cluster) : Prop where
  noPending : c'.NoPending conf.toStorageConf
  shorter : c'.Shorter conf
  grown : ∀ k, c.size conf k ≤ c'.size conf k
  written :
    ∀ w ∈ ws, ∀ p ∈ w.input.pieces conf.toStorageConf,
      0 < c'.size conf p.key

variable {conf : ReplicationConf}

theorem write_spec
    (hPending : c.NoPending conf.toStorageConf)
    (hShorter : c.Shorter conf)
    (hDelivered : Delivered conf w) :
    ∃ c', c.write conf w = some c' ∧
      WroteAll conf [w] c c' := by
  rcases run_deliver_isSome w.version
    (fun _ => Input.length_of_mem_pieces) hDelivered.1.1 c with
    ⟨m, hDeliver⟩
  have hWrote :=
    wrote_of_scheduled (Input.nodup_keys _) hPending
      hDelivered.1 hDeliver
  rcases size_of_wrote hWrote with ⟨hGrown, hOffset⟩
  have hMiddle := shorter_of_deliver hShorter hGrown hDeliver
  have hIndex :
      ∀ d ∈ w.replications,
        d.1 < (w.input.pieces conf.toStorageConf).length := by
    intro d hMem
    have hPair := hDelivered.2.mem_iff.mp hMem
    exact List.mem_range.mp (List.mem_product.mp hPair).1
  rcases run_startReplication_isSome w.version hIndex m with
    ⟨c', hReplicate⟩
  rcases run_startReplication hMiddle hOffset hReplicate with
    ⟨hEnd, hBlock⟩
  have hSize : ∀ k, c'.size conf k = m.size conf k := by
    intro k
    unfold size
    rw [hBlock]
  refine ⟨c', ?_, ?_⟩
  · exact Option.bind_eq_some_iff.mpr ⟨m, hDeliver, hReplicate⟩
  · refine
      { noPending := ?_
        shorter := hEnd
        grown := ?_
        written := ?_ }
    · intro k
      rw [hBlock]
      exact hWrote.noPending hPending k
    · intro k
      rw [hSize]
      exact hGrown k
    · intro v hMem p hp
      rw [List.mem_singleton] at hMem
      subst hMem
      have hLess := hOffset p hp
      rw [hSize]
      omega

theorem WroteAll.cons
    {m : Cluster}
    (hFirst : WroteAll conf [w] c m)
    (hRest : WroteAll conf ws m c') :
    WroteAll conf (w :: ws) c c' := by
  refine
    { noPending := hRest.noPending
      shorter := hRest.shorter
      grown := ?_
      written := ?_ }
  · exact fun k =>
      Nat.le_trans (hFirst.grown k) (hRest.grown k)
  · intro v hMem p hp
    rcases List.mem_cons.mp hMem with hEq | hLater
    · subst hEq
      exact Nat.lt_of_lt_of_le
        (hFirst.written v (List.mem_singleton_self v) p hp)
        (hRest.grown p.key)
    · exact hRest.written v hLater p hp

/- Writes one after another, from servers at rest. -/
theorem run_write
    (hDelivered : ∀ w ∈ ws, Delivered conf w)
    (hPending : c.NoPending conf.toStorageConf)
    (hShorter : c.Shorter conf) :
    ∃ c', run (write conf) c ws = some c' ∧
      WroteAll conf ws c c' := by
  induction ws generalizing c with
  | nil =>
      refine ⟨c, rfl, ?_⟩
      exact
        { noPending := hPending
          shorter := hShorter
          grown := fun _ => Nat.le_refl _
          written := fun w hMem => by cases hMem }
  | cons w ws ih =>
      rcases write_spec hPending hShorter
        (hDelivered w List.mem_cons_self) with
        ⟨m, hStep, hFirst⟩
      rcases ih
          (fun v hMem =>
            hDelivered v (List.mem_cons_of_mem w hMem))
          hFirst.noPending hFirst.shorter with
        ⟨c', hRun, hRest⟩
      exact ⟨c', run_cons.mpr ⟨m, hStep, hRun⟩,
        hFirst.cons hRest⟩

/- No copy of a block that was written equals the block. -/
theorem replica_ne_content
    (hAll : WroteAll conf ws c c')
    (hMem : w ∈ ws)
    {p : Piece}
    (hPiece : p ∈ w.input.pieces conf.toStorageConf)
    (i : Nat) :
    (c' i).replica p.key ≠
      (c'.block conf.toStorageConf p.key).content := by
  intro hEq
  have hWritten := hAll.written w hMem p hPiece
  have hShorter := hAll.shorter i p.key
  have hSame : c'.replicaSize i p.key = c'.size conf p.key := by
    unfold replicaSize size Block.bytes
    rw [hEq]
  omega

theorem pieces_eq_nil_iff
    (conf : StorageConf) :
    input.pieces conf = [] ↔ input.endpos ≤ input.position := by
  unfold Input.pieces
  rw [List.map_eq_nil_iff]
  constructor
  · intro hNil
    by_contra hLt
    rcases Chunks.exists_chunk conf.blocksize_pos
        (Nat.le_refl input.position) (Nat.lt_of_not_le hLt) with
      ⟨chunk, hMem, _⟩
    rw [hNil] at hMem
    cases hMem
  · exact fun hLe => Chunks.chunks_of_le hLe

/-
  After writes that are executed one after another, with all
  their messages delivered in any order, the copies equal the
  blocks only if no block was written at all.
-/
theorem replicasEqual_iff
    (conf : ReplicationConf)
    (hSize : 1 < conf.replicationSize)
    (ws : List Write)
    (hDelivered : ∀ w ∈ ws, Delivered conf w) :
    ∃ c, run (write conf) Cluster.empty ws =
        some c ∧
      (ReplicasEqual conf ws c ↔
        ∀ w ∈ ws, w.input.endpos ≤ w.input.position) := by
  rcases run_write hDelivered
      (noPending_empty conf.toStorageConf) shorter_empty with
    ⟨c, hRun, hAll⟩
  refine ⟨c, hRun, ?_⟩
  constructor
  · intro hEqual w hMem
    rw [← pieces_eq_nil_iff conf.toStorageConf]
    apply List.eq_nil_iff_forall_not_mem.mpr
    intro p hPiece
    exact replica_ne_content hAll hMem hPiece _
      (hEqual w hMem p hPiece 1 (Nat.le_refl 1) hSize)
  · intro hNone w hMem p hPiece
    have hNil :=
      (pieces_eq_nil_iff conf.toStorageConf).mpr (hNone w hMem)
    rw [hNil] at hPiece
    cases hPiece

/- A file that is written twice in blocks of four bytes. -/
def sampleWrites : List Write :=
  [{ input := ⟨Vector.replicate 32 7, 2, [1, 2, 3]⟩
     version := 5
     schedule :=
      [.prepare 0 false, .prepare 1 false,
        .commitExecute 1, .commitExecute 0]
     replications := [(1, 2), (0, 1), (0, 2), (1, 1)] },
    { input := ⟨Vector.replicate 32 7, 1, [4]⟩
      version := 6
      schedule := [.prepare 0 true, .commitExecute 0]
      replications := [(0, 1), (0, 2)] }]

instance (conf : ReplicationConf) (w : Write) :
    Decidable (Delivered conf w) := by
  unfold Delivered Scheduled
  infer_instance

theorem replicasEqual_iff_sampleWrites :
    ∃ c,
      run (write ReplicationConf.small)
          Cluster.empty sampleWrites = some c ∧
        (ReplicasEqual ReplicationConf.small sampleWrites c ↔
          ∀ w ∈ sampleWrites,
            w.input.endpos ≤ w.input.position) :=
  replicasEqual_iff ReplicationConf.small (by decide)
    sampleWrites (by decide)

/- The piece of the second write, in the first block. -/
def samplePiece : Piece :=
  { uuid := Vector.replicate 32 7
    blockid := 0
    offset := 1
    data := [4] }

theorem replica_without_bytes :
    ∃ c,
      run (write ReplicationConf.small)
          Cluster.empty sampleWrites = some c ∧
        (c.block StorageConf.small samplePiece.key).content =
          some [0, 4, 1, 2] ∧
        (c (ReplicationConf.small.replicaHost
          samplePiece.key 1)).replica samplePiece.key =
          some [0, 0] ∧
        ¬ ReplicasEqual ReplicationConf.small sampleWrites c := by
  have hEnd :
      (run (write ReplicationConf.small)
        Cluster.empty sampleWrites).map
        (fun c =>
          ((c.block StorageConf.small samplePiece.key).content,
            (c (ReplicationConf.small.replicaHost
              samplePiece.key 1)).replica samplePiece.key)) =
        some (some [0, 4, 1, 2], some [0, 0]) := by
    decide +kernel
  rcases Option.map_eq_some_iff.mp hEnd with ⟨c, hRun, hPair⟩
  rw [Prod.mk.injEq] at hPair
  refine ⟨c, hRun, hPair.1, hPair.2, ?_⟩
  intro hEqual
  have hMem :
      ∃ w ∈ sampleWrites,
        samplePiece ∈
          w.input.pieces
            ReplicationConf.small.toStorageConf := by
    decide
  rcases hMem with ⟨w, hWrite, hPiece⟩
  have hSame :=
    hEqual w hWrite samplePiece hPiece 1 (by decide) (by decide)
  rw [hPair.2] at hSame
  have hOther := hSame.trans hPair.1
  revert hOther
  decide

end Cluster

end Slfs
