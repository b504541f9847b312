import Slfs.Lib.Chunks
import Slfs.Ssbd.Block

/-
  Block servers as a data function sees them.

  The server of a block is drawn from a random engine that is
  seeded with the file's key, so every data function finds the
  same one and talks to it by packets.

  Main declarations:
    * `Cluster.request`, one packet and its answer
    * `Input.pieces`, the range cut at the block borders
-/

----------
-- Configuration
----------

namespace Slfs

/-
  Backend configuration. Positions inside a block travel in
  a 16-bit field, which bounds the block size. `draw` is the
  number that the engine seeded with a key yields after some
  numbers have been discarded.
-/
structure StorageConf where
  fullsize : Nat
  draw : Uuid → Nat → Nat
  fullsize_pos : 0 < fullsize
  fullsize_le : fullsize ≤ 2 ^ 16

namespace StorageConf

/- The block size that holds unless one is configured. -/
def standard : StorageConf :=
  { fullsize := 4096
    draw := fun _ _ => 0
    fullsize_pos := by decide
    fullsize_le := by decide }

def headersize (_ : StorageConf) : Nat := 0

def blocksize (conf : StorageConf) : Nat :=
  conf.fullsize - conf.headersize

def selectReplica
    (conf : StorageConf)
    (uuid : Uuid)
    (partition replicationIndex : Nat) :
    Nat :=
  conf.draw uuid (partition * (partition * replicationIndex))

/- A configuration with one server and blocks of four bytes. -/
def small : StorageConf :=
  { fullsize := 4
    draw := fun _ _ => 0
    fullsize_pos := by decide
    fullsize_le := by decide }

theorem blocksize_pos
    (conf : StorageConf) :
    0 < conf.blocksize :=
  conf.fullsize_pos

theorem blocksize_le
    (conf : StorageConf) :
    conf.blocksize ≤ 2 ^ 16 :=
  conf.fullsize_le

end StorageConf

----------
-- Servers
----------

/- The servers, by their index in the backend list. -/
abbrev Cluster := Nat → Ssbd

namespace Cluster

variable (conf : StorageConf)

/- Servers that hold nothing yet. -/
def empty : Cluster := fun _ => Ssbd.empty

/- The server that serves a block. -/
def host (k : BlockKey) : Nat :=
  conf.selectReplica k.uuid k.blockid 0

/- A block, as its server holds it. -/
def block (c : Cluster) (k : BlockKey) : Block :=
  (c (host conf k)).block k

/-
  Send a packet to the server of the block that it names.
  The packet is serialized on the way, and so is the answer.
-/
def request (c : Cluster) (pack : Packet) :
    Option (Packet × Cluster) :=
  let index := host conf pack.header.key
  match (c index).startReadHeader pack.serialize with
  | none => none
  | some (resp, server) =>
      some (resp.serialize,
        fun i => if i = index then server else c i)

end Cluster

namespace Packet

@[simp] theorem serialize_key
    (p : Packet) :
    p.serialize.header.key = p.header.key := by
  unfold serialize
  split <;> rfl

@[simp] theorem serialize_type
    (p : Packet) :
    p.serialize.header.type = p.header.type := by
  unfold serialize
  split <;> rfl

@[simp] theorem serialize_data
    (p : Packet) :
    p.serialize.data = p.data := by
  unfold serialize
  split <;> rfl

end Packet

namespace Cluster

variable {conf : StorageConf} {pack resp : Packet}
variable {c c' : Cluster}

/- One server handles a packet. -/
theorem request_cases
    (h : c.request conf pack = some (resp, c')) :
    ∃ answer server,
      (c (host conf pack.header.key)).startReadHeader
          pack.serialize = some (answer, server) ∧
        resp = answer.serialize ∧
        c' = fun i =>
          if i = host conf pack.header.key then server
          else c i := by
  unfold request at h
  simp only at h
  split at h
  · cases h
  · cases h
    exact ⟨_, _, ‹_›, rfl, rfl⟩

/- A packet concerns the block that it names. -/
theorem request_block
    (h : c.request conf pack = some (resp, c'))
    (l : BlockKey) :
    c'.block conf l =
      if l = pack.header.key then
        (c.block conf l).step pack.serialize
      else
        c.block conf l := by
  rcases request_cases h with
    ⟨answer, server, hHandle, _, rfl⟩
  have hBlock := Ssbd.startReadHeader_block hHandle l
  rw [Packet.serialize_key] at hBlock
  unfold block
  by_cases hKey : l = pack.header.key
  · subst hKey
    simpa using hBlock
  · rw [if_neg hKey] at hBlock ⊢
    by_cases hHost : host conf l = host conf pack.header.key
    · simpa [hHost] using hBlock
    · simp [hHost]

/- Answers to two-phase-commit packets. -/
theorem request_type
    (h : c.request conf pack = some (resp, c'))
    (hGet : pack.header.type ≠ .get) :
    resp.header.type =
      (c.block conf pack.header.key).answer pack.serialize := by
  rcases request_cases h with
    ⟨answer, server, hHandle, rfl, _⟩
  have hType := Ssbd.startReadHeader_type hHandle
    (by rw [Packet.serialize_type]; exact hGet)
  rw [Packet.serialize_type, hType, Packet.serialize_key]
  rfl

theorem request_isSome
    (conf : StorageConf)
    (c : Cluster)
    (hGet : pack.header.type ≠ .get)
    (hFits :
      pack.header.type.carries = true → pack.serialize.Fits) :
    ∃ resp c', c.request conf pack = some (resp, c') := by
  have hSome := (Ssbd.startReadHeader_isSome_iff
    (c (host conf pack.header.key)) pack.serialize
    (by rw [Packet.serialize_type]; exact hGet)).mpr
    (fun h => Or.inl (hFits (by rwa [Packet.serialize_type] at h)))
  rcases Option.isSome_iff_exists.mp hSome with
    ⟨⟨resp, server⟩, hHandle⟩
  unfold request
  simp only [hHandle]
  exact ⟨_, _, rfl⟩

end Cluster

----------
-- Inputs And Their Pieces
----------

/- The part of a write that falls into one block. -/
structure Piece where
  uuid : Uuid
  blockid : Nat
  offset : Nat
  data : Bytes
deriving DecidableEq, Repr

namespace Piece

/- The block of a piece, as its packets name it. -/
def key (p : Piece) : BlockKey :=
  { uuid := p.uuid, blockid := p.blockid % 2 ^ 32 }

/- The prepare of a piece, with its bytes as the body. -/
def prepareRequest
    (p : Piece)
    (quick : Bool)
    (version : Version) :
    Packet :=
  { Packet.createRequest p.uuid
      (if quick then .twoPcPrepareQuick else .twoPcPrepare)
      version p.blockid p.offset p.data.length with
    data := p.data }

/- The second message of a piece, which has no body. -/
def commitRequest
    (p : Piece)
    (allSsbdAgree : Bool)
    (version : Version) :
    Packet :=
  Packet.createRequest p.uuid
    (if allSsbdAgree then .twoPcCommitExecute
      else .twoPcCommitRollback)
    version p.blockid p.offset 0

/- What a prepare of the piece makes of the old block. -/
def image (p : Piece) (oldBlock : Bytes) : Bytes :=
  Ssbd.newImage oldBlock (p.prepareRequest false 0).serialize

end Piece

/- A write request for a range of one file. -/
structure Input where
  uuid : Uuid
  position : Nat
  data : Bytes
deriving DecidableEq, Repr

namespace Input

variable (conf : StorageConf)

/- End of the range, in 32 bits. -/
def endpos (input : Input) : Nat :=
  (input.position + input.data.length) % 2 ^ 32

/- The part of the input that goes to one block. -/
def piece (input : Input) (chunk : Chunk) : Piece :=
  { uuid := input.uuid
    blockid := chunk.block
    offset := chunk.offset
    data := (input.data.drop chunk.start).take chunk.size }

/- The pieces that the send loop cuts the range into. -/
def pieces (input : Input) : List Piece :=
  (Chunks.chunks conf.blocksize input.position
    input.endpos).map input.piece

end Input

----------
-- Packets Of A Piece
----------

namespace Piece

@[simp] theorem prepareRequest_key
    (p : Piece)
    (quick : Bool)
    (version : Version) :
    (p.prepareRequest quick version).header.key = p.key := rfl

@[simp] theorem commitRequest_key
    (p : Piece)
    (allSsbdAgree : Bool)
    (version : Version) :
    (p.commitRequest allSsbdAgree version).header.key =
      p.key := rfl

theorem prepareRequest_ne_get
    (p : Piece)
    (quick : Bool)
    (version : Version) :
    (p.prepareRequest quick version).header.type ≠ .get := by
  cases quick <;> simp [prepareRequest, Packet.createRequest]

/- The bytes of a short piece end within 32 bits. -/
theorem prepareRequest_fits
    (p : Piece)
    (quick : Bool)
    (version : Version)
    (hShort : p.data.length ≤ 2 ^ 16) :
    (p.prepareRequest quick version).serialize.Fits := by
  have hOffset : p.offset % 2 ^ 16 < 2 ^ 16 :=
    Nat.mod_lt _ (by decide)
  have hSize := Nat.mod_le p.data.length (2 ^ 32)
  have hBoth :
      p.offset % 2 ^ 16 + p.data.length % 2 ^ 32 < 2 ^ 32 := by
    omega
  cases quick with
  | true => exact hBoth
  | false => exact hBoth

theorem commitRequest_ne_get
    (p : Piece)
    (allSsbdAgree : Bool)
    (version : Version) :
    (p.commitRequest allSsbdAgree version).header.type ≠
      .get := by
  cases allSsbdAgree <;>
    simp [commitRequest, Packet.createRequest]

/- What a plain prepare leaves of its block. -/
theorem step_prepareRequest
    (b : Block)
    (p : Piece)
    (version : Version) :
    b.step (p.prepareRequest false version).serialize =
      if b.created.havePending then b.created
      else b.created.logged (p.image b.bytes) version := rfl

end Piece

namespace Cluster

variable {conf : StorageConf} {c c' : Cluster}
variable {p : Piece} {version : Version} {resp : Packet}

/- A plain prepare at its server. -/
theorem request_prepare
    (h : c.request conf (p.prepareRequest false version) =
      some (resp, c')) :
    (resp.header.type =
        if (c.block conf p.key).created.havePending then
          .twoPcPrepareAbort
        else
          .twoPcPrepareAgree) ∧
      ∀ l, c'.block conf l =
        if l = p.key then
          if (c.block conf l).created.havePending then
            (c.block conf l).created
          else
            (c.block conf l).created.logged
              (p.image (c.block conf l).bytes) version
        else
          c.block conf l :=
  ⟨request_type h (p.prepareRequest_ne_get false version),
    request_block h⟩

/- A quick prepare at its server. -/
theorem request_prepareQuick
    (h : c.request conf (p.prepareRequest true version) =
      some (resp, c')) :
    resp.header.type = .twoPcPrepareAgree ∧
      ∀ l, c'.block conf l =
        if l = p.key then
          (c.block conf l).created.logged
            (p.image (c.block conf l).bytes) version
        else
          c.block conf l :=
  ⟨request_type h (p.prepareRequest_ne_get true version),
    request_block h⟩

/- The second message of a piece at its server. -/
theorem request_commit
    {agree : Bool}
    (h : c.request conf (p.commitRequest agree version) =
      some (resp, c'))
    (l : BlockKey) :
    c'.block conf l =
      if l = p.key then
        if agree then (c.block conf l).executed
        else (c.block conf l).rolledBack
      else
        c.block conf l := by
  have hBlock := request_block h l
  cases agree with
  | true => exact hBlock
  | false => exact hBlock

end Cluster

namespace Input

variable {conf : StorageConf}

/- The blocks of one input are different blocks. -/
theorem nodup_keys
    (input : Input) :
    ((input.pieces conf).map Piece.key).Nodup := by
  have hLast : input.endpos < 2 ^ 32 :=
    Nat.mod_lt _ (by decide)
  unfold pieces
  rw [List.map_map]
  refine List.pairwise_map.mpr ?_
  refine List.Pairwise.imp_of_mem ?_
    (Chunks.pairwise_block_chunks conf.blocksize_pos)
  intro c d hc hd hLt hEq
  have hBlock : ∀ e ∈ Chunks.chunks conf.blocksize
      input.position input.endpos, e.block < 2 ^ 32 := by
    intro e he
    have hFit :=
      Chunks.fits_of_mem_chunks conf.blocksize_pos he
    have hPos := hFit.position
    have hRange := hFit.in_range
    have hSize := hFit.size_pos
    have hMul : e.block ≤ e.block * conf.blocksize :=
      Nat.le_mul_of_pos_right _ conf.blocksize_pos
    omega
  have hMod : c.block % 2 ^ 32 = d.block % 2 ^ 32 :=
    congrArg BlockKey.blockid hEq
  rw [Nat.mod_eq_of_lt (hBlock c hc),
    Nat.mod_eq_of_lt (hBlock d hd)] at hMod
  omega

end Input

end Slfs
