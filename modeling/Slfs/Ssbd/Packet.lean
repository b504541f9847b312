import Slfs.Lib.Decimal

/-
  Packets of the block server protocol.

  A packet names a block by the 32-byte key of its file and
  the block's number in the file, and a window of the block
  by a position and a size. Header fields are numbers that
  `createRequest` cuts to the width of the field.

  Main declarations:
    * `Packet.createRequest`
    * `BlockKey.name_injective`
-/

----------
-- Packets
----------

namespace Slfs

abbrev Bytes := List UInt8

/- A 256-bit file or directory key. -/
abbrev Uuid := Vector UInt8 32

/- Membership of texts and of keys is decided with these. -/
instance : LawfulBEq Bytes := inferInstance
instance : LawfulBEq Uuid := inferInstance

/- Version number of a write. -/
abbrev Version := UInt32

/- Message types of the block server protocol. -/
inductive MsgT where
| err
| ack
| get
| twoPcPrepare
| twoPcPrepareQuick
| twoPcPrepareAgree
| twoPcPrepareAbort
| twoPcCommitExecute
| twoPcCommitRollback
| twoPcCommitAck
| replication
deriving DecidableEq, Repr

/- A block: the key of a file and a block number. -/
structure BlockKey where
  uuid : Uuid
  blockid : Nat
deriving DecidableEq, Repr

/- Header of a packet, without the salt that pairs answers. -/
structure PacketHeader where
  type : MsgT
  uuid : Uuid
  blockid : Nat
  position : Nat
  datasize : Nat
  version : Version
deriving DecidableEq, Repr

structure Packet where
  header : PacketHeader
  data : Bytes
deriving DecidableEq, Repr

namespace BlockKey

/- Database key of a block. -/
def name (k : BlockKey) : Bytes :=
  k.uuid.toList ++ Decimal.toString k.blockid

end BlockKey

namespace PacketHeader

def key (h : PacketHeader) : BlockKey :=
  { uuid := h.uuid, blockid := h.blockid }

def asString (h : PacketHeader) : Bytes :=
  h.uuid.toList ++ Decimal.toString h.blockid

end PacketHeader

namespace Packet

/- The header fields are 32, 16 and 32 bits wide. -/
def createRequest
    (uuid : Uuid)
    (type : MsgT)
    (version : Version)
    (partition location size : Nat) :
    Packet :=
  { header :=
      { type := type
        uuid := uuid
        blockid := partition % 2 ^ 32
        position := location % 2 ^ 16
        datasize := size % 2 ^ 32
        version := version }
    data := [] }

/-
  What the other side receives: the size field is set from
  the body, except in a `get`, whose size field asks for the
  number of bytes to read.
-/
def serialize (p : Packet) : Packet :=
  if p.header.type = .get then p
  else
    { p with
      header :=
        { p.header with
          datasize := p.data.length % 2 ^ 32 } }

/- The answer to a packet: its header under another type. -/
def respond (p : Packet) (type : MsgT) (data : Bytes) :
    Packet :=
  { header := { p.header with type := type }
    data := data }

@[simp] theorem respond_type
    (p : Packet) (type : MsgT) (data : Bytes) :
    (p.respond type data).header.type = type := rfl

@[simp] theorem respond_data
    (p : Packet) (type : MsgT) (data : Bytes) :
    (p.respond type data).data = data := rfl

end Packet

----------
-- Database Keys
----------

namespace BlockKey

variable {s : Bytes}

/-
  Block names followed by something that is no digit can be
  told apart: the file key has a fixed length, and the block
  number ends where the digits end.
-/
theorem name_append_inj
    {k l : BlockKey}
    {t : Bytes}
    (hs : Decimal.startsWithDigit s = false)
    (ht : Decimal.startsWithDigit t = false)
    (h : k.name ++ s = l.name ++ t) :
    k = l ∧ s = t := by
  unfold name at h
  rw [List.append_assoc, List.append_assoc] at h
  have hLength :
      k.uuid.toList.length = l.uuid.toList.length := by
    simp
  rcases List.append_inj h hLength with ⟨hUuid, hRest⟩
  rcases Decimal.toString_append_inj hs ht hRest with
    ⟨hBlock, hTail⟩
  refine ⟨?_, hTail⟩
  cases k
  cases l
  simp only [mk.injEq]
  exact ⟨Vector.toList_inj.mp hUuid, hBlock⟩

theorem name_injective
    {k l : BlockKey}
    (h : k.name = l.name) :
    k = l := by
  have hAppend : k.name ++ [] = l.name ++ [] := by
    rw [h]
  exact (name_append_inj rfl rfl hAppend).1

/- A block name with something behind it is no block name. -/
theorem name_ne_append
    (k l : BlockKey)
    (hs : Decimal.startsWithDigit s = false)
    (hSome : s ≠ []) :
    k.name ≠ l.name ++ s := by
  intro h
  have hAppend : k.name ++ [] = l.name ++ s := by
    rw [List.append_nil, h]
  exact hSome (name_append_inj rfl hs hAppend).2.symm

end BlockKey

namespace PacketHeader

@[simp] theorem asString_eq
    (h : PacketHeader) :
    h.asString = h.key.name := rfl

end PacketHeader

end Slfs
