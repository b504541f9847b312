import Slfs.Lib.Wire
import Slfs.Ssbd.Block

/-
  The block server protocol on a connection.

  A header takes 52 bytes, with its type as it lies in memory
  and the numbers in network order. A server reads a body for
  some types, whatever the size field says, and a client as
  many bytes as the size field says.

  Main declarations:
    * `Ssbd.reader`, how a server reads its requests
    * `WireHeader.parse_dump`
-/

----------
-- Headers
----------

namespace Slfs

namespace MsgT

/- The codes of the types. -/
def code : MsgT → UInt16
| .err => 0b00000000
| .ack => 0b00000001
| .get => 0b00000010
| .twoPcPrepare => 0b00001000
| .twoPcPrepareQuick => 0b00001001
| .twoPcPrepareAgree => 0b00001010
| .twoPcPrepareAbort => 0b00001011
| .twoPcCommitExecute => 0b00001100
| .twoPcCommitRollback => 0b00001101
| .twoPcCommitAck => 0b00001110
| .replication => 0b00001111

def all : List MsgT :=
  [.err, .ack, .get, .twoPcPrepare, .twoPcPrepareQuick,
    .twoPcPrepareAgree, .twoPcPrepareAbort,
    .twoPcCommitExecute, .twoPcCommitRollback,
    .twoPcCommitAck, .replication]

/- A code without a name is of no type that is handled. -/
def ofCode (code : UInt16) : Option MsgT :=
  all.find? (fun type => type.code = code)

theorem ofCode_code
    (type : MsgT) :
    ofCode type.code = some type := by
  cases type <;> rfl

end MsgT

/- A header as it is kept in memory. -/
structure WireHeader where
  type : MsgT
  uuid : Uuid
  blockid : UInt32
  position : UInt16
  datasize : UInt32
  version : Version
  salt : Vector UInt8 4
deriving DecidableEq, Repr

namespace WireHeader

open Wire (Codec)

/- Bytes of a header. -/
def bytesize : Nat := 52

/- The two bytes of a type are in the order of the host. -/
def typeField : Codec UInt16 :=
  Codec.uint16.reversed

def dump (h : WireHeader) : Bytes :=
  typeField.encode h.type.code ++
    ((Codec.array 32).encode h.uuid ++
      (Codec.uint32.encode h.blockid ++
        (Codec.uint16.encode h.position ++
          (Codec.uint32.encode h.datasize ++
            (Codec.uint32.encode h.version ++
              (Codec.array 4).encode h.salt)))))

/- None if the bytes are too few, or of no known type. -/
def parse (pos : Bytes) : Option WireHeader := do
  let (code, pos) ← typeField.read pos
  let type ← MsgT.ofCode code
  let (uuid, pos) ← (Codec.array 32).read pos
  let (blockid, pos) ← Codec.uint32.read pos
  let (position, pos) ← Codec.uint16.read pos
  let (datasize, pos) ← Codec.uint32.read pos
  let (version, pos) ← Codec.uint32.read pos
  let (salt, _) ← (Codec.array 4).read pos
  some
    { type := type
      uuid := uuid
      blockid := blockid
      position := position
      datasize := datasize
      version := version
      salt := salt }

@[simp] theorem length_dump
    (h : WireHeader) :
    h.dump.length = bytesize := by
  simp only [dump, List.length_append, Codec.length_encode]
  rfl

/- Every field survives. -/
theorem parse_dump
    (h : WireHeader) :
    parse h.dump = some h := by
  simp [parse, dump, MsgT.ofCode_code]

/- The header without its salt, as the handlers see it. -/
def header (h : WireHeader) : PacketHeader :=
  { type := h.type
    uuid := h.uuid
    blockid := h.blockid.toNat
    position := h.position.toNat
    datasize := h.datasize.toNat
    version := h.version }

end WireHeader

----------
-- Packets
----------

structure WirePacket where
  header : WireHeader
  data : Bytes
deriving DecidableEq, Repr

namespace WirePacket

def packet (p : WirePacket) : Packet :=
  { header := p.header.header, data := p.data }

/- `create_request`; arguments are cut to the fields. -/
def createRequest
    (uuid : Uuid)
    (type : MsgT)
    (version : Version)
    (partition location size : Nat)
    (salt : Vector UInt8 4) :
    WirePacket :=
  { header :=
      { type := type
        uuid := uuid
        blockid := UInt32.ofNat partition
        position := UInt16.ofNat location
        datasize := UInt32.ofNat size
        version := version
        salt := salt }
    data := [] }

/- The packet after its size field has been set. -/
def resized (p : WirePacket) : WirePacket :=
  { p with
    header :=
      { p.header with datasize := UInt32.ofNat p.data.length } }

def serialize (p : WirePacket) : Option Bytes :=
  Wire.join p.resized.header.dump p.data

def serializeHeader (p : WirePacket) : Bytes :=
  p.header.dump

/- A `get` asks for bytes in its size field. -/
def startSendRequest (p : WirePacket) : Option Bytes :=
  match p.header.type with
  | .get => some p.serializeHeader
  | _ => p.serialize

/- The packet that the other side should read. -/
def sent (p : WirePacket) : WirePacket :=
  if p.header.type = .get then p else p.resized

theorem packet_createRequest
    (uuid : Uuid)
    (type : MsgT)
    (version : Version)
    (partition location size : Nat)
    (salt : Vector UInt8 4) :
    (createRequest uuid type version partition location size
        salt).packet =
      Packet.createRequest uuid type version partition location
        size := by
  simp [packet, createRequest, Packet.createRequest,
    WireHeader.header, UInt32.toNat_ofNat', UInt16.toNat_ofNat']

/- What arrives is what the handlers are given. -/
theorem packet_sent
    (p : WirePacket) :
    p.sent.packet = p.packet.serialize := by
  by_cases hGet : p.header.type = .get
  · have hType : p.packet.header.type = .get := hGet
    rw [sent, if_pos hGet, Packet.serialize, if_pos hType]
  · have hType : ¬ p.packet.header.type = .get := hGet
    rw [sent, if_neg hGet, Packet.serialize, if_neg hType]
    simp [resized, packet, WireHeader.header,
      UInt32.toNat_ofNat']

end WirePacket

----------
-- Readers
----------

namespace WireHeader

/- A reader of headers with bodies of a given size. -/
def frame (body : WireHeader → Nat) : Wire.Frame WireHeader :=
  { size := bytesize
    parse := parse
    body := body
    size_pos := by decide }

variable {body : WireHeader → Nat}

/- A dumped header, and the body that the reader expects. -/
theorem carries_dump
    (h : WireHeader)
    {data : Bytes}
    (hBody : data.length = body h) :
    (frame body).Carries (h, data) (h.dump ++ data) where
  parse := by
    change parse ((h.dump ++ data).take bytesize) = some h
    rw [← h.length_dump, List.take_left, parse_dump]
  body := by
    change (h.dump ++ data).drop bytesize = data
    rw [← h.length_dump, List.drop_left]
  length := by
    rw [List.length_append, length_dump, hBody]
    rfl

end WireHeader

namespace WirePacket

/- A packet as a reader hands it on. -/
def message (p : WirePacket) : WireHeader × Bytes :=
  (p.header, p.data)

variable {body : WireHeader → Nat}

/- A packet that is sent with its body. -/
theorem carries_serialize
    {p : WirePacket}
    (hLength : WireHeader.bytesize + p.data.length < 2 ^ 32)
    (hBody :
      body p.resized.header =
        p.resized.header.datasize.toNat) :
    ∃ bytes,
      p.serialize = some bytes ∧
        (WireHeader.frame body).Carries p.resized.message
          bytes := by
  refine ⟨_, Wire.join_eq_some_iff.mpr ⟨?_, rfl⟩, ?_⟩
  · rw [WireHeader.length_dump]
    exact hLength
  · apply WireHeader.carries_dump
    rw [hBody]
    change p.data.length = (UInt32.ofNat p.data.length).toNat
    rw [UInt32.toNat_ofNat_of_lt'
      (Nat.lt_of_le_of_lt (Nat.le_add_left _ _) hLength)]

end WirePacket

namespace Ssbd

/- The body that a server reads behind a header. -/
def bodySize (h : WireHeader) : Nat :=
  match h.type with
  | .twoPcPrepare => h.datasize.toNat
  | .twoPcPrepareQuick => h.datasize.toNat
  | .twoPcCommitExecute => h.datasize.toNat
  | .replication => h.datasize.toNat
  | .twoPcCommitRollback => 0
  | .get => 0
  | .err => 0
  | .ack => 0
  | .twoPcCommitAck => 0
  | .twoPcPrepareAgree => 0
  | .twoPcPrepareAbort => 0

def reader : Wire.Frame WireHeader :=
  WireHeader.frame bodySize

/-
  The answer to a packet: its header under another type, also
  with its salt, and the body of the answer. There is none if
  the answer cannot be written.
-/
def response (s : Ssbd) (pack : WirePacket) :
    Option WirePacket := do
  let (resp, _) ← s.startReadHeader pack.packet
  let answer : WirePacket :=
    { header := { pack.header with type := resp.header.type }
      data := resp.data }
  let _ ← answer.serialize
  some answer

/- What a server answers, in any of its states. -/
def responses (calls : List (Ssbd × WirePacket)) :
    List WirePacket :=
  calls.filterMap (fun call => call.1.response call.2)

variable {s : Ssbd}

/- An answer was written before it is read. -/
theorem length_of_response
    {pack answer : WirePacket}
    (h : s.response pack = some answer) :
    WireHeader.bytesize + answer.data.length < 2 ^ 32 := by
  rcases Option.bind_eq_some_iff.mp h with ⟨done, _, h⟩
  rcases Option.bind_eq_some_iff.mp h with
    ⟨bytes, hWritten, hEq⟩
  cases hEq
  have hFits := (Wire.join_eq_some_iff.mp hWritten).1
  rwa [WireHeader.length_dump] at hFits

end Ssbd

/- How a client reads the answers. -/
def SsbdBackend.reader : Wire.Frame WireHeader :=
  WireHeader.frame (fun h => h.datasize.toNat)

end Slfs
