import Slfs.Lib.Wire
import Slfs.Ssbd.Packet

/-
  Packets between the proxy and its workers.

  The proxy and the data function have a serializer each.
  Both are written out here, so that one side can read what
  the other side writes.

  Main declarations:
    * `Pack.Copy`, one of the two serializers
    * `Pack.Copy.packets_round_trip_iff`
-/

----------
-- Packets
----------

namespace Slfs

namespace Pack

/- A header; its type is copied, whatever its code. -/
structure Header where
  type : UInt8
  directCommunication : UInt8
  key : Uuid
  datasize : UInt32
  sequence : Vector UInt8 4
  randomSalt : Vector UInt8 4
deriving DecidableEq, Repr

/- A packet with a body that the size field can describe. -/
structure Packet where
  header : Header
  data : Bytes
  length_lt : data.length < 2 ^ 32

/- Bytes of a header. -/
def bytesize : Nat := 46

/- `serialize` sets the size field. -/
def Packet.resized (p : Packet) : Header :=
  { p.header with datasize := UInt32.ofNat p.data.length }

theorem Packet.datasize_resized
    (p : Packet) :
    p.resized.datasize.toNat = p.data.length :=
  UInt32.toNat_ofNat_of_lt' p.length_lt

----------
-- The Serializer Of The Proxy
----------

namespace Proxy

open Wire (Codec)

def dump (h : Header) : Bytes :=
  Codec.byte.encode h.type ++
    (Codec.byte.encode h.directCommunication ++
      ((Codec.array 32).encode h.key ++
        ((Codec.array 4).encode h.sequence ++
          ((Codec.array 4).encode h.randomSalt ++
            Codec.uint32.encode h.datasize))))

def parse (pos : Bytes) : Option Header := do
  let (type, pos) ← Codec.byte.read pos
  let (directCommunication, pos) ← Codec.byte.read pos
  let (key, pos) ← (Codec.array 32).read pos
  let (sequence, pos) ← (Codec.array 4).read pos
  let (randomSalt, pos) ← (Codec.array 4).read pos
  let (datasize, _) ← Codec.uint32.read pos
  some
    { type := type
      directCommunication := directCommunication
      key := key
      datasize := datasize
      sequence := sequence
      randomSalt := randomSalt }

end Proxy

----------
-- The Serializer Of The Data Function
----------

namespace Function

open Wire (Codec)

def dump (h : Header) : Bytes :=
  Codec.byte.encode h.type ++
    (Codec.byte.encode h.directCommunication ++
      ((Codec.array 32).encode h.key ++
        ((Codec.array 4).encode h.sequence ++
          ((Codec.array 4).encode h.randomSalt ++
            Codec.uint32.encode h.datasize))))

def parse (pos : Bytes) : Option Header := do
  let (type, pos) ← Codec.byte.read pos
  let (directCommunication, pos) ← Codec.byte.read pos
  let (key, pos) ← (Codec.array 32).read pos
  let (sequence, pos) ← (Codec.array 4).read pos
  let (randomSalt, pos) ← (Codec.array 4).read pos
  let (datasize, _) ← Codec.uint32.read pos
  some
    { type := type
      directCommunication := directCommunication
      key := key
      datasize := datasize
      sequence := sequence
      randomSalt := randomSalt }

end Function

----------
-- One Side Reads The Other
----------

/- The two copies of the serializer. -/
inductive Copy where
| proxy
| function
deriving DecidableEq, Repr

namespace Copy

def dump : Copy → Header → Bytes
| .proxy => Proxy.dump
| .function => Function.dump

def parse : Copy → Bytes → Option Header
| .proxy => Proxy.parse
| .function => Function.parse

def serialize (writer : Copy) (p : Packet) : Option Bytes :=
  Wire.join (writer.dump p.resized) p.data

/-
  Parse a packet: the header, and behind it as many bytes as
  its size field says.
-/
def parsePacket (reader : Copy) (bytes : Bytes) :
    Option (Header × Bytes) := do
  let header ← reader.parse bytes
  let (body, _) ←
    Wire.take header.datasize.toNat (bytes.drop bytesize)
  some (header, body)

/- How a copy reads packets from a connection. -/
def frame (reader : Copy) : Wire.Frame Header :=
  { size := bytesize
    parse := reader.parse
    body := fun h => h.datasize.toNat
    size_pos := by decide }

@[simp] theorem length_dump
    (writer : Copy)
    (h : Header) :
    (writer.dump h).length = bytesize := by
  cases writer with
  | proxy =>
      simp only [dump, Proxy.dump, List.length_append,
        Wire.Codec.length_encode]
      rfl
  | function =>
      simp only [dump, Function.dump, List.length_append,
        Wire.Codec.length_encode]
      rfl

/- A header in front of anything. -/
theorem parse_dump_append
    (writer reader : Copy)
    (h : Header)
    (rest : Bytes) :
    reader.parse (writer.dump h ++ rest) = some h := by
  cases writer <;> cases reader <;>
    simp [dump, parse, Proxy.dump, Proxy.parse, Function.dump,
      Function.parse]

theorem parse_dump
    (writer reader : Copy)
    (h : Header) :
    reader.parse (writer.dump h) = some h := by
  have hParse := parse_dump_append writer reader h []
  rwa [List.append_nil] at hParse

/- The header and the body, if the buffer has room for both. -/
theorem serialize_eq_some_iff
    {writer : Copy}
    {p : Packet}
    {bytes : Bytes} :
    writer.serialize p = some bytes ↔
      bytesize + p.data.length < 2 ^ 32 ∧
        writer.dump p.resized ++ p.data = bytes := by
  rw [serialize, Wire.join_eq_some_iff, length_dump]

/- What one copy writes, the other one cuts at the same place. -/
theorem carries_dump
    (writer reader : Copy)
    (p : Packet) :
    reader.frame.Carries (p.resized, p.data)
      (writer.dump p.resized ++ p.data) where
  parse := by
    change reader.parse
      ((writer.dump p.resized ++ p.data).take bytesize) = _
    rw [← writer.length_dump p.resized, List.take_left,
      parse_dump]
  body := by
    change (writer.dump p.resized ++ p.data).drop bytesize = _
    rw [← writer.length_dump p.resized, List.drop_left]
  length := by
    change _ = bytesize + p.resized.datasize.toNat
    rw [List.length_append, length_dump, p.datasize_resized]

theorem parsePacket_dump
    (writer reader : Copy)
    (p : Packet) :
    reader.parsePacket (writer.dump p.resized ++ p.data) =
      some (p.resized, p.data) := by
  have hDrop := (carries_dump writer reader p).body
  change (writer.dump p.resized ++ p.data).drop bytesize =
    p.data at hDrop
  have hBody :
      Wire.take p.resized.datasize.toNat p.data =
        some (p.data, []) := by
    have hTake := Wire.take_append p.datasize_resized.symm []
    rwa [List.append_nil] at hTake
  rw [parsePacket, parse_dump_append, Option.bind_eq_bind,
    Option.bind_some, hDrop, hBody]
  rfl

/-
  Packets of either copy are read by either copy, alone and
  in a stream, as long as header and body together are
  shorter than `2 ^ 32` bytes. Nothing changes but the size
  field, which is set to the length of the body.
-/
theorem packets_round_trip_iff
    (writer reader : Copy) :
    (∀ p : Packet,
      (∃ bytes,
        writer.serialize p = some bytes ∧
          reader.parsePacket bytes =
            some ({ p.header with
              datasize := UInt32.ofNat p.data.length },
              p.data) ∧
          (UInt32.ofNat p.data.length).toNat =
            p.data.length) ↔
        bytesize + p.data.length < 2 ^ 32) ∧
    ∀ packets : List Packet,
      (∃ parts,
        packets.mapM writer.serialize = some parts ∧
          reader.frame.readAll parts.flatten =
            (packets.map
              (fun p =>
                ({ p.header with
                  datasize := UInt32.ofNat p.data.length },
                  p.data)), [])) ↔
        ∀ p ∈ packets, bytesize + p.data.length < 2 ^ 32 := by
  refine ⟨fun p => ⟨?_, fun hFits => ?_⟩,
    fun packets => ⟨?_, fun hFits => ?_⟩⟩
  · rintro ⟨bytes, hWritten, _⟩
    exact (serialize_eq_some_iff.mp hWritten).1
  · exact ⟨_, serialize_eq_some_iff.mpr ⟨hFits, rfl⟩,
      parsePacket_dump writer reader p, p.datasize_resized⟩
  · rintro ⟨parts, hWritten, _⟩ p hp
    cases hOne : writer.serialize p with
    | none =>
        rw [mapM_option_eq_none hp hOne] at hWritten
        cases hWritten
    | some bytes => exact (serialize_eq_some_iff.mp hOne).1
  · apply Wire.Frame.readAll_of_write
    intro p hp
    exact ⟨_, serialize_eq_some_iff.mpr ⟨hFits p hp, rfl⟩,
      carries_dump writer reader p⟩

theorem length_lt_of_long :
    (List.replicate (2 ^ 32 - bytesize) (0 : UInt8)).length <
      2 ^ 32 := by
  rw [List.length_replicate]
  decide

/- A body that the size field can describe. -/
def longPacket : Packet :=
  { header :=
      { type := 0
        directCommunication := 0
        key := Vector.replicate 32 7
        datasize := 0
        sequence := Vector.replicate 4 1
        randomSalt := Vector.replicate 4 1 }
    data := List.replicate (2 ^ 32 - bytesize) 0
    length_lt := length_lt_of_long }

/- The buffer of this packet has no bytes at all. -/
theorem longPacket_not_written :
    longPacket.data.length = 2 ^ 32 - bytesize ∧
      ∀ writer : Copy, writer.serialize longPacket = none := by
  have hLength :
      longPacket.data.length = 2 ^ 32 - bytesize :=
    List.length_replicate
  refine ⟨hLength, fun writer => ?_⟩
  rw [Option.eq_none_iff_forall_ne_some]
  intro bytes hWritten
  have hFits := (serialize_eq_some_iff.mp hWritten).1
  rw [hLength] at hFits
  exact absurd hFits (by decide)

end Copy

end Pack

end Slfs
