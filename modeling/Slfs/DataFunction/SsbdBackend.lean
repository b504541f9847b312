import Slfs.DataFunction.Replication
import Slfs.Ssbd.Wire

/-
  Connections between a coordinator and a block server.

  A coordinator writes its requests on one stream and reads
  the answers from another. Requests that have no body on the
  server's side are sent without one, so both sides stay in
  frame.

  Main declarations:
    * `CoordinatorPacket`
    * `SsbdBackend.streams_stay_in_frame`
-/

----------
-- Requests Of A Coordinator
----------

namespace Slfs

/- The types that a coordinator sends. -/
def MsgT.ofCoordinator : List MsgT :=
  [.get, .twoPcPrepare, .twoPcPrepareQuick,
    .twoPcCommitExecute, .twoPcCommitRollback, .replication]

/-
  A request of a coordinator. Reads and rollbacks have no
  body, and no body is too long for its buffer.
-/
structure CoordinatorPacket extends WirePacket where
  sendable : header.type ∈ MsgT.ofCoordinator
  bodyless :
    header.type = .get ∨ header.type = .twoPcCommitRollback →
      data = []
  length_lt : WireHeader.bytesize + data.length < 2 ^ 32

namespace CoordinatorPacket

open WirePacket (createRequest)

variable {conf : StorageConf}

theorem sendable_prepare (quick : Bool) :
    (if quick then MsgT.twoPcPrepareQuick
      else .twoPcPrepare) ∈ MsgT.ofCoordinator := by
  cases quick <;> decide

theorem bodyless_prepare (quick : Bool) (data : Bytes) :
    (if quick then MsgT.twoPcPrepareQuick
        else .twoPcPrepare) = .get ∨
      (if quick then MsgT.twoPcPrepareQuick
        else .twoPcPrepare) = .twoPcCommitRollback →
      data = [] := by
  cases quick <;> simp

theorem length_lt_of_piece
    {input : Input}
    {p : Piece}
    (hPiece : p ∈ input.pieces conf) :
    WireHeader.bytesize + p.data.length < 2 ^ 32 := by
  have hFits := (Input.fits_of_mem_pieces hPiece).2
  have hBlock : conf.blocksize ≤ 2 ^ 16 :=
    Nat.le_trans (Nat.sub_le _ _) conf.fullsize_le
  unfold WireHeader.bytesize
  omega

theorem length_lt_of_nil :
    WireHeader.bytesize + ([] : Bytes).length < 2 ^ 32 := by
  decide

theorem sendable_commit (allSsbdAgree : Bool) :
    (if allSsbdAgree then MsgT.twoPcCommitExecute
      else .twoPcCommitRollback) ∈ MsgT.ofCoordinator := by
  cases allSsbdAgree <;> decide

theorem sendable_others :
    MsgT.replication ∈ MsgT.ofCoordinator ∧
      MsgT.get ∈ MsgT.ofCoordinator := by
  decide

/- The prepare of a piece of an input. -/
def prepare
    {input : Input}
    {p : Piece}
    (hPiece : p ∈ input.pieces conf)
    (quick : Bool)
    (version : Version)
    (salt : Vector UInt8 4) :
    CoordinatorPacket :=
  { createRequest p.uuid
      (if quick then .twoPcPrepareQuick else .twoPcPrepare)
      version p.blockid p.offset p.data.length salt with
    data := p.data
    sendable := sendable_prepare quick
    bodyless := bodyless_prepare quick p.data
    length_lt := length_lt_of_piece hPiece }

/- The second message of a piece. -/
def commit
    (p : Piece)
    (allSsbdAgree : Bool)
    (version : Version)
    (salt : Vector UInt8 4) :
    CoordinatorPacket :=
  { createRequest p.uuid
      (if allSsbdAgree then .twoPcCommitExecute
        else .twoPcCommitRollback)
      version p.blockid p.offset 0 salt with
    sendable := sendable_commit allSsbdAgree
    bodyless := fun _ => rfl
    length_lt := length_lt_of_nil }

def replication
    (p : Piece)
    (version : Version)
    (salt : Vector UInt8 4) :
    CoordinatorPacket :=
  { createRequest p.uuid .replication version p.blockid
      p.offset p.data.length salt with
    sendable := sendable_others.1
    bodyless := fun _ => rfl
    length_lt := length_lt_of_nil }

def get
    (uuid : Uuid)
    (chunk : Chunk)
    (salt : Vector UInt8 4) :
    CoordinatorPacket :=
  { createRequest uuid .get 0 chunk.block chunk.offset
      chunk.size salt with
    sendable := sendable_others.2
    bodyless := fun _ => rfl
    length_lt := length_lt_of_nil }

/- They are the requests of the send loops. -/
theorem packet_prepare
    {input : Input}
    {p : Piece}
    (hPiece : p ∈ input.pieces conf)
    (quick : Bool)
    (version : Version)
    (salt : Vector UInt8 4) :
    (prepare hPiece quick version salt).packet =
      p.prepareRequest quick version := by
  unfold Piece.prepareRequest
  rw [← WirePacket.packet_createRequest _ _ _ _ _ _ salt]
  rfl

theorem packet_commit
    (p : Piece)
    (allSsbdAgree : Bool)
    (version : Version)
    (salt : Vector UInt8 4) :
    (commit p allSsbdAgree version salt).packet =
      p.commitRequest allSsbdAgree version := by
  unfold Piece.commitRequest
  rw [← WirePacket.packet_createRequest _ _ _ _ _ _ salt]
  rfl

theorem packet_replication
    (p : Piece)
    (version : Version)
    (salt : Vector UInt8 4) :
    (replication p version salt).packet =
      p.replicationRequest version := by
  unfold Piece.replicationRequest
  rw [← WirePacket.packet_createRequest _ _ _ _ _ _ salt]
  rfl

theorem packet_get
    (uuid : Uuid)
    (chunk : Chunk)
    (salt : Vector UInt8 4) :
    (get uuid chunk salt).packet =
      Cluster.readRequest uuid chunk := by
  unfold Cluster.readRequest
  rw [← WirePacket.packet_createRequest _ _ _ _ _ _ salt]
  rfl

----------
-- Both Directions Of A Connection
----------

variable {p : CoordinatorPacket}

/- A read is sent without a body. -/
theorem carries_of_get
    (hType : p.header.type = .get) :
    ∃ bytes,
      p.startSendRequest = some bytes ∧
        Ssbd.reader.Carries p.sent.message bytes := by
  have hNone := p.bodyless (Or.inl hType)
  have hSize :
      ([] : Bytes).length = Ssbd.bodySize p.header := by
    simp [Ssbd.bodySize, hType]
  have hCarries := WireHeader.carries_dump p.header hSize
  rw [List.append_nil] at hCarries
  refine ⟨p.serializeHeader, ?_, ?_⟩
  · simp only [WirePacket.startSendRequest, hType]
  · rw [WirePacket.sent, if_pos hType, WirePacket.message,
      hNone]
    exact hCarries

/- Behind the other headers the server reads the body. -/
theorem carries_of_ne_get
    (hType : p.header.type ≠ .get)
    (hBody :
      Ssbd.bodySize p.resized.header =
        p.resized.header.datasize.toNat) :
    ∃ bytes,
      p.startSendRequest = some bytes ∧
        Ssbd.reader.Carries p.sent.message bytes := by
  have hSend : p.startSendRequest = p.serialize := by
    unfold WirePacket.startSendRequest
    split
    · next hGet => exact absurd hGet hType
    · rfl
  rw [hSend, WirePacket.sent, if_neg hType]
  exact WirePacket.carries_serialize p.length_lt hBody

/- A request is written as the server reads it. -/
theorem carries_startSendRequest
    (p : CoordinatorPacket) :
    ∃ bytes,
      p.startSendRequest = some bytes ∧
        Ssbd.reader.Carries p.sent.message bytes := by
  have hSend := p.sendable
  cases hType : p.header.type with
  | get => exact carries_of_get hType
  | twoPcCommitRollback =>
      -- the server reads no body, and there is none
      have hNone := p.bodyless (Or.inr hType)
      apply carries_of_ne_get
      · rw [hType]
        decide
      · simp [Ssbd.bodySize, WirePacket.resized, hType, hNone]
  | twoPcPrepare | twoPcPrepareQuick | twoPcCommitExecute
  | replication =>
      apply carries_of_ne_get
      · rw [hType]
        decide
      · simp [Ssbd.bodySize, WirePacket.resized, hType]
  | err | ack | twoPcPrepareAgree | twoPcPrepareAbort
  | twoPcCommitAck =>
      rw [hType] at hSend
      exact absurd hSend (by decide)

end CoordinatorPacket

namespace SsbdBackend

/-
  A server reads the requests of a coordinator as they were
  sent, and a coordinator the answers of a server, with every
  field of their headers.
-/
theorem streams_stay_in_frame :
    (∀ requests : List CoordinatorPacket, ∃ parts,
      requests.mapM
          (fun p => p.startSendRequest) = some parts ∧
        Ssbd.reader.readAll parts.flatten =
          (requests.map (fun p => p.sent.message), [])) ∧
    (∀ calls : List (Ssbd × WirePacket), ∃ parts,
      (Ssbd.responses calls).mapM
          WirePacket.serialize = some parts ∧
        reader.readAll parts.flatten =
          ((Ssbd.responses calls).map
            (fun p => p.resized.message), [])) ∧
    ∀ h : WireHeader, WireHeader.parse h.dump = some h := by
  refine ⟨?_, ?_, WireHeader.parse_dump⟩
  · intro requests
    exact Wire.Frame.readAll_of_write
      (fun p _ => p.carries_startSendRequest)
  · intro calls
    apply Wire.Frame.readAll_of_write
    intro p hp
    rcases List.mem_filterMap.mp hp with ⟨call, _, hResponse⟩
    exact WirePacket.carries_serialize
      (Ssbd.length_of_response hResponse) rfl

end SsbdBackend

end Slfs
