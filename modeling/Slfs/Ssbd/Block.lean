import Slfs.Ssbd.Server

/-
  One block of a server, on its own.

  To its clients a server is a family of independent blocks:
  what a message does is determined by the content and the log
  records of the block that it names.

  Main declarations:
    * `Block.step`, the transitions of a block
    * `Ssbd.startReadHeader_block`
-/

----------
-- Transitions Of A Block
----------

namespace Slfs

/- Messages with bytes for a block. -/
def MsgT.carries : MsgT → Bool
| .twoPcPrepare | .twoPcPrepareQuick | .replication => true
| _ => false

/- The bytes of a packet end within 32 bits. -/
def Packet.Fits (pack : Packet) : Prop :=
  pack.header.position + pack.header.datasize < 2 ^ 32

instance (pack : Packet) : Decidable pack.Fits :=
  inferInstanceAs (Decidable (_ < _))

/- Committed content and log records of a block. -/
structure Block where
  content : Option Bytes
  log : LogEntry
deriving DecidableEq, Repr

namespace Block

def havePending (b : Block) : Bool :=
  b.log.havePending

/- Bytes of the committed content. -/
def bytes (b : Block) : Bytes :=
  b.content.getD []

/- The block that a first prepare finds. -/
def created (b : Block) : Block :=
  match b.content with
  | some _ => b
  | none => { content := some [], log := ⟨0, 0, []⟩ }

/- Log an image under a version. -/
def logged (b : Block) (image : Bytes) (version : Version) :
    Block :=
  { b with
    log := { b.log with pending := version, data := image } }

/- Make the logged image the content. -/
def executed (b : Block) : Block :=
  { content := some b.log.data
    log := { b.log with committed := b.log.pending } }

/- Drop the logged image. -/
def rolledBack (b : Block) : Block :=
  b.logged [] 0

/- Log the image that a packet makes of the content. -/
def prepareQuick (b : Block) (pack : Packet) : Block :=
  b.created.logged (Ssbd.newImage b.bytes pack)
    pack.header.version

def prepare (b : Block) (pack : Packet) : Block :=
  if b.created.havePending then b.created
  else b.prepareQuick pack

/- The answer to a prepare. -/
def prepareAnswer (b : Block) : MsgT :=
  if b.created.havePending then .twoPcPrepareAbort
  else .twoPcPrepareAgree

def read (b : Block) (pack : Packet) : Option Packet :=
  match b.content with
  | none => some (pack.respond .err [])
  | some block =>
      (Ssbd.rawblocksRead block pack.header.position
        pack.header.datasize).map (pack.respond .ack)

/- What a message leaves of the block that it names. -/
def step (b : Block) (pack : Packet) : Block :=
  match pack.header.type with
  | .twoPcPrepare => b.prepare pack
  | .twoPcPrepareQuick => b.prepareQuick pack
  | .twoPcCommitExecute => b.executed
  | .twoPcCommitRollback => b.rolledBack
  | _ => b

/- The type of the answer to a message. -/
def answer (b : Block) (pack : Packet) : MsgT :=
  match pack.header.type with
  | .twoPcPrepare => b.prepareAnswer
  | .twoPcPrepareQuick => .twoPcPrepareAgree
  | .twoPcCommitExecute => .twoPcCommitAck
  | .twoPcCommitRollback => .twoPcCommitAck
  | .replication => .ack
  | _ => .err

@[simp] theorem created_content
    (b : Block) :
    b.created.content = some b.bytes := by
  unfold created bytes
  split <;> simp_all

/- Creating a block leaves nothing pending. -/
theorem havePending_created
    {b : Block}
    (h : b.havePending = false) :
    b.created.havePending = false := by
  unfold created
  cases b.content with
  | none => rfl
  | some bytes => exact h

theorem created_of_isSome
    {b : Block}
    (h : b.content.isSome) :
    b.created = b := by
  rcases Option.isSome_iff_exists.mp h with ⟨bytes, hBytes⟩
  simp [created, hBytes]

@[simp] theorem bytes_created
    (b : Block) :
    b.created.bytes = b.bytes := by
  simp [bytes]

end Block

----------
-- Handlers As Transitions
----------

namespace Ssbd

/- A block of a server. -/
def block (s : Ssbd) (k : BlockKey) : Block :=
  { content := s.db k.name
    log := PersistentLog.entry s.log k }

/- A server state with only the log of a block replaced. -/
theorem block_putPendingPrepare
    (s : Ssbd)
    (k l : BlockKey)
    (image : Bytes)
    (version : Version) :
    ({ s with
        log := PersistentLog.putPendingPrepare s.log k.name
          image version } : Ssbd).block l =
      if l = k then (s.block l).logged image version
      else s.block l := by
  simp only [block, PersistentLog.entry_putPendingPrepare]
  split <;> rfl

theorem block_createMissing
    (s : Ssbd)
    (k l : BlockKey) :
    (s.createMissing k.name).block l =
      if l = k then (s.block l).created else s.block l := by
  unfold createMissing
  cases hContent : s.db k.name with
  | some old =>
      by_cases hKey : l = k
      · subst hKey
        simp [block, Block.created, hContent]
      · simp [hKey]
  | none =>
      simp only [block, PersistentLog.entry_putPendingPrepare,
        PersistentLog.entry_putCommittedVersion]
      by_cases hKey : l = k
      · subst hKey
        simp [Block.created, hContent]
      · have hName : l.name ≠ k.name := fun h =>
          hKey (BlockKey.name_injective h)
        simp [hKey, Db.put_of_ne _ _ hName]

/- After the check for a missing block there is a content. -/
theorem db_createMissing
    (s : Ssbd)
    (k : BlockKey) :
    (s.createMissing k.name).db k.name =
      some (s.block k).bytes := by
  have hBlock := block_createMissing s k k
  rw [if_pos rfl] at hBlock
  have hContent := congrArg Block.content hBlock
  rw [Block.created_content] at hContent
  exact hContent

/- Reading versions is invisible in the blocks. -/
theorem block_congr_log
    (s : Ssbd)
    {log log' : Db}
    (h : PersistentLog.entry log = PersistentLog.entry log') :
    ({ s with log := log } : Ssbd).block =
      ({ s with log := log' } : Ssbd).block := by
  funext l
  simp [block, h]

/- Logging after the check for a missing block. -/
theorem block_logged_createMissing
    (s : Ssbd)
    (k l : BlockKey)
    (image : Bytes)
    (version : Version) :
    ({ s.createMissing k.name with
        log := PersistentLog.putPendingPrepare
          (s.createMissing k.name).log k.name
          image version } : Ssbd).block l =
      if l = k then (s.block l).created.logged image version
      else s.block l := by
  rw [block_putPendingPrepare, block_createMissing]
  by_cases hKey : l = k
  · simp [hKey]
  · simp [hKey]

/- An image that is defined is the one of the packet. -/
theorem newBlock_eq_some
    {oldBlock image : Bytes}
    {pack : Packet}
    (h : newBlock oldBlock pack = some image) :
    image = newImage oldBlock pack := by
  unfold newBlock at h
  split at h
  · exact (Option.some.inj h).symm
  · cases h

section

variable {s s' : Ssbd} {pack resp : Packet}

theorem startTwoPcPrepareQuick_block
    (h : s.startTwoPcPrepareQuick pack = some (resp, s'))
    (l : BlockKey) :
    s'.block l =
      if l = pack.header.key then
        (s.block l).prepareQuick pack
      else
        s.block l := by
  simp only [startTwoPcPrepareQuick, PacketHeader.asString_eq,
    db_createMissing] at h
  rcases Option.bind_eq_some_iff.mp h with ⟨_, hImage, hEq⟩
  cases hEq
  cases newBlock_eq_some hImage
  rw [block_congr_log _
      (PersistentLog.entry_getCommittedVersion _ _),
    block_logged_createMissing]
  by_cases hKey : l = pack.header.key
  · subst hKey
    simp [Block.prepareQuick]
  · simp [hKey]

/- The pending check of a prepare. -/
theorem havePendingLog_createMissing
    (s : Ssbd)
    (k : BlockKey) :
    (PersistentLog.havePendingLog
        (s.createMissing k.name).log k.name).1 =
      (s.block k).created.havePending := by
  have hCreated := block_createMissing s k k
  rw [if_pos rfl] at hCreated
  rw [← hCreated]
  simp [block, Block.havePending]

theorem startTwoPcPrepare_type
    (h : s.startTwoPcPrepare pack = some (resp, s')) :
    resp.header.type =
      (s.block pack.header.key).prepareAnswer := by
  simp only [startTwoPcPrepare, PacketHeader.asString_eq,
    db_createMissing, havePendingLog_createMissing] at h
  unfold Block.prepareAnswer
  split at h
  · cases h
    rw [if_pos ‹_›]
    rfl
  · rcases Option.bind_eq_some_iff.mp h with ⟨_, _, hEq⟩
    cases hEq
    rw [if_neg ‹_›]
    rfl

theorem startTwoPcPrepare_block
    (h : s.startTwoPcPrepare pack = some (resp, s'))
    (l : BlockKey) :
    s'.block l =
      if l = pack.header.key then (s.block l).prepare pack
      else s.block l := by
  simp only [startTwoPcPrepare, PacketHeader.asString_eq,
    db_createMissing, havePendingLog_createMissing] at h
  by_cases hPending :
      (s.block pack.header.key).created.havePending = true
  · -- an aborted prepare leaves the block as it was created
    rw [if_pos hPending] at h
    cases h
    rw [block_congr_log (s.createMissing pack.header.key.name),
      block_createMissing]
    · by_cases hKey : l = pack.header.key
      · subst hKey
        simp [Block.prepare, hPending]
      · simp [hKey]
    · simp
  · rw [if_neg hPending] at h
    rcases Option.bind_eq_some_iff.mp h with
      ⟨image, hImage, hEq⟩
    cases hEq
    have hSame :
        PersistentLog.entry
            (PersistentLog.getCommittedVersion
              (PersistentLog.putPendingPrepare
                (PersistentLog.havePendingLog
                  (s.createMissing pack.header.key.name).log
                  pack.header.key.name).2
                pack.header.key.name image pack.header.version)
              pack.header.key.name).2 =
          PersistentLog.entry
            (PersistentLog.putPendingPrepare
              (s.createMissing pack.header.key.name).log
              pack.header.key.name image
              pack.header.version) := by
      funext k
      simp [PersistentLog.entry_putPendingPrepare]
    cases newBlock_eq_some hImage
    rw [block_congr_log _ hSame, block_logged_createMissing]
    by_cases hKey : l = pack.header.key
    · subst hKey
      simp [Block.prepare, Block.prepareQuick, hPending]
    · simp [hKey]

end

theorem startTwoPcCommitExecute_block
    (s : Ssbd)
    (pack : Packet)
    (l : BlockKey) :
    (s.startTwoPcCommitExecute pack).2.block l =
      if l = pack.header.key then (s.block l).executed
      else s.block l := by
  unfold startTwoPcCommitExecute
  simp only [PersistentLog.commitPendingPrepare, block,
    PacketHeader.asString_eq,
    PersistentLog.entry_putCommittedVersion,
    PersistentLog.entry_getPendingPrepareVersion]
  by_cases hKey : l = pack.header.key
  · subst hKey
    simp [Block.executed]
  · have hName : l.name ≠ pack.header.key.name := fun h =>
      hKey (BlockKey.name_injective h)
    simp [hKey, Db.put_of_ne _ _ hName]

theorem startTwoPcCommitRollback_block
    (s : Ssbd)
    (pack : Packet)
    (l : BlockKey) :
    (s.startTwoPcCommitRollback pack).2.block l =
      if l = pack.header.key then (s.block l).rolledBack
      else s.block l :=
  block_putPendingPrepare s pack.header.key l [] 0

/- Replicas are stored beside the blocks. -/
theorem block_put_repl
    (s : Ssbd)
    (k l : BlockKey)
    (bytes : Bytes) :
    ({ s with
        db := s.db.put (k.name ++ Decimal.ascii "repl")
          bytes } : Ssbd).block l = s.block l := by
  have hName : l.name ≠ k.name ++ Decimal.ascii "repl" :=
    BlockKey.name_ne_append _ _ rfl (by decide)
  simp [block, Db.put_of_ne _ _ hName]

theorem startReplication_block
    {s s' : Ssbd}
    {pack resp : Packet}
    (h : s.startReplication pack = some (resp, s'))
    (l : BlockKey) :
    s'.block l = s.block l := by
  rcases Option.bind_eq_some_iff.mp h with ⟨_, _, hEq⟩
  cases hEq
  exact block_put_repl s pack.header.key l _

----------
-- The Server As A Family Of Blocks
----------

/- Reads are determined by the block. -/
theorem startDbRead_spec
    (s : Ssbd)
    (pack : Packet) :
    s.startDbRead pack =
      (s.block pack.header.key).read pack := rfl

variable {pack : Packet} {position : Nat}

/-
  Every message takes the block that it names through one
  transition and leaves the other blocks alone.
-/
theorem startReadHeader_block
    {s s' : Ssbd}
    {resp : Packet}
    (h : s.startReadHeader pack = some (resp, s'))
    (l : BlockKey) :
    s'.block l =
      if l = pack.header.key then (s.block l).step pack
      else s.block l := by
  unfold startReadHeader at h
  cases hType : pack.header.type with
  | get =>
      simp only [hType, Option.map_eq_some_iff] at h
      rcases h with ⟨_, _, hEq⟩
      cases hEq
      simp [Block.step, hType]
  | twoPcPrepare =>
      simp only [hType] at h
      simp [startTwoPcPrepare_block h, Block.step, hType]
  | twoPcPrepareQuick =>
      simp only [hType] at h
      simp [startTwoPcPrepareQuick_block h, Block.step, hType]
  | twoPcCommitExecute =>
      simp only [hType, Option.some.injEq] at h
      obtain rfl : _ = s' := congrArg Prod.snd h
      simp [startTwoPcCommitExecute_block, Block.step, hType]
  | twoPcCommitRollback =>
      simp only [hType, Option.some.injEq] at h
      obtain rfl : _ = s' := congrArg Prod.snd h
      simp [startTwoPcCommitRollback_block, Block.step,
        hType]
  | replication =>
      simp only [hType] at h
      simp [startReplication_block h, Block.step, hType]
  | _ =>
      simp only [hType, Option.some.injEq, Prod.mk.injEq] at h
      simp [← h.2, Block.step, hType]

/- The answer is determined by the block as well. -/
theorem startReadHeader_type
    {s s' : Ssbd}
    {resp : Packet}
    (h : s.startReadHeader pack = some (resp, s'))
    (hGet : pack.header.type ≠ .get) :
    resp.header.type =
      (s.block pack.header.key).answer pack := by
  unfold startReadHeader at h
  cases hType : pack.header.type with
  | get => exact absurd hType hGet
  | twoPcPrepare =>
      simp only [hType] at h
      simp [startTwoPcPrepare_type h, Block.answer, hType]
  | twoPcPrepareQuick =>
      simp only [hType, startTwoPcPrepareQuick,
        PacketHeader.asString_eq, db_createMissing] at h
      rcases Option.bind_eq_some_iff.mp h with ⟨_, _, hEq⟩
      cases hEq
      simp [Block.answer, hType]
  | twoPcCommitExecute =>
      simp only [hType, Option.some.injEq] at h
      obtain rfl : _ = resp := congrArg Prod.fst h
      simp [startTwoPcCommitExecute, Block.answer, hType]
  | twoPcCommitRollback =>
      simp only [hType, Option.some.injEq] at h
      obtain rfl : _ = resp := congrArg Prod.fst h
      simp [startTwoPcCommitRollback, Block.answer, hType]
  | replication =>
      simp only [hType] at h
      rcases Option.bind_eq_some_iff.mp h with ⟨_, _, hEq⟩
      cases hEq
      simp [Block.answer, hType]
  | _ =>
      simp only [hType, Option.some.injEq, Prod.mk.injEq] at h
      simp [← h.1, Block.answer, hType]

/-
  Reads can leave the block's memory, and so can bytes whose
  end wraps, unless they are refused.
-/
theorem startReadHeader_isSome_iff
    (s : Ssbd)
    (pack : Packet)
    (hGet : pack.header.type ≠ .get) :
    (s.startReadHeader pack).isSome ↔
      (pack.header.type.carries = true →
        pack.Fits ∨
          pack.header.type = .twoPcPrepare ∧
            (s.block pack.header.key).created.havePending =
              true) := by
  have hImage : ∀ oldBlock,
      newBlock oldBlock pack =
        if pack.Fits then some (newImage oldBlock pack)
        else none := fun _ => rfl
  unfold startReadHeader
  cases hType : pack.header.type with
  | get => exact absurd hType hGet
  | twoPcPrepare =>
      simp only [startTwoPcPrepare, PacketHeader.asString_eq,
        db_createMissing, havePendingLog_createMissing, hImage]
      by_cases hPending :
          (s.block pack.header.key).created.havePending = true
      · simp [hPending]
      · by_cases hFits : pack.Fits <;>
          simp [hFits, hPending, MsgT.carries]
  | twoPcPrepareQuick =>
      simp only [startTwoPcPrepareQuick,
        PacketHeader.asString_eq, db_createMissing, hImage]
      by_cases hFits : pack.Fits <;> simp [hFits, MsgT.carries]
  | replication =>
      simp only [startReplication, hImage]
      by_cases hFits : pack.Fits <;> simp [hFits, MsgT.carries]
  | _ => simp [MsgT.carries]

----------
-- Bytes Of A Block
----------

/- A read inside the block returns a window of it. -/
theorem rawblocksRead_eq
    {block : Bytes}
    (size : Nat)
    (h : position ≤ block.length) :
    rawblocksRead block position size =
      some (Buffer.window block position size) := by
  have hNot : ¬ block.length < position := by omega
  unfold rawblocksRead
  rw [if_neg hNot]
  refine congrArg some ?_
  have hCount :
      ((block.drop position).take
        (min (block.length - position) size)).length =
        min (block.length - position) size := by
    simp only [List.length_take, List.length_drop]
    omega
  have hFits :
      0 + ((block.drop position).take
        (min (block.length - position) size)).length ≤
        (List.replicate size (0 : UInt8)).length := by
    rw [hCount, List.length_replicate]
    omega
  apply Buffer.ext_nth
  · rw [Buffer.length_copyInto hFits]
    simp
  · intro i _
    rw [Buffer.nth_copyInto hFits, hCount, Buffer.nth_window,
      Buffer.nth_take, Buffer.nth_drop]
    have hZero :
        Buffer.nth (List.replicate size (0 : UInt8)) i =
          default :=
      Buffer.nth_replicate size i
    rw [hZero]
    by_cases hi : i < min (block.length - position) size
    · have hSize : i < size := by omega
      simp [hi, hSize]
    · by_cases hSize : i < size
      · have hOut : block.length ≤ position + i := by omega
        simp [hi, hSize, Buffer.nth_of_length_le hOut]
      · simp [hi, hSize]

/- A read answers as many bytes as it was asked for. -/
theorem length_of_rawblocksRead
    {block data : Bytes}
    {size : Nat}
    (h : rawblocksRead block position size = some data) :
    data.length = size := by
  by_cases hOut : block.length < position
  · rw [rawblocksRead, if_pos hOut] at h
    cases h
  · rw [rawblocksRead_eq size (Nat.le_of_not_lt hOut)] at h
    cases h
    exact Buffer.length_window _ _ _

/- Prepares lay their bytes over the old block. -/
theorem newImage_eq
    (oldBlock : Bytes)
    (hSize : pack.header.datasize = pack.data.length) :
    newImage oldBlock pack =
      Buffer.overlay oldBlock pack.header.position
        pack.data := by
  unfold newImage Buffer.overlay
  rw [hSize]

end Ssbd

----------
-- Runs Of A Server
----------

namespace Block

/- The whole answer to a message. -/
def reply (b : Block) (pack : Packet) : Option Packet :=
  if pack.header.type = .get then b.read pack
  else some (pack.respond (b.answer pack) [])

/- Answers to messages, one after another. -/
def serve (b : Block) :
    List Packet → Option (List Packet × Block)
| [] => some ([], b)
| pack :: packs => do
    let resp ← b.reply pack
    let (resps, b) ← (b.step pack).serve packs
    some (resp :: resps, b)

theorem key_of_reply
    {b : Block}
    {pack resp : Packet}
    (h : b.reply pack = some resp) :
    resp.header.key = pack.header.key := by
  unfold reply at h
  split at h
  · unfold read at h
    split at h
    · cases h
      rfl
    · rcases Option.map_eq_some_iff.mp h with ⟨_, _, rfl⟩
      rfl
  · cases h
    rfl

end Block

namespace Ssbd

def serve (s : Ssbd) :
    List Packet → Option (List Packet × Ssbd)
| [] => some ([], s)
| pack :: packs => do
    let (resp, s) ← s.startReadHeader pack
    let (resps, s) ← s.serve packs
    some (resp :: resps, s)

variable {s s' : Ssbd}

/- All answers but those to reads are without a body. -/
theorem startReadHeader_reply
    {pack resp : Packet}
    (h : s.startReadHeader pack = some (resp, s')) :
    (s.block pack.header.key).reply pack = some resp := by
  unfold Block.reply
  by_cases hGet : pack.header.type = .get
  · rw [if_pos hGet]
    simp only [startReadHeader, hGet] at h
    rcases Option.map_eq_some_iff.mp h with ⟨_, hRead, hEq⟩
    cases hEq
    exact hRead
  · rw [if_neg hGet, ← startReadHeader_type h hGet]
    have hBody :
        resp = pack.respond resp.header.type [] := by
      unfold startReadHeader startTwoPcPrepare
        startTwoPcPrepareQuick startTwoPcCommitExecute
        startTwoPcCommitRollback startReplication newBlock at h
      grind [Packet.respond, Option.bind_eq_bind]
    rw [← hBody]

/-
  A server is a family of independent blocks. Whatever the
  messages to other blocks, those that name a block are
  answered as the block answers them on its own.
-/
theorem serve_block
    (s : Ssbd)
    (packs resps : List Packet)
    (s' : Ssbd)
    (hServe : s.serve packs = some (resps, s'))
    (k : BlockKey) :
    (s.block k).serve
        (packs.filter (fun pack => pack.header.key = k)) =
      some (resps.filter (fun resp => resp.header.key = k),
        s'.block k) := by
  induction packs generalizing s resps with
  | nil =>
      cases hServe
      rfl
  | cons pack packs ih =>
      simp only [serve, Option.bind_eq_bind,
        Option.bind_eq_some_iff] at hServe
      rcases hServe with
        ⟨⟨resp, m⟩, hFirst, ⟨rest, _⟩, hRest, hEq⟩
      cases hEq
      have hReply := startReadHeader_reply hFirst
      have hBlock := startReadHeader_block hFirst k
      have hKey := Block.key_of_reply hReply
      have hTail := ih m rest hRest
      rw [hBlock] at hTail
      by_cases hNamed : pack.header.key = k
      · subst hNamed
        rw [if_pos rfl] at hTail
        simp [Block.serve, hReply, hKey, hTail]
      · rw [if_neg (fun h => hNamed h.symm)] at hTail
        simp [hKey, hNamed, hTail]

/- Two blocks are prepared, and one of them is read. -/
def twoBlocks : List Packet :=
  [.createRequest (Vector.replicate 32 7) .twoPcPrepare 1 0 0 0,
    .createRequest (Vector.replicate 32 7) .twoPcPrepare 2 1 0 0,
    .createRequest (Vector.replicate 32 7) .get 0 0 0 1]

theorem serve_block_of_twoBlocks :
    ∃ resps s', empty.serve twoBlocks = some (resps, s') ∧
      (empty.block ⟨Vector.replicate 32 7, 0⟩).serve
          (twoBlocks.filter (fun pack =>
            pack.header.key = ⟨Vector.replicate 32 7, 0⟩)) =
        some (resps.filter (fun resp =>
            resp.header.key = ⟨Vector.replicate 32 7, 0⟩),
          s'.block ⟨Vector.replicate 32 7, 0⟩) :=
  ⟨_, _, rfl, serve_block empty twoBlocks _ _ rfl _⟩

end Ssbd

end Slfs
