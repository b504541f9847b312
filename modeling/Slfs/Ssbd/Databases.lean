import Slfs.Ssbd.AgreedPrepare

/-
  The databases of a server, and reads of what is in them.

  A record is kept under the name of its block with a suffix
  for its kind. A read copies from a block that may be shorter
  than the position that is read at.

  Main declarations:
    * `Ssbd.CopiesInside`
    * `Ssbd.reads_inside_iff`
-/

----------
-- Keys Of Records
----------

namespace Slfs

open Transition

namespace Ssbd

/- The records of a block in the main database. -/
inductive DbRecord where
| primary
| replica
deriving DecidableEq, Repr

/- The records of a block in the log. -/
inductive LogRecord where
| committedVersion
| pendingVersion
| pendingData
deriving DecidableEq, Repr

def DbRecord.key (k : BlockKey) : DbRecord → Bytes
| .primary => k.name
| .replica => k.name ++ Decimal.ascii "repl"

def LogRecord.key (k : BlockKey) : LogRecord → Bytes
| .committedVersion => PersistentLog.committedKey k.name
| .pendingVersion => PersistentLog.versionKey k.name
| .pendingData => PersistentLog.dataKey k.name

def DbRecord.suffix : DbRecord → Bytes
| .primary => []
| .replica => Decimal.ascii "repl"

def LogRecord.suffix : LogRecord → Bytes
| .committedVersion => Decimal.ascii "-committed-version"
| .pendingVersion => Decimal.ascii "-version"
| .pendingData => Decimal.ascii "-data"

theorem DbRecord.key_eq (k : BlockKey) (r : DbRecord) :
    r.key k = k.name ++ r.suffix := by
  cases r with
  | primary => exact (List.append_nil _).symm
  | replica => rfl

theorem LogRecord.key_eq (k : BlockKey) (r : LogRecord) :
    r.key k = k.name ++ r.suffix := by
  cases r <;> rfl

/-
  No digit of a block number is taken for the start of a
  suffix, whatever the bytes of the file key are.
-/
theorem name_append_injective
    {ρ : Type}
    {suffix : ρ → Bytes}
    (hDigit :
      ∀ r, Decimal.startsWithDigit (suffix r) = false)
    (hSuffix : Function.Injective suffix) :
    Function.Injective
      (fun p : BlockKey × ρ => p.1.name ++ suffix p.2) := by
  rintro ⟨k, r⟩ ⟨l, t⟩ h
  rcases BlockKey.name_append_inj (hDigit r) (hDigit t) h with
    ⟨hKey, hRest⟩
  exact Prod.ext hKey (hSuffix hRest)

/- Records of different blocks or kinds have different keys. -/
theorem record_keys_injective :
    Function.Injective
        (fun p : BlockKey × DbRecord => p.2.key p.1) ∧
      Function.Injective
        (fun p : BlockKey × LogRecord => p.2.key p.1) := by
  constructor
  · simp only [DbRecord.key_eq]
    apply name_append_injective
    · intro r
      cases r <;> rfl
    · intro r t h
      cases r <;> cases t <;>
        first | rfl | exact absurd h (by decide)
  · simp only [LogRecord.key_eq]
    apply name_append_injective
    · intro r
      cases r <;> rfl
    · intro r t h
      cases r <;> cases t <;>
        first | rfl | exact absurd h (by decide)

----------
-- Lengths Of Blocks
----------

/-
  A message as it is received: the fields have their widths,
  and the body is as long as the size says, or is not sent.
-/
structure Received (pack : Packet) : Prop where
  position : pack.header.position < 2 ^ 16
  datasize : pack.header.datasize < 2 ^ 32
  data : pack.data.length ≤ pack.header.datasize

/- No content and no logged image is as long as this. -/
def Bounded (s : Ssbd) : Prop :=
  ∀ k,
    (s.block k).bytes.length < 2 ^ 33 ∧
      (s.block k).log.data.length < 2 ^ 33

variable {s s' : Ssbd} {pack : Packet}
variable {packs : List Packet}

theorem length_newImage
    (h : Received pack)
    {oldBlock : Bytes}
    (hOld : oldBlock.length < 2 ^ 33) :
    (newImage oldBlock pack).length < 2 ^ 33 := by
  have hPosition := h.position
  have hSize := h.datasize
  have hData := h.data
  unfold newImage Buffer.copyInto
  simp only [List.length_append, List.length_take,
    List.length_drop, Buffer.length_resize]
  omega

theorem bounded_step
    (hBounded : s.Bounded)
    (hPack : Received pack)
    (hStep : s.handle pack = some s') :
    s'.Bounded := by
  intro k
  rcases hBounded k with ⟨hBytes, hData⟩
  rw [handle_block hStep]
  split
  case isFalse => exact ⟨hBytes, hData⟩
  case isTrue =>
    have hImage := length_newImage hPack hBytes
    have hCreated :
        (s.block k).created.log.data.length < 2 ^ 33 := by
      unfold Block.created
      split
      · exact hData
      · decide
    have hQuick :
        ((s.block k).prepareQuick pack).bytes.length <
            2 ^ 33 ∧
          ((s.block k).prepareQuick pack).log.data.length <
            2 ^ 33 := by
      constructor
      · simpa [Block.prepareQuick, Block.logged, Block.bytes]
          using hBytes
      · exact hImage
    unfold Block.step
    split
    · unfold Block.prepare
      split
      · rw [Block.bytes_created]
        exact ⟨hBytes, hCreated⟩
      · exact hQuick
    · exact hQuick
    · exact ⟨hData, hData⟩
    · exact ⟨hBytes, Nat.two_pow_pos 33⟩
    · exact ⟨hBytes, hData⟩

theorem bounded_of_run
    (hPacks : ∀ p ∈ packs, Received p)
    (hRun : run handle empty packs = some s) :
    s.Bounded := by
  refine invariant_of_run
    (I := Bounded) (C := fun _ p => Received p) ?_ ?_ hRun ?_
  · intro s p s' hBounded hPack hStep
    exact bounded_step hBounded hPack hStep
  · intro k
    exact ⟨Nat.two_pow_pos 33, Nat.two_pow_pos 33⟩
  · exact along_of_forall_mem
      (fun p hp _ => hPacks p hp)

----------
-- Reads
----------

/-
  How many bytes `rawblocks::read` copies. The length is
  64 bits wide: behind the end of the block what is left of
  it wraps around.
-/
def copied (block : Bytes) (position size : Nat) : Nat :=
  min ((block.length + 2 ^ 64 - position) % 2 ^ 64) size

/- The bytes that are copied are bytes of the block. -/
def CopiesInside
    (block : Bytes)
    (position size : Nat) : Prop :=
  ∀ i < copied block position size,
    position + i < block.length

instance (block : Bytes) (position size : Nat) :
    Decidable (CopiesInside block position size) := by
  unfold CopiesInside
  infer_instance

theorem copiesInside_iff
    {block : Bytes}
    {position size : Nat}
    (hLength : block.length < 2 ^ 64)
    (hPosition : position < 2 ^ 16)
    (hSize : size < 2 ^ 32) :
    CopiesInside block position size ↔
      position ≤ block.length ∨ size = 0 := by
  unfold CopiesInside copied
  constructor
  · intro hInside
    by_contra hOutside
    have hFirst := hInside 0 (by omega)
    omega
  · intro hCond i hi
    omega

variable {block : Bytes}

theorem rawblocksRead_inside
    {position : Nat}
    (size : Nat)
    (h : position ≤ block.length) :
    rawblocksRead block position size =
      some ((block.drop position ++
        List.replicate size 0).take size) := by
  rw [rawblocksRead_eq size h]
  simp only [Buffer.window, Buffer.resize, List.take_append,
    List.take_take, List.take_replicate, List.length_take,
    List.length_drop, Nat.min_self]
  congr 3
  omega

/-
  After all messages that prepare and commit: a read copies
  from inside of the block exactly if it starts there or has
  no bytes, and if it starts there it is answered with the
  bytes from there on, then zeros.
-/
theorem reads_inside_iff
    (hPacks : ∀ p ∈ packs, Received p)
    (hRun : run handle empty packs = some s)
    (hPack : Received pack)
    (hBlock : s.db pack.header.asString = some block) :
    (CopiesInside block pack.header.position
        pack.header.datasize ↔
      pack.header.position ≤ block.length ∨
        pack.header.datasize = 0) ∧
      (pack.header.position ≤ block.length →
        ∃ data,
          s.startDbRead pack = some (pack.respond .ack data) ∧
            data.length = pack.header.datasize ∧
            data =
              (block.drop pack.header.position ++
                List.replicate pack.header.datasize 0).take
                pack.header.datasize) := by
  have hBounded := (bounded_of_run hPacks hRun
    pack.header.key).1
  have hBytes : (s.block pack.header.key).bytes = block :=
    congrArg (fun content => content.getD []) hBlock
  rw [hBytes] at hBounded
  constructor
  · exact copiesInside_iff (by omega) hPack.position
      hPack.datasize
  · intro hInside
    refine ⟨_, ?_, ?_, rfl⟩
    · rw [startDbRead, hBlock]
      simp only [rawblocksRead_inside _ hInside,
        Option.map_some]
    · simp only [List.length_take, List.length_append,
        List.length_replicate]
      omega

theorem received_samplePacket
    (type : MsgT)
    (version : Version)
    (byte : UInt8) :
    Received (samplePacket type version byte) where
  position := Nat.two_pow_pos 16
  datasize := Nat.one_lt_two_pow (by decide)
  data := Nat.le_refl 1

/- The byte that was committed is read back. -/
theorem reads_inside_committed :
    ∃ s data,
      run handle empty
          [samplePacket .twoPcPrepare 5 1,
            samplePacket .twoPcCommitExecute 5 0] = some s ∧
        s.startDbRead (samplePacket .get 5 0) =
          some ((samplePacket .get 5 0).respond .ack data) ∧
        data = [1] := by
  have hPacks :
      ∀ p ∈ [samplePacket .twoPcPrepare 5 1,
          samplePacket .twoPcCommitExecute 5 0],
        Received p := by
    simp [received_samplePacket]
  rcases (@reads_inside_iff _ _ _ [1] hPacks rfl
      (received_samplePacket .get 5 0) rfl).2 (by decide) with
    ⟨data, hAnswer, _, hData⟩
  exact ⟨_, data, rfl, hAnswer, hData⟩

/-
  The first prepare leaves an empty block. To read its second
  byte copies a byte that it does not have.
-/
theorem read_behind_empty_block :
    ∃ s,
      run handle empty
          [samplePacket .twoPcPrepare 5 1] = some s ∧
        s.db (samplePacket .get 5 0).header.asString = some [] ∧
        ¬ CopiesInside [] 1 1 ∧
        s.startDbRead
            { header :=
                { (samplePacket .get 5 0).header with
                  position := 1 }
              data := [] } = none := by
  refine ⟨_, rfl, ?_, by decide, ?_⟩
  · decide +kernel
  · decide +kernel

end Ssbd

end Slfs
