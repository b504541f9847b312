import Slfs.Lib.Transition
import Slfs.Ssbd.Block

/-
  What an agreed prepare keeps out.

  Other prepares of the block are refused while the logged
  version is neither zero nor the committed one. Versions are
  cut from the clock and may be either. A quick prepare is
  never refused, and replaces what is logged.

  Main declarations:
    * `Ssbd.handle`
    * `Ssbd.agreed_prepare_locks_iff`
-/

----------
-- Messages After A Prepare
----------

namespace Slfs

open Transition

namespace Ssbd

/- The server after a message. -/
def handle (s : Ssbd) (pack : Packet) : Option Ssbd :=
  (s.startReadHeader pack).map Prod.snd

/- The message ends the transaction of a block. -/
def Settles (k : BlockKey) (pack : Packet) : Prop :=
  pack.header.key = k ∧
    (pack.header.type = .twoPcCommitExecute ∨
      pack.header.type = .twoPcCommitRollback)

/- If the message is a prepare of the block, it is refused. -/
def Refuses (k : BlockKey) (s : Ssbd) (pack : Packet) : Prop :=
  pack.header.key = k → pack.header.type = .twoPcPrepare →
    ∀ resp s', s.startReadHeader pack = some (resp, s') →
      resp.header.type = .twoPcPrepareAbort

/- An image is logged for the block under a version. -/
def Logs
    (k : BlockKey)
    (image : Bytes)
    (version : Version)
    (s : Ssbd) : Prop :=
  (s.block k).log.pending = version ∧
    (s.block k).log.data = image

/-
  While messages are handled, all prepares of the block are
  refused, and the image stays.
-/
def Guards
    (k : BlockKey)
    (image : Bytes)
    (version : Version)
    (s : Ssbd)
    (packs : List Packet) : Prop :=
  Along handle (Refuses k) s packs ∧
    Always handle (Logs k image version) s packs

/-
  A message that does no harm to an image that is logged for
  a block: another prepare, if the version locks the block,
  and a quick prepare that logs the same again.
-/
def Harmless
    (content : Bytes)
    (committed : Version)
    (image : Bytes)
    (version : Version)
    (pack : Packet) : Prop :=
  (pack.header.type = .twoPcPrepare →
      version ≠ 0 ∧ version ≠ committed) ∧
    (pack.header.type = .twoPcPrepareQuick →
      pack.header.version = version ∧
        newImage content pack = image)

----------
-- One Message
----------

/- The content of a block, and its committed version. -/
def Rests
    (k : BlockKey)
    (content : Bytes)
    (committed : Version)
    (s : Ssbd) : Prop :=
  (s.block k).content = some content ∧
    (s.block k).log.committed = committed

variable {k : BlockKey} {content image : Bytes}
variable {committed version : Version} {s s' : Ssbd}
variable {pack : Packet}

theorem handle_block
    (h : s.handle pack = some s')
    (l : BlockKey) :
    s'.block l =
      if l = pack.header.key then (s.block l).step pack
      else s.block l := by
  rcases Option.map_eq_some_iff.mp h with
    ⟨⟨resp, s₁⟩, hRead, hEq⟩
  cases hEq
  exact startReadHeader_block hRead l

/- Whether a logged block refuses prepares. -/
theorem refuses_iff
    (hKey : pack.header.key = k)
    (hType : pack.header.type = .twoPcPrepare)
    (hRests : Rests k content committed s)
    (hLogs : Logs k image version s)
    (hStep : s.handle pack = some s') :
    Refuses k s pack ↔ version ≠ 0 ∧ version ≠ committed := by
  have hCreated : (s.block k).created = s.block k := by
    simp [Block.created, hRests.1]
  have hPending :
      (s.block k).created.havePending =
        !(version == committed || version == 0) := by
    rw [hCreated, Block.havePending, LogEntry.havePending,
      hRests.2, hLogs.1]
  have hNotGet : pack.header.type ≠ .get := by
    rw [hType]
    decide
  constructor
  · intro h
    rcases Option.map_eq_some_iff.mp hStep with
      ⟨⟨resp, s₁⟩, hRead, _⟩
    have hAbort := h hKey hType resp s₁ hRead
    rw [startReadHeader_type hRead hNotGet, hKey, Block.answer,
      hType] at hAbort
    simp only [Block.prepareAnswer, hPending] at hAbort
    by_cases hFree :
        (!(version == committed || version == 0)) = true
    · simpa [and_comm] using hFree
    · simp [hFree] at hAbort
  · intro h _ _ resp s₁ hRead
    rw [startReadHeader_type hRead hNotGet, hKey, Block.answer,
      hType]
    simp only [Block.prepareAnswer, hPending]
    simp [h.1, h.2]

theorem refuses_of_ne
    (h : pack.header.type ≠ .twoPcPrepare) :
    Refuses k s pack :=
  fun _ hType => absurd hType h

/- A block whose image is replaced. -/
theorem step_prepareQuick
    (hRests : Rests k content committed s)
    (hBlock : s'.block k = (s.block k).prepareQuick pack) :
    Rests k content committed s' ∧
      (Logs k image version s' ↔
        pack.header.version = version ∧
          newImage content pack = image) := by
  have hCreated : (s.block k).created = s.block k := by
    simp [Block.created, hRests.1]
  have hBytes : (s.block k).bytes = content := by
    simp [Block.bytes, hRests.1]
  rw [Block.prepareQuick, hCreated, hBytes] at hBlock
  simp only [Rests, Logs, hBlock, Block.logged]
  exact ⟨hRests, trivial⟩

/- A prepare is refused, or replaces the image. -/
theorem step_prepare
    (hRests : Rests k content committed s)
    (hLogs : Logs k image version s)
    (hBlock : s'.block k = (s.block k).prepare pack) :
    Rests k content committed s' ∧
      (version ≠ 0 ∧ version ≠ committed →
        Logs k image version s') := by
  have hCreated : (s.block k).created = s.block k := by
    simp [Block.created, hRests.1]
  rw [Block.prepare, hCreated] at hBlock
  by_cases hPending : (s.block k).havePending = true
  · rw [if_pos hPending] at hBlock
    rw [Rests, Logs, hBlock]
    exact ⟨hRests, fun _ => hLogs⟩
  · rw [if_neg hPending] at hBlock
    have hQuick :
        Rests k content committed s' ∧
          (Logs k image version s' ↔ _) :=
      step_prepareQuick hRests hBlock
    refine ⟨hQuick.1, ?_⟩
    intro hLocks
    refine absurd ?_ hPending
    rw [Block.havePending, LogEntry.havePending, hRests.2,
      hLogs.1]
    simp [hLocks.1, hLocks.2]

/-
  What a message that does not end the transaction does to
  a block with a logged image.
-/
theorem guards_step
    (hRests : Rests k content committed s)
    (hLogs : Logs k image version s)
    (hOpen : ¬ Settles k pack)
    (hStep : s.handle pack = some s') :
    Rests k content committed s' ∧
      ((Refuses k s pack ∧ Logs k image version s') ↔
        (pack.header.key = k →
          Harmless content committed image version pack)) := by
  have hBlock := handle_block hStep k
  by_cases hKey : pack.header.key = k
  · rw [if_pos hKey.symm, Block.step] at hBlock
    cases hType : pack.header.type with
    | twoPcPrepare =>
        simp only [hType] at hBlock
        rcases step_prepare hRests hLogs hBlock with
          ⟨hRest, hKept⟩
        refine ⟨hRest, ?_⟩
        rw [refuses_iff hKey hType hRests hLogs hStep,
          and_iff_left_of_imp hKept]
        simp [Harmless, hType, hKey]
    | twoPcPrepareQuick =>
        simp only [hType] at hBlock
        rcases step_prepareQuick hRests hBlock with
          ⟨hRest, hSame⟩
        have hRefuses : Refuses k s pack :=
          refuses_of_ne (by rw [hType]; decide)
        refine ⟨hRest, ?_⟩
        rw [and_iff_right hRefuses, hSame]
        simp [Harmless, hType, hKey]
    | twoPcCommitExecute =>
        exact absurd ⟨hKey, Or.inl hType⟩ hOpen
    | twoPcCommitRollback =>
        exact absurd ⟨hKey, Or.inr hType⟩ hOpen
    | _ =>
        simp only [hType] at hBlock
        have hRefuses : Refuses k s pack :=
          refuses_of_ne (by rw [hType]; decide)
        rw [Rests, Logs, hBlock]
        refine ⟨hRests, ?_⟩
        simp [Harmless, hType, hRefuses, hLogs.1, hLogs.2]
  · rw [if_neg (fun h => hKey h.symm)] at hBlock
    have hRefuses : Refuses k s pack :=
      fun h => absurd h hKey
    rw [Rests, Logs, hBlock]
    refine ⟨hRests, ?_⟩
    simp [hRefuses, hLogs.1, hLogs.2, hKey]

----------
-- All Messages
----------

theorem guards_iff
    {content image : Bytes}
    {version : Version}
    {packs : List Packet}
    (hRests : Rests k content committed s)
    (hLogs : Logs k image version s)
    (hOpen : ∀ pack ∈ packs, ¬ Settles k pack)
    (hRun : run handle s packs = some s') :
    Guards k image version s packs ↔
      ∀ pack ∈ packs, pack.header.key = k →
        Harmless content committed image version pack := by
  induction packs generalizing s with
  | nil =>
      simp [Guards, Along, Always, hLogs]
  | cons pack packs ih =>
      rw [List.forall_mem_cons] at hOpen
      rcases run_cons.mp hRun with
        ⟨m, hStep, hRest⟩
      rcases guards_step hRests hLogs hOpen.1 hStep with
        ⟨hNext, hFirst⟩
      rw [List.forall_mem_cons, ← hFirst]
      simp only [Guards, Along, Always,
        hStep, hLogs, true_and]
      constructor
      · rintro ⟨⟨hRefuses, hAlong⟩, hAlways⟩
        have hLogged : Logs k image version m := by
          cases packs with
          | nil => exact hAlways
          | cons x packs => exact hAlways.1
        exact ⟨⟨hRefuses, hLogged⟩,
          (ih hNext hLogged hOpen.2 hRest).mp
            ⟨hAlong, hAlways⟩⟩
      · rintro ⟨⟨hRefuses, hLogged⟩, hLater⟩
        rcases (ih hNext hLogged hOpen.2 hRest).mpr hLater with
          ⟨hAlong, hAlways⟩
        exact ⟨⟨hRefuses, hAlong⟩, hAlways⟩

/- The state after a prepare that has been agreed to. -/
theorem rests_of_agree
    {resp : Packet}
    (hType : pack.header.type = .twoPcPrepare)
    (hPrepare : s.startReadHeader pack = some (resp, s'))
    (hAgree : resp.header.type = .twoPcPrepareAgree) :
    Rests pack.header.key (s.block pack.header.key).bytes
        (s.block pack.header.key).created.log.committed s' ∧
      Logs pack.header.key
        (newImage (s.block pack.header.key).bytes pack)
        pack.header.version s' := by
  have hNotGet : pack.header.type ≠ .get := by
    rw [hType]
    decide
  have hBlock := startReadHeader_block hPrepare pack.header.key
  rw [if_pos rfl, Block.step, hType] at hBlock
  rw [startReadHeader_type hPrepare hNotGet, Block.answer,
    hType] at hAgree
  have hFree :
      ¬ (s.block pack.header.key).created.havePending =
        true := by
    intro hPending
    simp [Block.prepareAnswer, hPending] at hAgree
  simp only [Block.prepare, if_neg hFree,
    Block.prepareQuick] at hBlock
  simp [Rests, Logs, hBlock, Block.logged]

/-
  After an agreed prepare, and while its transaction is not
  ended, other prepares are refused and the image stays
  exactly when every message for the block is harmless.
-/
theorem agreed_prepare_locks_iff
    {s s₁ s₂ : Ssbd}
    {pack resp : Packet}
    (hType : pack.header.type = .twoPcPrepare)
    (hPrepare : s.startReadHeader pack = some (resp, s₁))
    (hAgree : resp.header.type = .twoPcPrepareAgree)
    {packs : List Packet}
    (hOpen :
      ∀ p ∈ packs, ¬ Settles pack.header.key p)
    (hRun : run handle s₁ packs = some s₂) :
    Guards pack.header.key
        (newImage (s.block pack.header.key).bytes pack)
        pack.header.version s₁ packs ↔
      ∀ p ∈ packs, p.header.key = pack.header.key →
        Harmless (s.block pack.header.key).bytes
          (s.block pack.header.key).created.log.committed
          (newImage (s.block pack.header.key).bytes pack)
          pack.header.version p := by
  rcases rests_of_agree hType hPrepare hAgree with
    ⟨hRests, hLogs⟩
  exact guards_iff hRests hLogs hOpen hRun

/- A message for a fixed block, with one byte of data. -/
def samplePacket
    (type : MsgT)
    (version : Version)
    (byte : UInt8) : Packet :=
  { header :=
      { type := type
        uuid := Vector.replicate 32 7
        blockid := 0
        position := 0
        datasize := 1
        version := version }
    data := [byte] }

/- Version 5 locks a new block against version 6. -/
theorem agreed_prepare_locks_new_block :
    ∃ resp s,
      empty.startReadHeader (samplePacket .twoPcPrepare 5 1) =
          some (resp, s) ∧
        Guards (samplePacket .twoPcPrepare 5 1).header.key [1]
          5 s [samplePacket .twoPcPrepare 6 2] := by
  refine ⟨_, _, rfl, ?_⟩
  refine (@agreed_prepare_locks_iff empty _ _
    (samplePacket .twoPcPrepare 5 1) _ rfl rfl rfl
    [samplePacket .twoPcPrepare 6 2] ?_ rfl).mpr ?_
  · intro p hp
    rw [List.mem_singleton.mp hp]
    rintro ⟨_, hType | hType⟩
    · cases hType
    · cases hType
  · intro p hp _
    rw [List.mem_singleton.mp hp]
    refine ⟨fun _ => by decide +kernel, ?_⟩
    intro hType
    cases hType

/- The answers, and what is logged after each of them. -/
def answersOf (s : Ssbd) :
    List Packet → Option (List (MsgT × Bytes))
| [] => some []
| pack :: packs => do
    let (resp, s) ← s.startReadHeader pack
    let rest ← answersOf s packs
    some ((resp.header.type,
      (s.block pack.header.key).log.data) :: rest)

/-
  A second prepare is agreed to when the first has version
  zero, and when it has the committed version. A quick
  prepare replaces the image in any case.
-/
theorem agreed_prepare_replaced :
    empty.answersOf
          [samplePacket .twoPcPrepare 0 1,
            samplePacket .twoPcPrepare 5 2] =
        some [(.twoPcPrepareAgree, [1]),
          (.twoPcPrepareAgree, [2])] ∧
      empty.answersOf
          [samplePacket .twoPcPrepare 5 1,
            samplePacket .twoPcCommitExecute 5 0,
            samplePacket .twoPcPrepare 5 2,
            samplePacket .twoPcPrepare 6 3] =
        some [(.twoPcPrepareAgree, [1]),
          (.twoPcCommitAck, [1]),
          (.twoPcPrepareAgree, [2]),
          (.twoPcPrepareAgree, [3])] ∧
      empty.answersOf
          [samplePacket .twoPcPrepare 5 1,
            samplePacket .twoPcPrepareQuick 6 2] =
        some [(.twoPcPrepareAgree, [1]),
          (.twoPcPrepareAgree, [2])] := by
  decide +kernel

end Ssbd

end Slfs
