import Slfs.Ssbd.AgreedPrepare

/-
  What a rollback undoes.

  A prepare of a missing block creates it empty, and a
  rollback does not take it away again. It also drops the
  image that another transaction has logged. Where the block
  exists and nothing is pending, readers do not see that there
  has been a prepare.

  Main declarations:
    * `Ssbd.replyAfter`
    * `Ssbd.rolled_back_invisible_iff`
-/

----------
-- Blocks After A Rollback
----------

namespace Slfs

open Transition

namespace Ssbd

/- The messages that change the block that they name. -/
def TwoPc (k : BlockKey) (pack : Packet) : Prop :=
  pack.header.key = k ∧
    (pack.header.type = .twoPcPrepare ∨
      pack.header.type = .twoPcPrepareQuick ∨
      pack.header.type = .twoPcCommitExecute ∨
      pack.header.type = .twoPcCommitRollback)

instance (k : BlockKey) (pack : Packet) :
    Decidable (TwoPc k pack) := by
  unfold TwoPc
  infer_instance

end Ssbd

namespace Block

/-
  Two blocks that a reader cannot tell apart, with nothing
  pending. What their logs hold besides is of no use before
  the next prepare replaces it.
-/
structure Rested (b c : Block) : Prop where
  present : b.content.isSome
  content : b.content = c.content
  committed : b.log.committed = c.log.committed
  left : b.havePending = false
  right : c.havePending = false

variable {b c : Block} {pack : Packet}

variable {k : BlockKey}

/- Other messages leave the block that they name alone. -/
theorem step_of_not_twoPc
    (hKey : pack.header.key = k)
    (h : ¬ Ssbd.TwoPc k pack) :
    b.step pack = b := by
  simp only [Ssbd.TwoPc, hKey, true_and, not_or] at h
  rcases h with ⟨hPrepare, hQuick, hExecute, hRollback⟩
  unfold step
  split <;> simp_all

theorem rolledBack_eq
    (b : Block) :
    b.rolledBack =
      { content := b.content
        log := ⟨b.log.committed, 0, []⟩ } := rfl

/-
  The rollback drops what the prepare has logged, and what
  was logged before it.
-/
theorem rolledBack_step
    (hPrepare :
      pack.header.type = .twoPcPrepare ∨
        pack.header.type = .twoPcPrepareQuick)
    (hPresent : b.content.isSome) :
    (b.step pack).rolledBack = b.rolledBack := by
  have hCreated := created_of_isSome hPresent
  have hQuick :
      (b.prepareQuick pack).rolledBack = b.rolledBack := by
    rw [prepareQuick, hCreated]
    rfl
  rcases hPrepare with hType | hType
  · simp only [step, hType, prepare, hCreated]
    split
    · rfl
    · exact hQuick
  · simp only [step, hType]
    exact hQuick

@[simp] theorem havePending_rolledBack
    (b : Block) :
    b.rolledBack.havePending = false := by
  simp [rolledBack_eq, havePending, LogEntry.havePending]

/- A prepare and a commit, of a block with an image. -/
theorem content_of_refused
    {commit : Packet}
    (hPrepare : pack.header.type = .twoPcPrepare)
    (hCommit : commit.header.type = .twoPcCommitExecute)
    (hPresent : b.content.isSome)
    (hPending : b.havePending = true) :
    ((b.step pack).step commit).content =
      some b.log.data := by
  simp [step, hPrepare, hCommit, prepare,
    created_of_isSome hPresent, hPending, executed]

/- The same of a block without one. -/
theorem content_of_agreed
    {commit : Packet}
    (hPrepare : pack.header.type = .twoPcPrepare)
    (hCommit : commit.header.type = .twoPcCommitExecute)
    (hPresent : b.content.isSome)
    (hIdle : b.havePending = false) :
    ((b.step pack).step commit).content =
      some (Ssbd.newImage b.bytes pack) := by
  simp [step, hPrepare, hCommit, prepare,
    created_of_isSome hPresent, hIdle, prepareQuick, logged,
    executed]

theorem rested_rolledBack
    (hPresent : b.content.isSome)
    (hIdle : b.havePending = false) :
    Rested b b.rolledBack where
  present := hPresent
  content := rfl
  committed := rfl
  left := hIdle
  right := havePending_rolledBack b

theorem Rested.prepareQuick
    (h : Rested b c)
    (pack : Packet) :
    b.prepareQuick pack = c.prepareQuick pack := by
  have hPresent : c.content.isSome := h.content ▸ h.present
  have hBytes : b.bytes = c.bytes := by
    simp [bytes, h.content]
  unfold Block.prepareQuick
  rw [created_of_isSome h.present, created_of_isSome hPresent,
    hBytes]
  simp [logged, h.content, h.committed]

/- Blocks at rest are the same after the next prepare. -/
theorem Rested.step_eq
    (h : Rested b c)
    (hWrite : Ssbd.TwoPc k pack)
    (hCommit : pack.header.type ≠ .twoPcCommitExecute) :
    b.step pack = c.step pack := by
  have hPresent : c.content.isSome := h.content ▸ h.present
  rcases hWrite.2 with hType | hType | hType | hType
  · have hLeft : ¬ b.created.havePending = true := by
      simp [created_of_isSome h.present, h.left]
    have hRight : ¬ c.created.havePending = true := by
      simp [created_of_isSome hPresent, h.right]
    simp only [step, hType, prepare, if_neg hLeft,
      if_neg hRight]
    exact h.prepareQuick pack
  · simp only [step, hType]
    exact h.prepareQuick pack
  · exact absurd hType hCommit
  · simp only [step, hType, rolledBack_eq, h.content,
      h.committed]

end Block

----------
-- Two Servers Side By Side
----------

namespace Ssbd

/- The answer to a read after some messages. -/
def replyAfter
    (s : Ssbd)
    (packs : List Packet)
    (get : Packet) :
    Option Packet :=
  (run handle s packs).bind
    (fun s => s.startDbRead get)

/- Servers that differ in one block at most. -/
structure Beside
    (k : BlockKey)
    (R : Block → Block → Prop)
    (s t : Ssbd) : Prop where
  other : ∀ l, l ≠ k → s.block l = t.block l
  block : R (s.block k) (t.block k)

variable {k : BlockKey} {R : Block → Block → Prop}
variable {s t : Ssbd}

/- Reads see the content only. -/
theorem Beside.startDbRead
    (hContent : ∀ b c, R b c → b.content = c.content)
    (h : Beside k R s t)
    (get : Packet) :
    s.startDbRead get = t.startDbRead get := by
  simp only [startDbRead_spec]
  by_cases hKey : get.header.key = k
  · rw [hKey]
    unfold Block.read
    rw [hContent _ _ h.block]
  · rw [h.other _ hKey]

variable {pack : Packet} {between : List Packet}

/-
  A message takes both servers on, and the blocks beside
  each other through the same transition.
-/
theorem Beside.step
    {R' : Block → Block → Prop}
    (h : Beside k R s t)
    (hContent : ∀ b c, R b c → b.content = c.content)
    (hPending :
      TwoPc k pack → ∀ b c, R b c →
        b.created.havePending = c.created.havePending)
    (hStep :
      pack.header.key = k → ∀ b c, R b c →
        R' (b.step pack) (c.step pack))
    (hOther :
      pack.header.key ≠ k → ∀ b c, R b c → R' b c) :
    Option.Rel (Beside k R') (s.handle pack)
      (t.handle pack) := by
  -- what the blocks are once both have taken the message
  have hBlocks :
      ∀ s' t', s.handle pack = some s' →
        t.handle pack = some t' → Beside k R' s' t' := by
    intro s' t' hS hT
    refine ⟨?_, ?_⟩
    · intro l hl
      rw [handle_block hS, handle_block hT, h.other l hl]
    · rw [handle_block hS, handle_block hT]
      by_cases hKey : pack.header.key = k
      · rw [if_pos hKey.symm, if_pos hKey.symm]
        exact hStep hKey _ _ h.block
      · rw [if_neg (fun hEq => hKey hEq.symm),
          if_neg (fun hEq => hKey hEq.symm)]
        exact hOther hKey _ _ h.block
  by_cases hGet : pack.header.type = .get
  · have hReads := h.startDbRead hContent pack
    have hS : s.handle pack =
        (s.startDbRead pack).map (fun _ => s) := by
      simp [Ssbd.handle, startReadHeader, hGet,
        Option.map_map, Function.comp_def]
    have hT : t.handle pack =
        (s.startDbRead pack).map (fun _ => t) := by
      rw [hReads]
      simp [Ssbd.handle, startReadHeader, hGet,
        Option.map_map, Function.comp_def]
    cases hReply : s.startDbRead pack with
    | none =>
        rw [hS, hT, hReply]
        exact Option.Rel.none
    | some reply =>
        rw [hReply] at hS hT
        rw [hS, hT]
        exact Option.Rel.some (hBlocks s t hS hT)
  · -- both copy inside of their block, or both outside
    have hBoth :
        (s.handle pack).isSome ↔ (t.handle pack).isSome := by
      simp only [Ssbd.handle, Option.isSome_map,
        startReadHeader_isSome_iff _ _ hGet]
      by_cases hPrepare : pack.header.type = .twoPcPrepare
      · by_cases hKey : pack.header.key = k
        · rw [hKey, hPending ⟨hKey, Or.inl hPrepare⟩ _ _
            h.block]
        · rw [h.other _ hKey]
      · simp [hPrepare]
    cases hS : s.handle pack with
    | none =>
        rw [hS] at hBoth
        have hT : t.handle pack = none := by
          simpa using hBoth.symm
        rw [hT]
        exact Option.Rel.none
    | some s' =>
        rw [hS] at hBoth
        rcases Option.isSome_iff_exists.mp (hBoth.mp rfl) with
          ⟨t', hT⟩
        rw [hT]
        exact Option.Rel.some (hBlocks s' t' hS hT)

----------
-- Reads After A Rollback
----------

variable {packs : List Packet}

/- Related states, looked at in a way that cannot tell them
   apart. -/
theorem bind_eq_of_rel
    {α β : Type}
    {R : α → α → Prop}
    {f : α → Option β}
    {o o' : Option α}
    (h : Option.Rel R o o')
    (hSame : ∀ a a', R a a' → f a = f a') :
    o.bind f = o'.bind f := by
  cases h with
  | none => rfl
  | some hR => exact hSame _ _ hR

theorem replyAfter_append
    (s : Ssbd)
    (es fs : List Packet)
    (get : Packet) :
    s.replyAfter (es ++ fs) get =
      (run handle s es).bind
        (fun m => m.replyAfter fs get) := by
  simp only [replyAfter, run_append_eq]
  cases run handle s es with
  | none => rfl
  | some m => rfl

theorem replyAfter_cons
    (s : Ssbd)
    (pack : Packet)
    (packs : List Packet)
    (get : Packet) :
    s.replyAfter (pack :: packs) get =
      (s.handle pack).bind
        (fun m => m.replyAfter packs get) := by
  simp only [replyAfter, run]
  cases s.handle pack with
  | none => rfl
  | some m => rfl

/-
  Messages that keep what holds between the two blocks keep
  the answers to reads.
-/
theorem Beside.replyAfter
    (h : Beside k R s t)
    (hContent : ∀ b c, R b c → b.content = c.content)
    (hPending :
      ∀ pack ∈ packs, TwoPc k pack → ∀ b c, R b c →
        b.created.havePending = c.created.havePending)
    (hStep :
      ∀ pack ∈ packs, pack.header.key = k → ∀ b c, R b c →
        R (b.step pack) (c.step pack))
    (get : Packet) :
    s.replyAfter packs get = t.replyAfter packs get := by
  apply bind_eq_of_rel (R := Beside k R)
  · apply rel_run
    · intro pack hPack s' t' hBeside
      exact hBeside.step hContent (hPending pack hPack)
        (hStep pack hPack) (fun _ _ _ hR => hR)
    · exact h
  · intro s' t' hBeside
    exact hBeside.startDbRead hContent get

theorem replyAfter_of_same
    (h : Beside k Eq s t)
    (get : Packet) :
    s.replyAfter packs get = t.replyAfter packs get := by
  apply h.replyAfter
  · intro b c hEq
    rw [hEq]
  · intro pack _ _ b c hEq
    rw [hEq]
  · intro pack _ _ b c hEq
    rw [hEq]

/- No message of two-phase commit names the block. -/
theorem replyAfter_of_content
    (h : Beside k (fun b c => b.content = c.content) s t)
    (hQuiet : ∀ pack ∈ packs, ¬ TwoPc k pack)
    (get : Packet) :
    s.replyAfter packs get = t.replyAfter packs get := by
  apply h.replyAfter (fun _ _ hEq => hEq)
    (fun pack hPack hTwoPc =>
      absurd hTwoPc (hQuiet pack hPack))
  intro pack hPack hKey b c hEq
  have hTwoPc := hQuiet pack hPack
  rw [Block.step_of_not_twoPc hKey hTwoPc,
    Block.step_of_not_twoPc hKey hTwoPc]
  exact hEq

/- The first message of two-phase commit for a block. -/
def nextWrite (k : BlockKey) (packs : List Packet) :
    Option Packet :=
  packs.find? (fun pack => decide (TwoPc k pack))

/- The next transaction of the block begins with a prepare. -/
theorem replyAfter_of_rested
    (h : Beside k Block.Rested s t)
    (hNext :
      ∀ pack, nextWrite k packs = some pack →
        pack.header.type ≠ .twoPcCommitExecute)
    (get : Packet) :
    s.replyAfter packs get = t.replyAfter packs get := by
  have hContent :
      ∀ b c, Block.Rested b c → b.content = c.content :=
    fun _ _ hRested => hRested.content
  have hPending :
      ∀ b c, Block.Rested b c →
        b.created.havePending = c.created.havePending := by
    intro b c hRested
    rw [Block.created_of_isSome hRested.present,
      Block.created_of_isSome (hRested.content ▸ hRested.present),
      hRested.left, hRested.right]
  induction packs generalizing s t with
  | nil => exact h.startDbRead hContent get
  | cons pack packs ih =>
      rw [replyAfter_cons, replyAfter_cons]
      by_cases hWrite : TwoPc k pack
      · -- from here on the servers are the same
        have hType : pack.header.type ≠ .twoPcCommitExecute :=
          hNext pack (by simp [nextWrite, hWrite])
        apply bind_eq_of_rel (R := Beside k Eq)
        · apply h.step hContent (fun _ => hPending)
          · intro _ b c hRested
            exact hRested.step_eq hWrite hType
          · intro hKey
            exact absurd hWrite.1 hKey
        · intro s' t' hSame
          exact replyAfter_of_same hSame get
      · apply bind_eq_of_rel (R := Beside k Block.Rested)
        · apply h.step hContent (fun _ => hPending)
          · intro hKey b c hRested
            rw [Block.step_of_not_twoPc hKey hWrite,
              Block.step_of_not_twoPc hKey hWrite]
            exact hRested
          · intro _ _ _ hRested
            exact hRested
        · intro s' t' hRested
          apply ih hRested
          intro next hEq
          apply hNext next
          simpa [nextWrite, hWrite] using hEq

----------
-- The Prepare And Its Rollback
----------

variable {s : Ssbd} {prepare rollback : Packet}

theorem handle_of_ne_get
    (s : Ssbd)
    (hGet : pack.header.type ≠ .get)
    (hFits : pack.header.type.carries = true → pack.Fits) :
    ∃ s', s.handle pack = some s' ∧
      ∀ l, s'.block l =
        if l = pack.header.key then (s.block l).step pack
        else s.block l := by
  rcases Option.isSome_iff_exists.mp
    ((startReadHeader_isSome_iff s pack hGet).mpr
      (fun h => Or.inl (hFits h))) with ⟨⟨resp, s'⟩, hRead⟩
  have hHandle : s.handle pack = some s' := by
    simp [handle, hRead]
  exact ⟨s', hHandle, handle_block hHandle⟩

/-
  A message that begins a transaction of a block, with bytes
  that end within 32 bits.
-/
def Prepares (k : BlockKey) (pack : Packet) : Prop :=
  pack.header.key = k ∧ pack.Fits ∧
    (pack.header.type = .twoPcPrepare ∨
      pack.header.type = .twoPcPrepareQuick)

/- A message that gives a transaction of a block up. -/
def RollsBack (k : BlockKey) (pack : Packet) : Prop :=
  pack.header.key = k ∧
    pack.header.type = .twoPcCommitRollback

theorem Prepares.ne_get
    (h : Prepares k prepare) :
    prepare.header.type ≠ .get := by
  rcases h.2.2 with hType | hType
  · simp [hType]
  · simp [hType]

theorem RollsBack.ne_get
    (h : RollsBack k rollback) :
    rollback.header.type ≠ .get := by
  simp [h.2]

theorem RollsBack.fits
    (h : RollsBack k rollback)
    (hCarries : rollback.header.type.carries = true) :
    rollback.Fits := by
  rw [h.2] at hCarries
  cases hCarries

/-
  A prepare of a block that exists, and its rollback, with
  messages for other blocks between them, leave of the block
  what the rollback alone would leave.
-/
theorem rel_rollback
    (hPrepare : Prepares k prepare)
    (hRollback : RollsBack k rollback)
    (hPresent : (s.block k).content.isSome)
    (hBetween : ∀ pack ∈ between, pack.header.key ≠ k) :
    Option.Rel
      (Beside k (fun b c =>
        b = s.block k ∧ c = (s.block k).rolledBack))
      (run handle s between)
      (run handle s
        (prepare :: between ++ [rollback])) := by
  rcases handle_of_ne_get s hPrepare.ne_get
    (fun _ => hPrepare.2.1) with ⟨t, hHandle, hBlocks⟩
  have hRolled :=
    Block.rolledBack_step hPrepare.2.2 hPresent
  have hContent :
      ((s.block k).step prepare).content =
        (s.block k).content := by
    change ((s.block k).step prepare).rolledBack.content = _
    rw [hRolled]
    rfl
  -- the servers between the prepare and the rollback
  have hRel :
      Option.Rel
        (Beside k (fun b c =>
          b = s.block k ∧ c = (s.block k).step prepare))
        (run handle s between)
        (run handle t between) := by
    apply rel_run
    · intro pack hPack s' t' hBeside
      apply hBeside.step
      · rintro b c ⟨rfl, rfl⟩
        exact hContent.symm
      · intro hTwoPc
        exact absurd hTwoPc.1 (hBetween pack hPack)
      · intro hKey
        exact absurd hKey (hBetween pack hPack)
      · intro _ b c hSame
        exact hSame
    · refine ⟨?_, rfl, ?_⟩
      · intro l hl
        rw [hBlocks l, hPrepare.1, if_neg hl]
      · rw [hBlocks k, hPrepare.1, if_pos rfl]
  have hRun :
      run handle s
          (prepare :: between ++ [rollback]) =
        (run handle t between).bind
          (fun m => m.handle rollback) := by
    rw [List.cons_append, run, hHandle]
    simp only [run_append_eq]
    congr 1
    funext m
    simp only [run]
    cases m.handle rollback with
    | none => rfl
    | some m' => rfl
  rw [hRun]
  generalize run handle s between = o at hRel ⊢
  generalize run handle t between = o' at hRel ⊢
  cases hRel with
  | none => exact Option.Rel.none
  | @some m n hBeside =>
      rcases handle_of_ne_get n hRollback.ne_get
        hRollback.fits with ⟨n', hLast, hLasts⟩
      rw [Option.bind_some, hLast]
      apply Option.Rel.some
      refine ⟨?_, hBeside.block.1, ?_⟩
      · intro l hl
        rw [hLasts l, hRollback.1, if_neg hl,
          hBeside.other l hl]
      · rw [hLasts k, hRollback.1, if_pos rfl,
          hBeside.block.2, ← hRolled, Block.step,
          hRollback.2]

----------
-- What Readers See
----------

/-
  Reads after a prepare, its rollback and later messages are
  answered as without the prepare and the rollback.
-/
def Invisible
    (s : Ssbd)
    (prepare rollback : Packet)
    (between later : List Packet) : Prop :=
  ∀ get,
    s.replyAfter (prepare :: between ++ rollback :: later)
        get =
      s.replyAfter (between ++ later) get

theorem invisible_of_rel
    (hPrepare : Prepares k prepare)
    (hRollback : RollsBack k rollback)
    (hPresent : (s.block k).content.isSome)
    {later : List Packet}
    (hBetween : ∀ pack ∈ between, pack.header.key ≠ k)
    (hLater :
      ∀ m n get,
        Beside k (fun b c =>
          b = s.block k ∧ c = (s.block k).rolledBack) m n →
        m.replyAfter later get = n.replyAfter later get) :
    Invisible s prepare rollback between later := by
  intro get
  have hSplit :
      prepare :: between ++ rollback :: later =
        (prepare :: between ++ [rollback]) ++ later := by
    simp
  rw [hSplit, replyAfter_append, replyAfter_append]
  symm
  apply bind_eq_of_rel
    (rel_rollback hPrepare hRollback hPresent hBetween)
  intro m n hBeside
  exact hLater m n get hBeside

/- Messages that all name one block. -/
theorem replyAfter_named
    {get : Packet}
    (hNamed :
      ∀ pack ∈ packs, pack.header.key = k ∧
        pack.header.type ≠ .get ∧
        (pack.header.type.carries = true → pack.Fits))
    (hGet : get.header.key = k) :
    s.replyAfter packs get =
      (packs.foldl Block.step (s.block k)).read get := by
  induction packs generalizing s with
  | nil =>
      rw [← hGet]
      exact startDbRead_spec s get
  | cons pack packs ih =>
      rw [List.forall_mem_cons] at hNamed
      rcases handle_of_ne_get s hNamed.1.2.1
        hNamed.1.2.2 with ⟨s', hHandle, hBlocks⟩
      rw [replyAfter_cons, hHandle, Option.bind_some,
        ih hNamed.2, hBlocks k, if_pos hNamed.1.1.symm,
        List.foldl_cons]

/- A message about the first byte of a block. -/
def firstByte (k : BlockKey) (type : MsgT) (byte : UInt8) :
    Packet :=
  { header :=
      { type := type
        uuid := k.uuid
        blockid := k.blockid
        position := 0
        datasize := 1
        version := 1 }
    data := [byte] }

@[simp] theorem firstByte_key
    (k : BlockKey) (type : MsgT) (byte : UInt8) :
    (firstByte k type byte).header.key = k := rfl

@[simp] theorem firstByte_type
    (k : BlockKey) (type : MsgT) (byte : UInt8) :
    (firstByte k type byte).header.type = type := rfl

@[simp] theorem firstByte_fits
    (k : BlockKey) (type : MsgT) (byte : UInt8) :
    (firstByte k type byte).Fits :=
  (by decide : 0 + 1 < 2 ^ 32)

/- Reading the first byte of a block that exists. -/
theorem read_firstByte
    {b : Block}
    {bytes : Bytes}
    (h : b.content = some bytes) :
    b.read (firstByte k .get 0) =
      some ((firstByte k .get 0).respond .ack
        (Buffer.window bytes 0 1)) := by
  simp only [Block.read, h, firstByte]
  rw [rawblocksRead_eq 1 (Nat.zero_le _)]
  rfl

/- A prepare of a missing block is seen by the next read. -/
theorem isSome_of_invisible
    (hPrepare : Prepares k prepare)
    (hRollback : RollsBack k rollback)
    (h : Invisible s prepare rollback [] []) :
    (s.block k).content.isSome := by
  by_contra hMissing
  have hNone : (s.block k).content = none := by
    simpa using hMissing
  have hReply := h (firstByte k .get 0)
  have hNamed :
      ∀ pack ∈ [prepare, rollback], pack.header.key = k ∧
        pack.header.type ≠ .get ∧
        (pack.header.type.carries = true → pack.Fits) := by
    simp [hPrepare.1, hPrepare.ne_get, hPrepare.2.1,
      hRollback.1, hRollback.2, MsgT.carries]
  have hCreated :
      (((s.block k).step prepare).step rollback).content =
        some [] := by
    have hContent : (s.block k).created =
        { content := some [], log := ⟨0, 0, []⟩ } := by
      simp [Block.created, hNone]
    rcases hPrepare.2.2 with hType | hType
    · simp [Block.step, hType, hRollback.2, Block.prepare,
        Block.prepareQuick, hContent, Block.havePending,
        LogEntry.havePending, Block.rolledBack, Block.logged]
    · simp [Block.step, hType, hRollback.2,
        Block.prepareQuick, hContent, Block.rolledBack,
        Block.logged]
  have hWith :
      s.replyAfter [prepare, rollback] (firstByte k .get 0) =
        some ((firstByte k .get 0).respond .ack
          (Buffer.window [] 0 1)) := by
    rw [replyAfter_named hNamed rfl]
    exact read_firstByte hCreated
  have hWithout :
      s.replyAfter [] (firstByte k .get 0) =
        some ((firstByte k .get 0).respond .err []) := by
    rw [replyAfter_named (k := k) (by simp) rfl]
    simp [Block.read, hNone]
  have hBoth := hWith.symm.trans (hReply.trans hWithout)
  cases hBoth

/-
  Dropping the image of another transaction is seen by a
  reader after the next one has been committed.
-/
theorem not_pending_of_invisible
    (hPrepare : Prepares k prepare)
    (hRollback : RollsBack k rollback)
    (hPresent : (s.block k).content.isSome)
    (h :
      ∀ byte, Invisible s prepare rollback []
        [firstByte k .twoPcPrepare byte,
          firstByte k .twoPcCommitExecute 0]) :
    (s.block k).havePending = false := by
  by_contra hPending
  rw [Bool.not_eq_false] at hPending
  -- a byte that the pending image does not begin with
  generalize hByte :
    Buffer.nth (s.block k).log.data 0 + 1 = byte
  have hNamed :
      ∀ pack ∈ [firstByte k .twoPcPrepare byte,
          firstByte k .twoPcCommitExecute 0],
        pack.header.key = k ∧ pack.header.type ≠ .get ∧
        (pack.header.type.carries = true → pack.Fits) := by
    simp
  have hNamed' :
      ∀ pack ∈ prepare :: rollback ::
          [firstByte k .twoPcPrepare byte,
            firstByte k .twoPcCommitExecute 0],
        pack.header.key = k ∧ pack.header.type ≠ .get ∧
        (pack.header.type.carries = true → pack.Fits) := by
    rw [List.forall_mem_cons, List.forall_mem_cons]
    exact ⟨⟨hPrepare.1, hPrepare.ne_get,
        fun _ => hPrepare.2.1⟩,
      ⟨hRollback.1, hRollback.ne_get, hRollback.fits⟩, hNamed⟩
  have hRolled :
      ((s.block k).step prepare).step rollback =
        (s.block k).rolledBack := by
    rw [← Block.rolledBack_step hPrepare.2.2 hPresent,
      Block.step, hRollback.2]
  have hReply :
      s.replyAfter (prepare :: rollback ::
          [firstByte k .twoPcPrepare byte,
            firstByte k .twoPcCommitExecute 0])
          (firstByte k .get 0) =
        s.replyAfter
          [firstByte k .twoPcPrepare byte,
            firstByte k .twoPcCommitExecute 0]
          (firstByte k .get 0) :=
    h byte (firstByte k .get 0)
  rw [replyAfter_named hNamed' rfl,
    replyAfter_named hNamed rfl] at hReply
  simp only [List.foldl_cons, List.foldl_nil,
    hRolled] at hReply
  rw [read_firstByte (Block.content_of_agreed
      (b := (s.block k).rolledBack) rfl rfl hPresent (by simp)),
    read_firstByte (Block.content_of_refused rfl rfl hPresent
      hPending)] at hReply
  have hImage :
      newImage (s.block k).rolledBack.bytes
          (firstByte k .twoPcPrepare byte) =
        Buffer.overlay (s.block k).rolledBack.bytes 0
          [byte] := by
    apply newImage_eq
    rfl
  have hData := congrArg Packet.data (Option.some.inj hReply)
  have hFirst := congrArg (fun data => Buffer.nth data 0) hData
  simp only [Packet.respond_data, Buffer.nth_window, hImage,
    Buffer.nth_overlay] at hFirst
  simp [← hByte, Buffer.nth] at hFirst

/-
  While no message changes the block, reads are answered as
  without a prepare and its rollback exactly when the block
  exists. When other transactions follow, each of them
  beginning with a prepare unless one was pending, they are
  exactly when in addition nothing was pending.
-/
theorem rolled_back_invisible_iff
    (s : Ssbd)
    {k : BlockKey}
    {prepare rollback : Packet}
    (hPrepare : Prepares k prepare)
    (hRollback : RollsBack k rollback) :
    ((∀ between later,
        (∀ pack ∈ between, pack.header.key ≠ k) →
        (∀ pack ∈ later, ¬ TwoPc k pack) →
        Invisible s prepare rollback between later) ↔
      (s.block k).content.isSome) ∧
    ((∀ between later,
        (∀ pack ∈ between, pack.header.key ≠ k) →
        (∀ pack, nextWrite k later = some pack →
          pack.header.type = .twoPcCommitExecute →
          (s.block k).havePending = true) →
        Invisible s prepare rollback between later) ↔
      (s.block k).content.isSome ∧
        (s.block k).havePending = false) := by
  constructor
  · constructor
    · intro h
      exact isSome_of_invisible hPrepare hRollback
        (h [] [] (by simp) (by simp))
    · intro hPresent between later hBetween hQuiet
      apply invisible_of_rel hPrepare hRollback hPresent
        hBetween
      intro m n get hBeside
      refine replyAfter_of_content
        ⟨hBeside.other, ?_⟩ hQuiet get
      rw [hBeside.block.1, hBeside.block.2]
      rfl
  · constructor
    · intro h
      have hPresent := isSome_of_invisible hPrepare hRollback
        (h [] [] (by simp) (by simp [nextWrite]))
      refine ⟨hPresent, ?_⟩
      apply not_pending_of_invisible hPrepare hRollback hPresent
      intro byte
      apply h [] _ (by simp)
      intro pack hNext hType
      have hFirst :
          TwoPc k (firstByte k .twoPcPrepare byte) :=
        ⟨rfl, Or.inl rfl⟩
      simp only [nextWrite, List.find?_cons, hFirst,
        decide_true, Option.some.injEq] at hNext
      rw [← hNext] at hType
      cases hType
    · rintro ⟨hPresent, hIdle⟩ between later hBetween hNext
      apply invisible_of_rel hPrepare hRollback hPresent
        hBetween
      intro m n get hBeside
      refine replyAfter_of_rested (k := k)
        ⟨hBeside.other, ?_⟩ ?_ get
      · rw [hBeside.block.1, hBeside.block.2]
        exact Block.rested_rolledBack hPresent hIdle
      · intro pack hEq hType
        have hPending := hNext pack hEq hType
        rw [hIdle] at hPending
        cases hPending

/- A server that has committed one byte. -/
def sampleServer : Ssbd :=
  (run handle empty
    [samplePacket .twoPcPrepare 5 1,
      samplePacket .twoPcCommitExecute 5 0]).getD empty

/- A prepare is given up, and another one is committed. -/
theorem rolled_back_invisible_committed :
    Invisible sampleServer
      (samplePacket .twoPcPrepare 6 2)
      (samplePacket .twoPcCommitRollback 6 0) []
      [samplePacket .twoPcPrepareQuick 7 3,
        samplePacket .twoPcCommitExecute 7 0] := by
  have hPrepare :
      Prepares (samplePacket .get 0 0).header.key
        (samplePacket .twoPcPrepare 6 2) :=
    ⟨rfl, by decide, Or.inl rfl⟩
  have hRollback :
      RollsBack (samplePacket .get 0 0).header.key
        (samplePacket .twoPcCommitRollback 6 0) :=
    ⟨rfl, rfl⟩
  apply (rolled_back_invisible_iff sampleServer hPrepare
    hRollback).2.mpr
  · decide +kernel
  · simp
  · intro pack hNext hType
    have hFirst :
        nextWrite (samplePacket .get 0 0).header.key
            [samplePacket .twoPcPrepareQuick 7 3,
              samplePacket .twoPcCommitExecute 7 0] =
          some (samplePacket .twoPcPrepareQuick 7 3) := by
      decide +kernel
    rw [hFirst, Option.some.injEq] at hNext
    rw [← hNext] at hType
    cases hType

/-
  A missing block is read as a zero, or outside of its
  memory, after the rollback. A transaction that was pending
  commits nothing after the rollback of another one.
-/
theorem rolled_back_visible :
    (empty.replyAfter [] (samplePacket .get 0 0) =
        some ((samplePacket .get 0 0).respond .err []) ∧
      empty.replyAfter
          [samplePacket .twoPcPrepare 5 1,
            samplePacket .twoPcCommitRollback 5 0]
          (samplePacket .get 0 0) =
        some ((samplePacket .get 0 0).respond .ack [0]) ∧
      empty.replyAfter
          [samplePacket .twoPcPrepareQuick 5 1,
            samplePacket .twoPcCommitRollback 5 0]
          { samplePacket .get 0 0 with
            header :=
              { (samplePacket .get 0 0).header with
                position := 1 } } = none) ∧
    (sampleServer.replyAfter
          [samplePacket .twoPcPrepare 6 2,
            samplePacket .twoPcCommitExecute 6 0]
          (samplePacket .get 0 0) =
        some ((samplePacket .get 0 0).respond .ack [2]) ∧
      sampleServer.replyAfter
          [samplePacket .twoPcPrepare 6 2,
            samplePacket .twoPcPrepare 7 3,
            samplePacket .twoPcCommitRollback 7 0,
            samplePacket .twoPcCommitExecute 6 0]
          (samplePacket .get 0 0) =
        some ((samplePacket .get 0 0).respond .ack [0])) := by
  decide +kernel

end Ssbd

end Slfs
