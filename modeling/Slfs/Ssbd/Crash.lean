import Slfs.Ssbd.Block
import Slfs.Lib.Transition

/-
  Crashes of a block server.

  A handler writes to the two databases by single puts, each
  of which is atomic and durable. A server that crashes has
  done some of the puts of the message it was handling, and
  restarts with the databases as they are.

  Main declarations:
    * `Ssbd.puts`, the puts of a message in order
    * `Disk.consistent_after_crashes`
-/

----------
-- Puts
----------

namespace Slfs

open Transition

/- A write to the blocks or to the log. -/
inductive Put where
| db (key value : Bytes)
| log (key value : Bytes)
deriving DecidableEq, Repr

namespace Ssbd

def apply (s : Ssbd) : Put → Ssbd
| .db key value => { s with db := s.db.put key value }
| .log key value => { s with log := s.log.put key value }

def applyAll (s : Ssbd) (puts : List Put) : Ssbd :=
  puts.foldl apply s

end Ssbd

namespace PersistentLog

/- A version that does not parse is replaced when it is read. -/
def getVersionPuts (log : Db) (versionKey : Bytes) : List Put :=
  if log.read versionKey = [] then []
  else
    match Decimal.stoll (log.read versionKey) with
    | some _ => []
    | none => [.log versionKey (Decimal.ascii "0")]

def putCommittedVersionPuts
    (key : Bytes)
    (version : Version) : List Put :=
  [.log (committedKey key) (Decimal.toString version.toNat)]

def putPendingPreparePuts
    (key value : Bytes)
    (version : Version) : List Put :=
  [.log (versionKey key) (Decimal.toString version.toNat),
    .log (dataKey key) value]

def commitPendingPreparePuts
    (log : Db)
    (key : Bytes) : List Put :=
  getVersionPuts log (versionKey key) ++
    (putCommittedVersionPuts key
        (getPendingPrepareVersion log key).1 ++
      [.db key (getPendingPrepareData log key)])

def havePendingLogPuts (log : Db) (key : Bytes) : List Put :=
  let (pending, log') := getPendingPrepareVersion log key
  let (committed, log'') := getCommittedVersion log' key
  getVersionPuts log (versionKey key) ++
    (getVersionPuts log' (committedKey key) ++
      if pending = committed then []
      else getVersionPuts log'' (versionKey key))

end PersistentLog

namespace Ssbd

open PersistentLog

def createMissingPuts (s : Ssbd) (key : Bytes) : List Put :=
  match s.db key with
  | some _ => []
  | none =>
      [.db key []] ++
        (putCommittedVersionPuts key 0 ++
          putPendingPreparePuts key [] 0)

def startTwoPcPreparePuts
    (s : Ssbd)
    (pack : Packet) : List Put :=
  let key := pack.header.asString
  let created := s.createMissingPuts key
  let s := s.createMissing key
  match s.db key with
  | none => created
  | some oldBlock =>
      let (pending, log) := havePendingLog s.log key
      let checked := created ++ havePendingLogPuts s.log key
      if pending then
        checked ++ getVersionPuts log (committedKey key)
      else
        let image := newImage oldBlock pack
        let version := pack.header.version
        checked ++
          (putPendingPreparePuts key image version ++
            getVersionPuts
              (putPendingPrepare log key image version)
              (committedKey key))

def startTwoPcPrepareQuickPuts
    (s : Ssbd)
    (pack : Packet) : List Put :=
  let key := pack.header.asString
  let created := s.createMissingPuts key
  let s := s.createMissing key
  match s.db key with
  | none => created
  | some oldBlock =>
      let image := newImage oldBlock pack
      let version := pack.header.version
      created ++
        (putPendingPreparePuts key image version ++
          getVersionPuts
            (putPendingPrepare s.log key image version)
            (committedKey key))

/- The puts that a message makes, first to last. -/
def puts (s : Ssbd) (pack : Packet) : List Put :=
  let key := pack.header.asString
  match pack.header.type with
  | .twoPcPrepare => s.startTwoPcPreparePuts pack
  | .twoPcPrepareQuick => s.startTwoPcPrepareQuickPuts pack
  | .twoPcCommitExecute => commitPendingPreparePuts s.log key
  | .twoPcCommitRollback => putPendingPreparePuts key [] 0
  | .replication =>
      let repl := key ++ Decimal.ascii "repl"
      [.db repl (newImage (s.db.read repl) pack)]
  | _ => []

/- The databases after the first puts of a message. -/
def crash (s : Ssbd) (pack : Packet) (n : Nat) : Ssbd :=
  s.applyAll ((s.puts pack).take n)

----------
-- All Puts Of A Message
----------

@[simp] theorem applyAll_nil (s : Ssbd) :
    s.applyAll [] = s := rfl

@[simp] theorem applyAll_cons
    (s : Ssbd)
    (p : Put)
    (ps : List Put) :
    s.applyAll (p :: ps) = (s.apply p).applyAll ps := rfl

theorem applyAll_append
    (s : Ssbd)
    (ps qs : List Put) :
    s.applyAll (ps ++ qs) = (s.applyAll ps).applyAll qs := by
  unfold applyAll
  rw [List.foldl_append]

/- Reading a version puts a zero at most. -/
theorem applyAll_getVersionPuts
    (db log : Db)
    (versionKey : Bytes) :
    (Ssbd.mk db log).applyAll (getVersionPuts log versionKey) =
      ⟨db, (getVersion log versionKey).2⟩ := by
  unfold getVersionPuts getVersion
  by_cases hEmpty : log.read versionKey = []
  · simp [hEmpty]
  · cases hParse : Decimal.stoll (log.read versionKey) with
    | none => simp [hEmpty, hParse, apply]
    | some v => simp [hEmpty, hParse]

/- The version is put before the image. -/
theorem applyAll_putPendingPreparePuts
    (s : Ssbd)
    (key value : Bytes)
    (version : Version) :
    s.applyAll (putPendingPreparePuts key value version) =
      { s with
        log := putPendingPrepare s.log key value version } :=
  rfl

/- A missing block takes four puts. -/
theorem applyAll_createMissingPuts
    (s : Ssbd)
    (key : Bytes) :
    s.applyAll (s.createMissingPuts key) =
      s.createMissing key := by
  unfold createMissingPuts createMissing
  cases s.db key with
  | some old => rfl
  | none => rfl

/- Up to three versions are read. -/
theorem applyAll_havePendingLogPuts
    (s : Ssbd)
    (key : Bytes) :
    s.applyAll (havePendingLogPuts s.log key) =
      { s with log := (havePendingLog s.log key).2 } := by
  unfold havePendingLogPuts havePendingLog
    getPendingPrepareVersion getCommittedVersion
  simp only
  rw [applyAll_append, applyAll_getVersionPuts,
    applyAll_append, applyAll_getVersionPuts]
  split
  · rfl
  · rw [applyAll_getVersionPuts]

/- Both prepares begin by creating the block, one asks. -/
theorem applyAll_checkedPuts
    (s : Ssbd)
    (key : Bytes) :
    s.applyAll
        (s.createMissingPuts key ++
          havePendingLogPuts (s.createMissing key).log key) =
      { s.createMissing key with
        log :=
          (havePendingLog (s.createMissing key).log key).2 } := by
  rw [applyAll_append, applyAll_createMissingPuts,
    applyAll_havePendingLogPuts]

theorem applyAll_commitPendingPreparePuts
    (s : Ssbd)
    (key : Bytes) :
    s.applyAll (commitPendingPreparePuts s.log key) =
      { db := (commitPendingPrepare s.log key s.db).2
        log := (commitPendingPrepare s.log key s.db).1 } := by
  unfold commitPendingPreparePuts
  rw [applyAll_append, applyAll_getVersionPuts]
  rfl

section

variable {s s' : Ssbd} {pack resp : Packet}

theorem applyAll_startTwoPcPreparePuts
    (h : s.startTwoPcPrepare pack = some (resp, s')) :
    s.applyAll (s.startTwoPcPreparePuts pack) = s' := by
  unfold startTwoPcPrepare at h
  unfold startTwoPcPreparePuts
  simp only at h ⊢
  generalize pack.header.asString = key at h ⊢
  have hChecked := applyAll_checkedPuts s key
  cases hBlock : (s.createMissing key).db key with
  | none =>
      rw [hBlock] at h
      cases h
      exact applyAll_createMissingPuts s key
  | some oldBlock =>
      simp only [hBlock] at h ⊢
      split at h
      · cases h
        rw [if_pos ‹_›, applyAll_append, hChecked,
          applyAll_getVersionPuts]
        rfl
      · rcases Option.bind_eq_some_iff.mp h with
          ⟨_, hImage, hEq⟩
        cases hEq
        cases newBlock_eq_some hImage
        rw [if_neg ‹_›, applyAll_append, hChecked,
          applyAll_append, applyAll_putPendingPreparePuts,
          applyAll_getVersionPuts]
        rfl

theorem applyAll_startTwoPcPrepareQuickPuts
    (h : s.startTwoPcPrepareQuick pack = some (resp, s')) :
    s.applyAll (s.startTwoPcPrepareQuickPuts pack) = s' := by
  unfold startTwoPcPrepareQuick at h
  unfold startTwoPcPrepareQuickPuts
  simp only at h ⊢
  generalize pack.header.asString = key at h ⊢
  have hCreated := applyAll_createMissingPuts s key
  cases hBlock : (s.createMissing key).db key with
  | none =>
      rw [hBlock] at h
      cases h
      exact hCreated
  | some oldBlock =>
      simp only [hBlock] at h ⊢
      rcases Option.bind_eq_some_iff.mp h with
        ⟨_, hImage, hEq⟩
      cases hEq
      cases newBlock_eq_some hImage
      rw [applyAll_append, hCreated, applyAll_append,
        applyAll_putPendingPreparePuts,
        applyAll_getVersionPuts]
      rfl

end

/- A handler does what all its puts together do. -/
theorem applyAll_puts
    {s s' : Ssbd}
    {pack resp : Packet}
    (h : s.startReadHeader pack = some (resp, s')) :
    s.applyAll (s.puts pack) = s' := by
  unfold startReadHeader at h
  unfold puts
  cases hType : pack.header.type with
  | get =>
      simp only [hType, Option.map_eq_some_iff] at h
      rcases h with ⟨_, _, hEq⟩
      cases hEq
      rfl
  | twoPcPrepare =>
      simp only [hType] at h ⊢
      exact applyAll_startTwoPcPreparePuts h
  | twoPcPrepareQuick =>
      simp only [hType] at h ⊢
      exact applyAll_startTwoPcPrepareQuickPuts h
  | twoPcCommitExecute =>
      simp only [hType, Option.some.injEq] at h ⊢
      rw [applyAll_commitPendingPreparePuts]
      exact congrArg Prod.snd h
  | twoPcCommitRollback =>
      simp only [hType, Option.some.injEq] at h ⊢
      rw [applyAll_putPendingPreparePuts]
      exact congrArg Prod.snd h
  | replication =>
      simp only [hType] at h
      rcases Option.bind_eq_some_iff.mp h with
        ⟨_, hImage, hEq⟩
      cases hEq
      cases newBlock_eq_some hImage
      rfl
  | _ =>
      simp only [hType, Option.some.injEq, Prod.mk.injEq] at h
      exact h.2

end Ssbd

----------
-- What A Crash Leaves Of A Block
----------

namespace Block

/- A missing block has no log records. -/
def Fresh (b : Block) : Prop :=
  b.content = none → b.log = ⟨0, 0, []⟩

/- The version of an image is logged, the image is not. -/
def torn (b : Block) (version : Version) : Block :=
  { b with log := { b.log with pending := version } }

/- The logged version is committed, the image is not. -/
def recorded (b : Block) : Block :=
  { b with log := { b.log with committed := b.log.pending } }

/- What a crash leaves of a block that an image is logged for. -/
def cuts (b : Block) (pack : Packet) : List Block :=
  [b, b.created, b.created.torn pack.header.version,
    b.prepareQuick pack]

end Block

namespace Ssbd

open PersistentLog

/- A change of one block. -/
theorem eq_update
    {blocks blocks' : BlockKey → Block}
    {k : BlockKey}
    (f : Block → Block)
    (h :
      ∀ l, blocks' l =
        if l = k then f (blocks l) else blocks l) :
    blocks' = Function.update blocks k (f (blocks k)) := by
  funext l
  rw [h l, Function.update_apply]
  by_cases hKey : l = k
  · rw [if_pos hKey, if_pos hKey, hKey]
  · rw [if_neg hKey, if_neg hKey]

/- The four puts, as changes of one block. -/
theorem block_apply_db
    (s : Ssbd)
    (k : BlockKey)
    (value : Bytes) :
    (s.apply (.db k.name value)).block =
      Function.update s.block k
        { s.block k with content := some value } := by
  funext l
  rw [Function.update_apply]
  by_cases hKey : l = k
  · subst hKey
    simp [block, apply]
  · have hName : l.name ≠ k.name := fun h =>
      hKey (BlockKey.name_injective h)
    simp [block, apply, hKey, Db.put_of_ne _ _ hName]

theorem block_apply_committed
    (s : Ssbd)
    (k : BlockKey)
    (version : Version) :
    (s.apply (.log (committedKey k.name)
        (Decimal.toString version.toNat))).block =
      Function.update s.block k
        { s.block k with
          log := { (s.block k).log with
            committed := version } } := by
  apply eq_update fun b =>
    { b with log := { b.log with committed := version } }
  intro l
  have hEntry := entry_putCommittedVersion s.log k l version
  unfold putCommittedVersion at hEntry
  simp only [block, apply, hEntry]
  split <;> rfl

theorem block_apply_version
    (s : Ssbd)
    (k : BlockKey)
    (version : Version) :
    (s.apply (.log (versionKey k.name)
        (Decimal.toString version.toNat))).block =
      Function.update s.block k
        ((s.block k).torn version) := by
  apply eq_update (·.torn version)
  intro l
  simp only [block, apply, entry_put_versionKey]
  split <;> rfl

theorem block_apply_data
    (s : Ssbd)
    (k : BlockKey)
    (value : Bytes) :
    (s.apply (.log (dataKey k.name) value)).block =
      Function.update s.block k
        { s.block k with
          log := { (s.block k).log with data := value } } := by
  apply eq_update fun b =>
    { b with log := { b.log with data := value } }
  intro l
  simp only [block, apply, entry_put_dataKey]
  split <;> rfl

/- A crash is in the first part of the puts or after it. -/
theorem applyAll_take_append
    (s : Ssbd)
    (ps qs : List Put)
    (n : Nat) :
    s.applyAll ((ps ++ qs).take n) =
      if n ≤ ps.length then s.applyAll (ps.take n)
      else
        (s.applyAll ps).applyAll (qs.take (n - ps.length)) := by
  rw [List.take_append, applyAll_append]
  by_cases hLe : n ≤ ps.length
  · have hZero : n - ps.length = 0 := by omega
    rw [if_pos hLe, hZero, List.take_zero, applyAll_nil]
  · rw [if_neg hLe, List.take_of_length_le (by omega)]

/- Puts that leave the blocks as they are, wherever it stops. -/
def Quiet (s : Ssbd) (ps : List Put) : Prop :=
  ∀ n, (s.applyAll (ps.take n)).block = s.block

variable {s : Ssbd} {ps : List Put} {k : BlockKey}
variable {pack : Packet}

theorem Quiet.all
    (hQuiet : Quiet s ps) :
    (s.applyAll ps).block = s.block := by
  have hAll := hQuiet ps.length
  rw [List.take_length] at hAll
  exact hAll

theorem Quiet.append
    {qs : List Put}
    (hFirst : Quiet s ps)
    (hSecond : Quiet (s.applyAll ps) qs) :
    Quiet s (ps ++ qs) := by
  intro n
  rw [applyAll_take_append]
  split
  · exact hFirst n
  · rw [hSecond, hFirst.all]

/- Reading a version makes one put at most. -/
theorem quiet_of_entry
    {key : Bytes}
    (hEntry :
      entry (getVersion s.log key).2 = entry s.log) :
    Quiet s (getVersionPuts s.log key) := by
  intro n
  have hAll :
      (s.applyAll (getVersionPuts s.log key)).block =
        s.block := by
    rw [applyAll_getVersionPuts]
    exact block_congr_log s hEntry
  cases n with
  | zero => rfl
  | succ n =>
      have hLength : (getVersionPuts s.log key).length ≤ 1 := by
        unfold getVersionPuts
        split
        · simp
        · split <;> simp
      rw [List.take_of_length_le (by omega)]
      exact hAll

theorem quiet_committedVersion
    (s : Ssbd)
    (k : BlockKey) :
    Quiet s (getVersionPuts s.log (committedKey k.name)) :=
  quiet_of_entry (entry_getCommittedVersion s.log k)

theorem quiet_pendingVersion
    (s : Ssbd)
    (k : BlockKey) :
    Quiet s (getVersionPuts s.log (versionKey k.name)) :=
  quiet_of_entry (entry_getPendingPrepareVersion s.log k)

theorem quiet_havePendingLogPuts
    (s : Ssbd)
    (k : BlockKey) :
    Quiet s (havePendingLogPuts s.log k.name) := by
  unfold havePendingLogPuts getPendingPrepareVersion
    getCommittedVersion
  simp only
  apply (quiet_pendingVersion s k).append
  rw [applyAll_getVersionPuts]
  have hSecond :=
    quiet_committedVersion
      { s with log := (getVersion s.log (versionKey k.name)).2 }
      k
  apply hSecond.append
  split
  · intro n
    rw [List.take_nil, applyAll_nil]
  · rw [applyAll_getVersionPuts]
    apply quiet_pendingVersion

theorem block_apply_zero
    (hLog : (s.block k).log = ⟨0, 0, []⟩)
    {p : Put}
    (hPut :
      p ∈ putCommittedVersionPuts k.name 0 ++
        putPendingPreparePuts k.name [] 0) :
    (s.apply p).block = s.block := by
  have hSame :
      ∀ log : LogEntry, log = ⟨0, 0, []⟩ →
        Function.update s.block k { s.block k with log := log } =
          s.block := by
    intro log hZero
    rw [hZero, ← hLog, Function.update_eq_self]
  simp only [putCommittedVersionPuts, putPendingPreparePuts,
    List.cons_append, List.nil_append, List.mem_cons,
    List.not_mem_nil, or_false] at hPut
  rcases hPut with hPut | hPut | hPut
  · rw [hPut, block_apply_committed]
    exact hSame _ (by rw [hLog])
  · rw [hPut, block_apply_version]
    exact hSame _ (by rw [hLog])
  · rw [hPut, block_apply_data]
    exact hSame _ (by rw [hLog])

/- Puts that each leave the blocks as they are do together. -/
theorem quiet_of_forall
    (hPut :
      ∀ t : Ssbd, t.block = s.block →
        ∀ p ∈ ps, (t.apply p).block = s.block) :
    Quiet s ps := by
  intro n
  have hFold :
      ∀ (qs : List Put) (t : Ssbd),
        (∀ q ∈ qs, q ∈ ps) → t.block = s.block →
        (t.applyAll qs).block = s.block := by
    intro qs
    induction qs with
    | nil => exact fun t _ hBlock => hBlock
    | cons q qs ih =>
        intro t hMem hBlock
        apply ih
        · exact fun r hr => hMem r (List.mem_cons_of_mem q hr)
        · exact hPut t hBlock q (hMem q List.mem_cons_self)
  exact hFold (ps.take n) s
    (fun q hq => List.mem_of_mem_take hq) rfl

/- Creating a block is cut before or after its content. -/
theorem block_take_createMissingPuts
    (hFresh : (s.block k).Fresh)
    (n : Nat) :
    ∃ b ∈ [s.block k, (s.block k).created],
      (s.applyAll
          ((s.createMissingPuts k.name).take n)).block =
        Function.update s.block k b := by
  unfold createMissingPuts
  cases hContent : s.db k.name with
  | some old =>
      refine ⟨s.block k, by simp, ?_⟩
      rw [List.take_nil, applyAll_nil, Function.update_eq_self]
  | none =>
      have hNone : (s.block k).content = none := hContent
      have hCreated :
          (s.block k).created =
            { s.block k with content := some [] } := by
        unfold Block.created
        rw [hNone, ← hFresh hNone]
      -- the first put creates the block, the others put zeros
      cases n with
      | zero =>
          refine ⟨s.block k, by simp, ?_⟩
          rw [List.take_zero, applyAll_nil,
            Function.update_eq_self]
      | succ n =>
          refine ⟨(s.block k).created, by simp, ?_⟩
          have hQuiet :
              Quiet (s.apply (.db k.name []))
                (putCommittedVersionPuts k.name 0 ++
                  putPendingPreparePuts k.name [] 0) := by
            apply quiet_of_forall
            intro t hBlock p hMem
            rw [block_apply_zero _ hMem, hBlock]
            rw [hBlock, block_apply_db, Function.update_self]
            exact hFresh hNone
          rw [hCreated, ← block_apply_db]
          exact hQuiet n

/- Logging an image is cut in three places. -/
theorem block_take_putPendingPreparePuts
    (s : Ssbd)
    (k : BlockKey)
    (image : Bytes)
    (version : Version)
    (n : Nat) :
    (s.applyAll
        ((putPendingPreparePuts k.name image version).take
          n)).block =
      Function.update s.block k
        (match n with
        | 0 => s.block k
        | 1 => (s.block k).torn version
        | _ + 2 => (s.block k).logged image version) := by
  match n with
  | 0 =>
      rw [List.take_zero, applyAll_nil, Function.update_eq_self]
  | 1 => exact block_apply_version s k version
  | n + 2 =>
      simp [putPendingPreparePuts, block_apply_version,
        block_apply_data, Block.torn, Block.logged]

/- Logging an image of a block, and reading a version. -/
theorem block_take_logPuts
    (s : Ssbd)
    (k : BlockKey)
    (image : Bytes)
    (version : Version)
    (n : Nat) :
    ∃ b ∈ [s.block k, (s.block k).torn version,
        (s.block k).logged image version],
      (s.applyAll
          ((putPendingPreparePuts k.name image version ++
            getVersionPuts
              (putPendingPrepare s.log k.name image version)
              (committedKey k.name)).take n)).block =
        Function.update s.block k b := by
  rw [applyAll_take_append]
  split
  · rw [block_take_putPendingPreparePuts]
    refine ⟨_, ?_, rfl⟩
    split <;> simp
  · rw [applyAll_putPendingPreparePuts]
    refine ⟨(s.block k).logged image version, by simp, ?_⟩
    have hQuiet :=
      quiet_committedVersion
        { s with
          log := putPendingPrepare s.log k.name image version }
        k
    rw [hQuiet]
    exact eq_update (·.logged image version) fun l =>
      block_putPendingPrepare s k l image version

theorem block_createMissing_update
    (s : Ssbd)
    (k : BlockKey) :
    (s.createMissing k.name).block =
      Function.update s.block k (s.block k).created :=
  eq_update Block.created (block_createMissing s k)

/- Logging an image of a block that has just been created. -/
theorem block_take_created
    {t : Ssbd}
    (hBlock :
      t.block =
        Function.update s.block pack.header.key
          (s.block pack.header.key).created)
    (n : Nat) :
    ∃ b ∈ (s.block pack.header.key).cuts pack,
      (t.applyAll
          ((putPendingPreparePuts pack.header.key.name
              (newImage (s.block pack.header.key).bytes pack)
              pack.header.version ++
            getVersionPuts
              (putPendingPrepare t.log pack.header.key.name
                (newImage (s.block pack.header.key).bytes pack)
                pack.header.version)
              (committedKey pack.header.key.name)).take
            n)).block =
        Function.update s.block pack.header.key b := by
  rcases block_take_logPuts t pack.header.key
      (newImage (s.block pack.header.key).bytes pack)
      pack.header.version n with ⟨b, hMem, hNext⟩
  have hSelf :
      t.block pack.header.key =
        (s.block pack.header.key).created := by
    rw [hBlock, Function.update_self]
  rw [hSelf] at hMem
  refine ⟨b, ?_, ?_⟩
  · exact List.mem_cons_of_mem _ hMem
  · rw [hNext, hBlock, Function.update_idem]

/- A quick prepare creates the block and logs. -/
theorem block_crash_prepareQuick
    (hType : pack.header.type = .twoPcPrepareQuick)
    (hFresh : (s.block pack.header.key).Fresh)
    (n : Nat) :
    ∃ b ∈ (s.block pack.header.key).cuts pack,
      (s.crash pack n).block =
        Function.update s.block pack.header.key b := by
  unfold crash puts
  simp only [hType, startTwoPcPrepareQuickPuts,
    PacketHeader.asString_eq, db_createMissing]
  rw [applyAll_take_append]
  split
  · rcases block_take_createMissingPuts hFresh n with
      ⟨b, hMem, hNext⟩
    exact ⟨b, List.mem_append_left _ hMem, hNext⟩
  · rw [applyAll_createMissingPuts]
    exact block_take_created
      (block_createMissing_update s pack.header.key) _

/- Creating the block and asking for a pending image. -/
theorem block_take_checked
    (hFresh : (s.block k).Fresh)
    (n : Nat) :
    ∃ b ∈ [s.block k, (s.block k).created],
      (s.applyAll
          ((s.createMissingPuts k.name ++
            havePendingLogPuts (s.createMissing k.name).log
              k.name).take n)).block =
        Function.update s.block k b := by
  rw [applyAll_take_append]
  split
  · exact block_take_createMissingPuts hFresh n
  · rw [applyAll_createMissingPuts,
      quiet_havePendingLogPuts (s.createMissing k.name) k]
    exact ⟨(s.block k).created, by simp,
      block_createMissing_update s k⟩

/- A prepare that is refused has created the block. -/
theorem block_crash_prepare
    (hType : pack.header.type = .twoPcPrepare)
    (hFresh : (s.block pack.header.key).Fresh)
    (n : Nat) :
    ∃ b ∈
        (if (s.block pack.header.key).created.havePending then
          [s.block pack.header.key,
            (s.block pack.header.key).created]
        else (s.block pack.header.key).cuts pack),
      (s.crash pack n).block =
        Function.update s.block pack.header.key b := by
  unfold crash puts
  simp only [hType, startTwoPcPreparePuts,
    PacketHeader.asString_eq, db_createMissing,
    havePendingLog_createMissing]
  generalize hKey : pack.header.key = k at hFresh ⊢
  have hChecked := applyAll_checkedPuts s k.name
  have hBlock :
      ({ s.createMissing k.name with
          log :=
            (havePendingLog (s.createMissing k.name).log
              k.name).2 } : Ssbd).block =
        Function.update s.block k (s.block k).created := by
    rw [← block_createMissing_update]
    exact block_congr_log _ (entry_havePendingLog _ k)
  split
  · rw [applyAll_take_append]
    split
    · exact block_take_checked hFresh n
    · rw [hChecked]
      refine ⟨(s.block k).created, by simp, ?_⟩
      rw [← hBlock]
      apply quiet_committedVersion
  · rw [applyAll_take_append]
    split
    · rcases block_take_checked hFresh n with ⟨b, hMem, hNext⟩
      exact ⟨b, List.mem_append_left _ hMem, hNext⟩
    · rw [hChecked]
      subst hKey
      exact block_take_created hBlock _

/-
  A commit cut before its last put has recorded the version
  and left the content.
-/
theorem block_crash_commit
    (hType : pack.header.type = .twoPcCommitExecute)
    (n : Nat) :
    (s.crash pack n).block =
      Function.update s.block pack.header.key
        (if n + 1 < (s.puts pack).length then
          s.block pack.header.key
        else if n + 1 = (s.puts pack).length then
          (s.block pack.header.key).recorded
        else (s.block pack.header.key).executed) := by
  unfold crash puts
  simp only [hType, commitPendingPreparePuts,
    PacketHeader.asString_eq, putCommittedVersionPuts,
    getPendingPrepareVersion_fst, getPendingPrepareData_eq]
  generalize pack.header.key = k
  have hQuiet := quiet_pendingVersion s k
  generalize getVersionPuts s.log (versionKey k.name) = fix
    at hQuiet ⊢
  have hAll := hQuiet.all
  have hLength :
      (fix ++
        ([Put.log (committedKey k.name)
            (Decimal.toString
              (entry s.log k).pending.toNat)] ++
          [Put.db k.name (entry s.log k).data])).length =
        fix.length + 2 := by
    simp
  rw [applyAll_take_append, hLength]
  by_cases hBefore : n ≤ fix.length
  · have hShort : n + 1 < fix.length + 2 := by omega
    rw [if_pos hBefore, if_pos hShort, hQuiet,
      Function.update_eq_self]
  · have hNot : ¬ n + 1 < fix.length + 2 := by omega
    rw [if_neg hBefore, if_neg hNot]
    by_cases hCut : n + 1 = fix.length + 2
    · have hOne : n - fix.length = 1 := by omega
      rw [if_pos hCut, hOne]
      simp only [List.cons_append, List.take_succ_cons,
        List.take_zero, applyAll_cons, applyAll_nil]
      rw [block_apply_committed, hAll]
      rfl
    · rw [if_neg hCut, List.take_of_length_le (by simp; omega)]
      simp only [List.cons_append, List.nil_append,
        applyAll_cons, applyAll_nil]
      rw [block_apply_db, block_apply_committed, hAll,
        Function.update_self, Function.update_idem]
      rfl

theorem block_crash_rollback
    (hType : pack.header.type = .twoPcCommitRollback)
    (n : Nat) :
    (s.crash pack n).block =
      Function.update s.block pack.header.key
        (match n with
        | 0 => s.block pack.header.key
        | 1 => (s.block pack.header.key).torn 0
        | _ + 2 => (s.block pack.header.key).rolledBack) := by
  unfold crash puts
  simp only [hType, PacketHeader.asString_eq]
  exact block_take_putPendingPreparePuts s pack.header.key [] 0 n

/- Other messages change no block. -/
theorem block_crash_other
    (hPrepare : pack.header.type ≠ .twoPcPrepare)
    (hQuick : pack.header.type ≠ .twoPcPrepareQuick)
    (hExecute : pack.header.type ≠ .twoPcCommitExecute)
    (hRollback : pack.header.type ≠ .twoPcCommitRollback)
    (n : Nat) :
    (s.crash pack n).block = s.block := by
  unfold crash puts
  cases hType : pack.header.type with
  | twoPcPrepare => exact absurd hType hPrepare
  | twoPcPrepareQuick => exact absurd hType hQuick
  | twoPcCommitExecute => exact absurd hType hExecute
  | twoPcCommitRollback => exact absurd hType hRollback
  | replication =>
      cases n with
      | zero => rfl
      | succ n =>
          funext l
          simp only [List.take_succ_cons, List.take_nil]
          exact block_put_repl s pack.header.key l _
  | _ =>
      simp only [List.take_nil]
      rfl

end Ssbd

----------
-- Histories With Crashes
----------

/-
  A server, the last image prepared under each version, and
  the prepares that were answered with agree and neither
  committed nor rolled back.
-/
structure Disk where
  server : Ssbd
  images : BlockKey → Version → Option Bytes
  agreed : BlockKey → List (Version × Bytes)

namespace Disk

def start : Disk :=
  { server := .empty
    images := fun _ _ => none
    agreed := fun _ => [] }

/- A message is handled, or the server crashes after some of
  its puts and restarts. -/
inductive Event where
| deliver (pack : Packet)
| crash (pack : Packet) (n : Nat)
deriving DecidableEq, Repr

/- The image that a prepare makes of its block. -/
def image (d : Disk) (pack : Packet) : Bytes :=
  Ssbd.newImage (d.server.db.read pack.header.asString) pack

def noteImage
    (d : Disk)
    (pack resp : Packet) :
    BlockKey → Version → Option Bytes :=
  if resp.header.type = .twoPcPrepareAgree then
    Function.update d.images pack.header.key
      (Function.update (d.images pack.header.key)
        pack.header.version (some (d.image pack)))
  else d.images

/- A commit or a rollback counts from its version put on. -/
def finishes (d : Disk) (pack : Packet) (n : Nat) : Bool :=
  (pack.header.type = .twoPcCommitExecute ∨
      pack.header.type = .twoPcCommitRollback) ∧
    (d.server.puts pack).length ≤ n + 1

def noteFinished
    (d : Disk)
    (pack : Packet)
    (n : Nat) : BlockKey → List (Version × Bytes) :=
  if d.finishes pack n then
    Function.update d.agreed pack.header.key []
  else d.agreed

def noteAnswered
    (d : Disk)
    (pack resp : Packet) : BlockKey → List (Version × Bytes) :=
  if resp.header.type = .twoPcPrepareAgree then
    Function.update d.agreed pack.header.key
      (d.agreed pack.header.key ++
        [(pack.header.version, d.image pack)])
  else d.noteFinished pack (d.server.puts pack).length

/- What is left when a message is cut. -/
def crashed (d : Disk) (pack resp : Packet) (n : Nat) : Disk :=
  { server := d.server.crash pack n
    images := d.noteImage pack resp
    agreed := d.noteFinished pack n }

def step (d : Disk) : Event → Option Disk
| .deliver pack => do
    let (resp, s) ← d.server.startReadHeader pack
    some
      { server := s
        images := d.noteImage pack resp
        agreed := d.noteAnswered pack resp }
| .crash pack n => do
    let (resp, _) ← d.server.startReadHeader pack
    some (d.crashed pack resp n)

/-
  The content of a block is the image prepared under the
  committed version, and what was agreed to is reported as
  pending with its own data.
-/
structure Consistent (d : Disk) (k : BlockKey) : Prop where
  belongs :
    ((PersistentLog.getCommittedVersion d.server.log k.name).1
        = 0 ∧ d.server.db.read k.name = []) ∨
      d.images k
          (PersistentLog.getCommittedVersion d.server.log
            k.name).1 =
        some (d.server.db.read k.name)
  reported :
    ∀ o ∈ d.agreed k,
      (PersistentLog.havePendingLog d.server.log k.name).1 =
          true ∧
        PersistentLog.getPendingPrepareData d.server.log
          k.name = o.2

/- The log holds an image under the version it was prepared
  under, or nothing. -/
def Whole (d : Disk) (k : BlockKey) : Prop :=
  ((d.server.block k).log.pending = 0 ∧
      (d.server.block k).log.data = []) ∨
    d.images k (d.server.block k).log.pending =
      some (d.server.block k).log.data

/-
  A prepare that is not refused comes under a version that is
  not zero and not committed, and a quick one only when none
  is agreed to. A commit finds a whole log, and a crash does
  not come between its two puts, unless the content is the
  logged image already.
-/
def SafePuts (d : Disk) (pack : Packet) (n : Nat) : Prop :=
  let b := d.server.block pack.header.key
  let length := (d.server.puts pack).length
  let isNew :=
    pack.header.version ≠ 0 ∧
      pack.header.version ≠ b.log.committed
  match pack.header.type with
  | .twoPcPrepare => b.havePending = true ∨ isNew
  | .twoPcPrepareQuick =>
      d.agreed pack.header.key = [] ∧ isNew
  | .twoPcCommitExecute =>
      (length ≤ n + 1 → d.Whole pack.header.key) ∧
        (n + 1 = length → b.bytes = b.log.data)
  | _ => True

def Safe (d : Disk) : Event → Prop
| .deliver pack =>
    d.SafePuts pack (d.server.puts pack).length
| .crash pack n => d.SafePuts pack n

instance (d : Disk) (k : BlockKey) :
    Decidable (d.Whole k) := by
  unfold Whole
  infer_instance

instance (d : Disk) (pack : Packet) (n : Nat) :
    Decidable (d.SafePuts pack n) := by
  unfold SafePuts
  simp only
  split <;> infer_instance

instance (d : Disk) (e : Event) : Decidable (d.Safe e) := by
  unfold Safe
  split <;> infer_instance

end Disk

----------
-- What Holds Of A Block
----------

namespace Block

/- The invariant of one block. -/
structure Held
    (b : Block)
    (images : Version → Option Bytes)
    (agreed : List (Version × Bytes)) : Prop where
  fresh : b.Fresh
  belongs :
    (b.log.committed = 0 ∧ b.bytes = []) ∨
      images b.log.committed = some b.bytes
  reported :
    ∀ o ∈ agreed, b.havePending = true ∧ b.log.data = o.2

/- Creating a block changes no log record. -/
theorem log_created
    {b : Block}
    (hFresh : b.Fresh) :
    b.created.log = b.log := by
  unfold created
  cases hContent : b.content with
  | some bytes => rfl
  | none => exact (hFresh hContent).symm

theorem fresh_of_content
    {b : Block}
    {bytes : Bytes}
    (hContent : b.content = some bytes) :
    b.Fresh := by
  intro hNone
  rw [hContent] at hNone
  cases hNone

variable {b : Block} {images : Version → Option Bytes}
variable {agreed : List (Version × Bytes)}

theorem held_created (h : b.Held images agreed) :
    b.created.Held images agreed := by
  have hLog := log_created h.fresh
  refine
    { fresh := fresh_of_content (created_content b)
      belongs := ?_
      reported := ?_ }
  · rw [hLog, bytes_created]
    exact h.belongs
  · intro o hMem
    unfold havePending
    rw [hLog]
    exact h.reported o hMem

/- A block without a pending image has nothing agreed to. -/
theorem agreed_eq_nil
    (h : b.Held images agreed)
    (hPending : b.havePending = false) :
    agreed = [] := by
  apply List.eq_nil_iff_forall_not_mem.mpr
  intro o hMem
  have hTrue := (h.reported o hMem).1
  rw [hPending] at hTrue
  cases hTrue

variable {b' : Block} {pack : Packet}

/- A new image changes neither content nor committed version. -/
theorem held_log
    (h : b.Held images agreed)
    {version : Version}
    (hNew : version ≠ b.log.committed)
    (bytes : Bytes)
    (hContent : b'.content = b.content)
    (hCommitted : b'.log.committed = b.log.committed)
    (hFresh : b'.Fresh)
    {agreed' : List (Version × Bytes)}
    (hReported :
      ∀ o ∈ agreed', b'.havePending = true ∧ b'.log.data = o.2) :
    b'.Held
      (Function.update images version (some bytes)) agreed' := by
  have hBytes : b'.bytes = b.bytes := by
    unfold Block.bytes
    rw [hContent]
  refine
    { fresh := hFresh
      belongs := ?_
      reported := hReported }
  rw [hCommitted, hBytes, Function.update_of_ne hNew.symm]
  exact h.belongs

/- Every image that a crash leaves of a block being logged. -/
theorem held_cuts
    (h : b.Held images [])
    (hNew : pack.header.version ≠ b.log.committed)
    (bytes : Bytes)
    (hMem : b' ∈ b.cuts pack) :
    b'.Held
      (Function.update images pack.header.version
        (some bytes)) [] := by
  have hLog := log_created h.fresh
  have hNone :
      ∀ o ∈ ([] : List (Version × Bytes)),
        b'.havePending = true ∧ b'.log.data = o.2 := by
    intro o hMem
    cases hMem
  have hCreated := held_created h
  simp only [cuts, List.mem_cons, List.not_mem_nil,
    or_false] at hMem
  rcases hMem with hEq | hEq | hEq | hEq
  · subst hEq
    exact held_log h hNew bytes rfl rfl h.fresh hNone
  all_goals
    rw [← hLog] at hNew
    subst hEq
    apply held_log hCreated hNew bytes
    · rfl
    · rfl
    · exact fresh_of_content (created_content b)
    · exact hNone

/- An agreed image is pending under its new version. -/
theorem held_prepareQuick
    (h : b.Held images [])
    (hZero : pack.header.version ≠ 0)
    (hNew : pack.header.version ≠ b.log.committed) :
    (b.prepareQuick pack).Held
      (Function.update images pack.header.version
        (some (Ssbd.newImage b.bytes pack)))
      [(pack.header.version, Ssbd.newImage b.bytes pack)] := by
  have hLog := log_created h.fresh
  have hOther : pack.header.version ≠ b.created.log.committed := by
    rw [hLog]
    exact hNew
  apply held_log (held_created h) hOther
  · rfl
  · rfl
  · exact fresh_of_content (created_content b)
  · intro o hMem
    rw [List.mem_singleton] at hMem
    subst hMem
    refine ⟨?_, rfl⟩
    simp [prepareQuick, logged, havePending,
      LogEntry.havePending, hZero, hOther]

/- A commit installs the image that the log holds. -/
theorem held_executed
    (hWhole :
      (b.log.pending = 0 ∧ b.log.data = []) ∨
        images b.log.pending = some b.log.data) :
    b.executed.Held images [] := by
  refine
    { fresh := fresh_of_content rfl
      belongs := hWhole
      reported := ?_ }
  intro o hMem
  cases hMem

/- A commit may be cut if it changes no content. -/
theorem held_recorded
    (h : b.Held images agreed)
    (hWhole :
      (b.log.pending = 0 ∧ b.log.data = []) ∨
        images b.log.pending = some b.log.data)
    (hSame : b.bytes = b.log.data) :
    b.recorded.Held images [] := by
  refine
    { fresh := ?_
      belongs := ?_
      reported := ?_ }
  · intro hNone
    have hLog := h.fresh hNone
    simp [recorded, hLog]
  · rw [← hSame] at hWhole
    exact hWhole
  · intro o hMem
    cases hMem

/- A rollback clears the log, if not all of it. -/
theorem held_cleared
    (h : b.Held images agreed)
    {data : Bytes}
    (hData : data = [] ∨ data = b.log.data) :
    (b.logged data 0).Held images [] := by
  refine
    { fresh := ?_
      belongs := h.belongs
      reported := ?_ }
  · intro hNone
    have hLog := h.fresh hNone
    have hEmpty : data = [] := by
      rcases hData with hData | hData
      · exact hData
      · rw [hData, hLog]
    simp [logged, hLog, hEmpty]
  · intro o hMem
    cases hMem

end Block

----------
-- Safe Histories
----------

namespace Disk

/- The invariant of a block and what was said about it. -/
def HeldAt (d : Disk) (k : BlockKey) : Prop :=
  (d.server.block k).Held (d.images k) (d.agreed k)

variable {k : BlockKey}

theorem consistent_of_heldAt
    {d : Disk}
    (hHeld : d.HeldAt k) :
    d.Consistent k := by
  refine
    { belongs := ?_
      reported := ?_ }
  · rw [PersistentLog.getCommittedVersion_fst]
    exact hHeld.belongs
  · intro o hMem
    rw [PersistentLog.havePendingLog_fst]
    exact hHeld.reported o hMem

theorem heldAt_start (k : BlockKey) : start.HeldAt k := by
  refine
    { fresh := fun _ => rfl
      belongs := Or.inl ⟨rfl, rfl⟩
      reported := ?_ }
  intro o hMem
  cases hMem

/- Only the block of a message is concerned. -/
theorem heldAt_update
    {d d' : Disk}
    {b : Block}
    {images : Version → Option Bytes}
    {agreed : List (Version × Bytes)}
    (hHeld : ∀ l, d.HeldAt l)
    (hBlock : d'.server.block = Function.update d.server.block k b)
    (hImages : d'.images = Function.update d.images k images)
    (hAgreed : d'.agreed = Function.update d.agreed k agreed)
    (hNext : b.Held images agreed)
    (l : BlockKey) :
    d'.HeldAt l := by
  unfold HeldAt
  rw [hBlock, hImages, hAgreed]
  by_cases hKey : l = k
  · subst hKey
    simp only [Function.update_self]
    exact hNext
  · simp only [Function.update_of_ne hKey]
    exact hHeld l

section Message

variable {d : Disk} {pack resp : Packet} {s : Ssbd}

theorem noteImage_of_ne
    (hResp : resp.header.type ≠ .twoPcPrepareAgree) :
    d.noteImage pack resp =
      Function.update d.images pack.header.key
        (d.images pack.header.key) := by
  unfold noteImage
  rw [if_neg hResp, Function.update_eq_self]

theorem noteImage_of_agree
    (hResp : resp.header.type = .twoPcPrepareAgree) :
    d.noteImage pack resp =
      Function.update d.images pack.header.key
        (Function.update (d.images pack.header.key)
          pack.header.version
          (some
            (Ssbd.newImage
              (d.server.block pack.header.key).bytes pack))) := by
  unfold noteImage
  rw [if_pos hResp]
  rfl

variable {n : Nat}

theorem noteFinished_of_false
    (hFinishes : d.finishes pack n = false) :
    d.noteFinished pack n =
      Function.update d.agreed pack.header.key
        (d.agreed pack.header.key) := by
  unfold noteFinished
  rw [hFinishes, Function.update_eq_self]
  rfl

theorem noteFinished_of_true
    (hFinishes : d.finishes pack n = true) :
    d.noteFinished pack n =
      Function.update d.agreed pack.header.key [] := by
  unfold noteFinished
  rw [if_pos hFinishes]

theorem finishes_of_prepare
    (hType :
      pack.header.type = .twoPcPrepare ∨
        pack.header.type = .twoPcPrepareQuick)
    (n : Nat) :
    d.finishes pack n = false := by
  unfold finishes
  rcases hType with hType | hType
  · simp [hType]
  · simp [hType]

theorem havePending_created_eq
    (hHeld : d.HeldAt pack.header.key) :
    (d.server.block pack.header.key).created.havePending =
      (d.server.block pack.header.key).havePending := by
  unfold Block.havePending
  rw [Block.log_created hHeld.fresh]

/- Only prepares are answered with agree. -/
theorem prepare_of_agree
    (hRead : d.server.startReadHeader pack = some (resp, s))
    (hResp : resp.header.type = .twoPcPrepareAgree) :
    pack.header.type = .twoPcPrepare ∨
      pack.header.type = .twoPcPrepareQuick := by
  by_cases hGet : pack.header.type = .get
  · simp only [Ssbd.startReadHeader, hGet,
      Option.map_eq_some_iff] at hRead
    rcases hRead with ⟨found, hFound, hEq⟩
    cases hEq
    unfold Ssbd.startDbRead at hFound
    split at hFound
    · cases hFound
      cases hResp
    · rcases Option.map_eq_some_iff.mp hFound with ⟨_, _, hEq⟩
      rw [← hEq] at hResp
      cases hResp
  · have hAnswer := Ssbd.startReadHeader_type hRead hGet
    rw [hResp] at hAnswer
    unfold Block.answer at hAnswer
    split at hAnswer
    · exact Or.inl ‹_›
    · exact Or.inr ‹_›
    all_goals cases hAnswer

variable (hHeld : ∀ k, d.HeldAt k)
include hHeld

/- Logging under a new version is cut somewhere. -/
theorem held_crash_logging
    (hType :
      pack.header.type = .twoPcPrepare ∨
        pack.header.type = .twoPcPrepareQuick)
    (hResp : resp.header.type = .twoPcPrepareAgree)
    (hNone : d.agreed pack.header.key = [])
    (hNew :
      pack.header.version ≠
        (d.server.block pack.header.key).log.committed)
    (hCut :
      ∃ b ∈ (d.server.block pack.header.key).cuts pack,
        (d.server.crash pack n).block =
          Function.update d.server.block pack.header.key b)
    (k : BlockKey) :
    (d.crashed pack resp n).HeldAt k := by
  rcases hCut with ⟨b, hMem, hBlock⟩
  have hOld := hHeld pack.header.key
  unfold HeldAt at hOld
  rw [hNone] at hOld
  apply heldAt_update hHeld hBlock (noteImage_of_agree hResp)
    (noteFinished_of_false (finishes_of_prepare hType n))
  rw [hNone]
  exact Block.held_cuts hOld hNew _ hMem

/- Either nothing is logged, or a new version is. -/
theorem held_crash_prepare
    (hRead : d.server.startReadHeader pack = some (resp, s))
    (hType : pack.header.type = .twoPcPrepare)
    (hSafe :
      (d.server.block pack.header.key).havePending = true ∨
        (pack.header.version ≠ 0 ∧
          pack.header.version ≠
            (d.server.block pack.header.key).log.committed))
    (k : BlockKey) :
    (d.crashed pack resp n).HeldAt k := by
  have hAnswer :=
    Ssbd.startReadHeader_type hRead (by rw [hType]; decide)
  simp only [Block.answer, hType, Block.prepareAnswer] at hAnswer
  have hOld := hHeld pack.header.key
  have hPending := havePending_created_eq hOld
  have hCut := Ssbd.block_crash_prepare hType hOld.fresh n
  rw [hPending] at hAnswer hCut
  by_cases hRefused :
      (d.server.block pack.header.key).havePending = true
  · rw [if_pos hRefused] at hAnswer hCut
    rcases hCut with ⟨b, hMem, hBlock⟩
    have hNe : resp.header.type ≠ .twoPcPrepareAgree := by
      rw [hAnswer]
      decide
    apply heldAt_update hHeld hBlock (noteImage_of_ne hNe)
      (noteFinished_of_false
        (finishes_of_prepare (Or.inl hType) n))
    simp only [List.mem_cons, List.not_mem_nil,
      or_false] at hMem
    rcases hMem with hEq | hEq
    · rw [hEq]
      exact hOld
    · rw [hEq]
      exact Block.held_created hOld
  · rw [if_neg hRefused] at hAnswer hCut
    have hNew := hSafe.resolve_left hRefused
    apply held_crash_logging hHeld (Or.inl hType) hAnswer _
      hNew.2 hCut
    apply Block.agreed_eq_nil hOld
    simpa using hRefused

/- A safe commit is cut where it does no harm. -/
theorem held_crash_commit
    (hType : pack.header.type = .twoPcCommitExecute)
    (hResp : resp.header.type ≠ .twoPcPrepareAgree)
    (hWhole :
      (d.server.puts pack).length ≤ n + 1 →
        d.Whole pack.header.key)
    (hCut :
      n + 1 = (d.server.puts pack).length →
        (d.server.block pack.header.key).bytes =
          (d.server.block pack.header.key).log.data)
    (k : BlockKey) :
    (d.crashed pack resp n).HeldAt k := by
  have hOld := hHeld pack.header.key
  have hBlock :=
    Ssbd.block_crash_commit (s := d.server) hType n
  by_cases hBefore : n + 1 < (d.server.puts pack).length
  · have hFinishes : d.finishes pack n = false := by
      have hNot : ¬ (d.server.puts pack).length ≤ n + 1 := by
        omega
      simp [finishes, hNot]
    rw [if_pos hBefore] at hBlock
    exact heldAt_update hHeld hBlock (noteImage_of_ne hResp)
      (noteFinished_of_false hFinishes) hOld k
  · have hLe : (d.server.puts pack).length ≤ n + 1 := by omega
    have hFinishes : d.finishes pack n = true := by
      simp [finishes, hType, hLe]
    rw [if_neg hBefore] at hBlock
    apply heldAt_update hHeld hBlock (noteImage_of_ne hResp)
      (noteFinished_of_true hFinishes)
    split
    · rename_i hEq
      exact Block.held_recorded hOld (hWhole hLe) (hCut hEq)
    · exact Block.held_executed (hWhole hLe)

/- The version is gone before the image. -/
theorem held_crash_rollback
    (hType : pack.header.type = .twoPcCommitRollback)
    (hResp : resp.header.type ≠ .twoPcPrepareAgree)
    (k : BlockKey) :
    (d.crashed pack resp n).HeldAt k := by
  have hOld := hHeld pack.header.key
  have hBlock :=
    Ssbd.block_crash_rollback (s := d.server) hType n
  have hLength : (d.server.puts pack).length = 2 := by
    simp [Ssbd.puts, hType, PersistentLog.putPendingPreparePuts]
  match n with
  | 0 =>
      have hFinishes : d.finishes pack 0 = false := by
        simp [finishes, hLength]
      refine heldAt_update hHeld ?_ (noteImage_of_ne hResp)
        (noteFinished_of_false hFinishes) hOld k
      exact hBlock
  | 1 =>
      have hFinishes : d.finishes pack 1 = true := by
        simp [finishes, hType, hLength]
      apply heldAt_update hHeld hBlock (noteImage_of_ne hResp)
        (noteFinished_of_true hFinishes)
      exact Block.held_cleared hOld (Or.inr rfl)
  | n + 2 =>
      have hFinishes : d.finishes pack (n + 2) = true := by
        simp [finishes, hType, hLength]
      apply heldAt_update hHeld hBlock (noteImage_of_ne hResp)
        (noteFinished_of_true hFinishes)
      exact Block.held_cleared hOld (Or.inl rfl)

theorem held_crash_other
    (hPrepare : pack.header.type ≠ .twoPcPrepare)
    (hQuick : pack.header.type ≠ .twoPcPrepareQuick)
    (hExecute : pack.header.type ≠ .twoPcCommitExecute)
    (hRollback : pack.header.type ≠ .twoPcCommitRollback)
    (hResp : resp.header.type ≠ .twoPcPrepareAgree)
    (k : BlockKey) :
    (d.crashed pack resp n).HeldAt k := by
  have hFinishes : d.finishes pack n = false := by
    simp [finishes, hExecute, hRollback]
  have hBlock :
      (d.server.crash pack n).block =
        Function.update d.server.block pack.header.key
          (d.server.block pack.header.key) := by
    rw [Function.update_eq_self]
    exact Ssbd.block_crash_other hPrepare hQuick hExecute
      hRollback n
  exact heldAt_update hHeld hBlock (noteImage_of_ne hResp)
    (noteFinished_of_false hFinishes) (hHeld pack.header.key) k

section

variable
    (hRead : d.server.startReadHeader pack = some (resp, s))
include hRead

theorem held_crash
    (hSafe : d.SafePuts pack n)
    (k : BlockKey) :
    (d.crashed pack resp n).HeldAt k := by
  unfold SafePuts at hSafe
  by_cases hPrepare : pack.header.type = .twoPcPrepare
  · simp only [hPrepare] at hSafe
    exact held_crash_prepare hHeld hRead hPrepare hSafe k
  by_cases hQuick : pack.header.type = .twoPcPrepareQuick
  · simp only [hQuick] at hSafe
    have hAnswer :=
      Ssbd.startReadHeader_type hRead (by rw [hQuick]; decide)
    simp only [Block.answer, hQuick] at hAnswer
    exact held_crash_logging hHeld (Or.inr hQuick) hAnswer
      hSafe.1 hSafe.2.2
      (Ssbd.block_crash_prepareQuick hQuick
        (hHeld pack.header.key).fresh n) k
  have hResp : resp.header.type ≠ .twoPcPrepareAgree := by
    intro hAgree
    rcases prepare_of_agree hRead hAgree with hType | hType
    · exact hPrepare hType
    · exact hQuick hType
  by_cases hExecute : pack.header.type = .twoPcCommitExecute
  · simp only [hExecute] at hSafe
    exact held_crash_commit hHeld hExecute hResp
      hSafe.1 hSafe.2 k
  by_cases hRollback : pack.header.type = .twoPcCommitRollback
  · exact held_crash_rollback hHeld hRollback hResp k
  · exact held_crash_other hHeld hPrepare hQuick hExecute
      hRollback hResp k

/- A prepare that agrees has logged its image. -/
theorem held_deliver_agree
    (hResp : resp.header.type = .twoPcPrepareAgree)
    (hSafe :
      d.SafePuts pack (d.server.puts pack).length)
    (k : BlockKey) :
    HeldAt
      { server := s
        images := d.noteImage pack resp
        agreed := d.noteAnswered pack resp } k := by
  have hOld := hHeld pack.header.key
  have hPending := havePending_created_eq hOld
  have hLogged :
      d.agreed pack.header.key = [] ∧
        (d.server.block pack.header.key).step pack =
          (d.server.block pack.header.key).prepareQuick pack ∧
        pack.header.version ≠ 0 ∧
        pack.header.version ≠
          (d.server.block pack.header.key).log.committed := by
    unfold SafePuts at hSafe
    rcases prepare_of_agree hRead hResp with hType | hType
    · have hAnswer :=
        Ssbd.startReadHeader_type hRead (by rw [hType]; decide)
      simp only [hResp, Block.answer, hType,
        Block.prepareAnswer, hPending] at hAnswer
      have hFree :
          ¬ (d.server.block pack.header.key).havePending =
            true := by
        intro hTrue
        rw [if_pos hTrue] at hAnswer
        cases hAnswer
      simp only [hType] at hSafe
      refine ⟨?_, ?_, hSafe.resolve_left hFree⟩
      · apply Block.agreed_eq_nil hOld
        simpa using hFree
      · simp only [Block.step, hType, Block.prepare, hPending]
        rw [if_neg hFree]
    · simp only [hType] at hSafe
      refine ⟨hSafe.1, ?_, hSafe.2⟩
      simp only [Block.step, hType]
  rcases hLogged with ⟨hNone, hStep, hZero, hNew⟩
  have hBlock :
      s.block =
        Function.update d.server.block pack.header.key
          ((d.server.block pack.header.key).prepareQuick
            pack) := by
    rw [← hStep]
    exact Ssbd.eq_update (·.step pack)
      (Ssbd.startReadHeader_block hRead)
  have hAgreed :
      d.noteAnswered pack resp =
        Function.update d.agreed pack.header.key
          [(pack.header.version,
            Ssbd.newImage
              (d.server.block pack.header.key).bytes
              pack)] := by
    unfold noteAnswered
    rw [if_pos hResp, hNone]
    rfl
  unfold HeldAt at hOld
  rw [hNone] at hOld
  exact heldAt_update hHeld hBlock (noteImage_of_agree hResp)
    hAgreed (Block.held_prepareQuick hOld hZero hNew) k

/-
  A message that is not cut leaves what a crash after its
  last put leaves, and a prepare has been answered.
-/
theorem held_deliver
    (hSafe :
      d.SafePuts pack (d.server.puts pack).length)
    (k : BlockKey) :
    HeldAt
      { server := s
        images := d.noteImage pack resp
        agreed := d.noteAnswered pack resp } k := by
  have hAll :
      d.server.crash pack (d.server.puts pack).length = s := by
    unfold Ssbd.crash
    rw [List.take_length]
    exact Ssbd.applyAll_puts hRead
  by_cases hResp : resp.header.type = .twoPcPrepareAgree
  · exact held_deliver_agree hHeld hRead hResp hSafe k
  · have hCrash := held_crash hHeld hRead hSafe k
    unfold crashed at hCrash
    rw [hAll] at hCrash
    unfold noteAnswered
    rw [if_neg hResp]
    exact hCrash

end

end Message

theorem held_step
    {d d' : Disk}
    {e : Event}
    (hHeld : ∀ k, d.HeldAt k)
    (hSafe : d.Safe e)
    (hStep : d.step e = some d')
    (k : BlockKey) :
    d'.HeldAt k := by
  cases e with
  | deliver pack =>
      rcases Option.bind_eq_some_iff.mp hStep with
        ⟨⟨resp, s⟩, hRead, hSome⟩
      cases hSome
      exact held_deliver hHeld hRead hSafe k
  | crash pack n =>
      rcases Option.bind_eq_some_iff.mp hStep with
        ⟨⟨resp, s⟩, hRead, hSome⟩
      cases hSome
      exact held_crash hHeld hRead hSafe k

/-
  In every safe history, with crashes after any put, each
  block holds the image prepared under its committed version,
  and what was agreed to is still pending.
-/
theorem consistent_after_crashes
    (es : List Event)
    {d : Disk}
    (hRun : run step start es = some d)
    (hSafe : Along step Safe start es)
    (k : BlockKey) :
    d.Consistent k := by
  have hHeld : ∀ l, d.HeldAt l := by
    refine invariant_of_run
      (I := fun m => ∀ l, m.HeldAt l) ?_ heldAt_start hRun
      hSafe
    intro m e m' hInv hCond hStep
    exact held_step hInv hCond hStep
  exact consistent_of_heldAt (hHeld k)

/- Messages about one block of one file. -/
def sampleMessage
    (type : MsgT)
    (version : Version)
    (data : Bytes) : Packet :=
  { header :=
      { type := type
        uuid := Vector.replicate 32 1
        blockid := 0
        position := 0
        datasize := data.length
        version := version }
    data := data }

def sampleKey : BlockKey :=
  { uuid := Vector.replicate 32 1, blockid := 0 }

/-
  A prepare is cut after its version, rolled back and made
  again, and the commit is cut before its first put and
  repeated.
-/
def repeated : List Event :=
  [.crash (sampleMessage .twoPcPrepare 1 [7]) 5,
    .deliver (sampleMessage .twoPcCommitRollback 1 []),
    .deliver (sampleMessage .twoPcPrepare 2 [7]),
    .crash (sampleMessage .twoPcCommitExecute 2 []) 0,
    .deliver (sampleMessage .twoPcCommitExecute 2 []),
    .deliver (sampleMessage .twoPcPrepare 3 [8])]

theorem consistent_after_crashes_repeated :
    ∃ d,
      run step start repeated = some d ∧
        Along step Safe start repeated ∧
        d.server.db.read sampleKey.name = [7] ∧
        d.agreed sampleKey = [(3, [8])] ∧
        d.Consistent sampleKey := by
  have hSafe : Along step Safe start repeated := by
    decide +kernel
  have hEnd :
      (run step start repeated).map
          (fun d =>
            (d.server.db.read sampleKey.name,
              d.agreed sampleKey)) =
        some ([7], [(3, [8])]) := by
    decide +kernel
  rcases Option.map_eq_some_iff.mp hEnd with ⟨d, hRun, hValue⟩
  rw [Prod.mk.injEq] at hValue
  exact ⟨d, hRun, hSafe, hValue.1, hValue.2,
    consistent_after_crashes repeated hRun hSafe sampleKey⟩

/- A commit that is cut between its two puts. -/
def commitCut : List Event :=
  [.deliver (sampleMessage .twoPcPrepare 1 [7]),
    .crash (sampleMessage .twoPcCommitExecute 1 []) 1]

/-
  A prepare that is cut between its two puts, and a commit
  that installs the image of the prepare before it.
-/
def prepareCut : List Event :=
  [.deliver (sampleMessage .twoPcPrepare 1 [7]),
    .deliver (sampleMessage .twoPcCommitExecute 1 []),
    .crash (sampleMessage .twoPcPrepare 2 [8]) 1,
    .deliver (sampleMessage .twoPcCommitExecute 2 [])]

/- The committed version, its image and the content. -/
def observed (d : Disk) : Version × Option Bytes × Bytes :=
  let version :=
    (PersistentLog.getCommittedVersion d.server.log
      sampleKey.name).1
  (version, d.images sampleKey version,
    d.server.db.read sampleKey.name)

theorem not_consistent_of_observed
    {d : Disk}
    {version : Version}
    {image content : Bytes}
    (hObserved : d.observed = (version, some image, content))
    (hVersion : version ≠ 0)
    (hOther : image ≠ content) :
    ¬ d.Consistent sampleKey := by
  intro hConsistent
  simp only [observed, Prod.mk.injEq] at hObserved
  rcases hObserved with ⟨hFirst, hImage, hContent⟩
  rcases hConsistent.belongs with ⟨hZero, _⟩ | hSame
  · rw [hFirst] at hZero
    exact hVersion hZero
  · rw [hImage, hContent] at hSame
    exact hOther (Option.some.inj hSame)

theorem crash_separates_version_and_content :
    (∃ d, run step start commitCut = some d ∧
      ¬ d.Consistent sampleKey) ∧
    (∃ d, run step start prepareCut = some d ∧
      ¬ d.Consistent sampleKey) := by
  have hCommit :
      (run step start commitCut).map observed =
        some (1, some [7], []) := by
    decide +kernel
  have hPrepare :
      (run step start prepareCut).map observed =
        some (2, some [8], [7]) := by
    decide +kernel
  constructor
  · rcases Option.map_eq_some_iff.mp hCommit with
      ⟨d, hRun, hObserved⟩
    exact ⟨d, hRun,
      not_consistent_of_observed hObserved
        (by decide) (by decide)⟩
  · rcases Option.map_eq_some_iff.mp hPrepare with
      ⟨d, hRun, hObserved⟩
    exact ⟨d, hRun,
      not_consistent_of_observed hObserved
        (by decide) (by decide)⟩

end Disk

end Slfs
