import Slfs.Ssbd.Packet

/-
  The write-ahead log of a block server.

  A block has three records in the log: the version that was
  last committed, the version that is pending, and the pending
  image. Reading a version that does not parse stores `0` in
  its place, so reading is a state change.

  Main declarations:
    * `LogEntry`, the three records of one block
    * `PersistentLog.entry_havePendingLog`
-/

----------
-- Key-Value Stores
----------

namespace Slfs

/- A LevelDB database. -/
abbrev Db := Bytes → Option Bytes

namespace Db

def put (db : Db) (key value : Bytes) : Db :=
  fun k => if k = key then some value else db k

/- `Get` into an empty buffer, which stays empty if the key
  is not there. -/
def read (db : Db) (key : Bytes) : Bytes :=
  (db key).getD []

@[simp] theorem put_same
    (db : Db) (key value : Bytes) :
    db.put key value key = some value := by
  simp [put]

theorem put_of_ne
    (db : Db)
    {key k : Bytes}
    (value : Bytes)
    (h : k ≠ key) :
    db.put key value k = db k := by
  simp [put, h]

@[simp] theorem read_put_same
    (db : Db) (key value : Bytes) :
    (db.put key value).read key = value := by
  simp [read]

theorem read_put_of_ne
    (db : Db)
    {key k : Bytes}
    (value : Bytes)
    (h : k ≠ key) :
    (db.put key value).read k = db.read k := by
  simp [read, put_of_ne db value h]

end Db

----------
-- The Log
----------

namespace PersistentLog

/- Conversion of a parsed number to a version number. -/
def versionOfInt (v : Int) : Version :=
  UInt32.ofNat (v % 2 ^ 32).toNat

/- The version that a stored text stands for. -/
def parseVersion (buffer : Bytes) : Version :=
  if buffer = [] then 0
  else
    match Decimal.stoll buffer with
    | some v => versionOfInt v
    | none => 0

/-
  Read a version record. A text that does not parse is
  replaced by `0`.
-/
def getVersion (log : Db) (versionKey : Bytes) :
    Version × Db :=
  let buffer := log.read versionKey
  if buffer = [] then (0, log)
  else
    match Decimal.stoll buffer with
    | some v => (versionOfInt v, log)
    | none => (0, log.put versionKey (Decimal.ascii "0"))

def committedKey (key : Bytes) : Bytes :=
  key ++ Decimal.ascii "-committed-version"

def versionKey (key : Bytes) : Bytes :=
  key ++ Decimal.ascii "-version"

def dataKey (key : Bytes) : Bytes :=
  key ++ Decimal.ascii "-data"

def getCommittedVersion (log : Db) (key : Bytes) :
    Version × Db :=
  getVersion log (committedKey key)

def putCommittedVersion
    (log : Db)
    (key : Bytes)
    (version : Version) :
    Db :=
  log.put (committedKey key) (Decimal.toString version.toNat)

def putPendingPrepare
    (log : Db)
    (key value : Bytes)
    (version : Version) :
    Db :=
  (log.put (versionKey key)
    (Decimal.toString version.toNat)).put (dataKey key) value

def getPendingPrepareData (log : Db) (key : Bytes) : Bytes :=
  log.read (dataKey key)

def getPendingPrepareVersion (log : Db) (key : Bytes) :
    Version × Db :=
  getVersion log (versionKey key)

/- Returns the log and the database that is saved to. -/
def commitPendingPrepare
    (log : Db)
    (key : Bytes)
    (saveDest : Db) :
    Db × Db :=
  let value := getPendingPrepareData log key
  let (version, log) := getPendingPrepareVersion log key
  (putCommittedVersion log key version,
    saveDest.put key value)

/- Version `0` stands for an empty log. -/
def havePendingLog (log : Db) (key : Bytes) : Bool × Db :=
  let (pending, log) := getPendingPrepareVersion log key
  let (committed, log) := getCommittedVersion log key
  if pending = committed then (false, log)
  else
    let (pending, log) := getPendingPrepareVersion log key
    (pending != 0, log)

end PersistentLog

/- The log records of one block. -/
structure LogEntry where
  committed : Version
  pending : Version
  data : Bytes
deriving DecidableEq, Repr

namespace LogEntry

def havePending (e : LogEntry) : Bool :=
  !(e.pending == e.committed || e.pending == 0)

end LogEntry

namespace PersistentLog

/- The log records of a block, as the log's readers see them. -/
def entry (log : Db) (k : BlockKey) : LogEntry :=
  { committed := parseVersion (log.read (committedKey k.name))
    pending := parseVersion (log.read (versionKey k.name))
    data := log.read (dataKey k.name) }

----------
-- Records Of Different Blocks
----------

variable {k l : BlockKey}

/- Log keys of different blocks or kinds are different. -/
theorem committedKey_inj
    (h : committedKey k.name = committedKey l.name) :
    k = l :=
  (BlockKey.name_append_inj rfl rfl h).1

/- Blocks do not share records of one kind. -/
theorem versionKey_inj
    (h : versionKey k.name = versionKey l.name) :
    k = l :=
  (BlockKey.name_append_inj rfl rfl h).1

theorem dataKey_inj
    (h : dataKey k.name = dataKey l.name) :
    k = l :=
  (BlockKey.name_append_inj rfl rfl h).1

/- Nor do records of different kinds share a key. -/
theorem committedKey_ne_versionKey
    (k l : BlockKey) :
    committedKey k.name ≠ versionKey l.name := by
  intro h
  exact absurd
    (BlockKey.name_append_inj rfl rfl h).2
    (by decide)

theorem committedKey_ne_dataKey
    (k l : BlockKey) :
    committedKey k.name ≠ dataKey l.name := by
  intro h
  exact absurd
    (BlockKey.name_append_inj rfl rfl h).2
    (by decide)

theorem versionKey_ne_dataKey
    (k l : BlockKey) :
    versionKey k.name ≠ dataKey l.name := by
  intro h
  exact absurd
    (BlockKey.name_append_inj rfl rfl h).2
    (by decide)

----------
-- What The Operations Do To The Records
----------

/- A stored version is read back as it was. -/
@[simp] theorem parseVersion_toString
    (v : Version) :
    parseVersion (Decimal.toString v.toNat) = v := by
  have hBound : v.toNat < 2 ^ 32 := v.toNat_lt
  have hSmall : v.toNat < 2 ^ 63 := by omega
  unfold parseVersion
  rw [if_neg (Decimal.toString_ne_nil _),
    Decimal.stoll_toString hSmall]
  have hMod : ((v.toNat : Int) % 2 ^ 32).toNat = v.toNat := by
    omega
  simp only [versionOfInt, hMod, UInt32.ofNat_toNat]

@[simp] theorem parseVersion_zero :
    parseVersion (Decimal.ascii "0") = 0 := by
  decide

/- A version that does not parse is read as zero. -/
@[simp] theorem getVersion_fst
    (log : Db) (key : Bytes) :
    (getVersion log key).1 = parseVersion (log.read key) := by
  unfold getVersion parseVersion
  by_cases hEmpty : log.read key = []
  · simp [hEmpty]
  · cases hParse : Decimal.stoll (log.read key) with
    | none => simp [hEmpty, hParse]
    | some v => simp [hEmpty, hParse]

/- Reading a version replaces its text at most. -/
theorem getVersion_snd
    (log : Db) (key : Bytes) :
    (getVersion log key).2 = log ∨
      (parseVersion (log.read key) = 0 ∧
        (getVersion log key).2 =
          log.put key (Decimal.ascii "0")) := by
  unfold getVersion parseVersion
  by_cases hEmpty : log.read key = []
  · simp [hEmpty]
  · cases hParse : Decimal.stoll (log.read key) with
    | none => simp [hEmpty, hParse]
    | some v => simp [hEmpty, hParse]

/- What is put in its place reads the same. -/
theorem parseVersion_getVersion
    (log : Db) (key k : Bytes) :
    parseVersion ((getVersion log key).2.read k) =
      parseVersion (log.read k) := by
  rcases getVersion_snd log key with hSame | ⟨hZero, hPut⟩
  · rw [hSame]
  · rw [hPut]
    by_cases hKey : k = key
    · subst hKey
      simp [hZero]
    · rw [Db.read_put_of_ne log _ hKey]

/- Reading a version leaves the other records alone. -/
theorem read_getVersion_of_ne
    (log : Db)
    {key k : Bytes}
    (h : k ≠ key) :
    (getVersion log key).2.read k = log.read k := by
  rcases getVersion_snd log key with hSame | ⟨_, hPut⟩
  · rw [hSame]
  · rw [hPut, Db.read_put_of_ne log _ h]

section

variable (log : Db) (k : BlockKey)

/- Reading changes a text, but no record of a block. -/
@[simp] theorem entry_getCommittedVersion :
    entry (getCommittedVersion log k.name).2 = entry log := by
  funext l
  unfold entry getCommittedVersion
  rw [parseVersion_getVersion, parseVersion_getVersion,
    read_getVersion_of_ne log
      (committedKey_ne_dataKey k l).symm]

@[simp] theorem entry_getPendingPrepareVersion :
    entry (getPendingPrepareVersion log k.name).2 =
      entry log := by
  funext l
  unfold entry getPendingPrepareVersion
  rw [parseVersion_getVersion, parseVersion_getVersion,
    read_getVersion_of_ne log
      (versionKey_ne_dataKey k l).symm]

@[simp] theorem getCommittedVersion_fst :
    (getCommittedVersion log k.name).1 =
      (entry log k).committed := by
  simp [getCommittedVersion, entry]

@[simp] theorem getPendingPrepareVersion_fst :
    (getPendingPrepareVersion log k.name).1 =
      (entry log k).pending := by
  simp [getPendingPrepareVersion, entry]

@[simp] theorem getPendingPrepareData_eq :
    getPendingPrepareData log k.name = (entry log k).data :=
  rfl

end

/- Committing a version concerns one record of one block. -/
theorem entry_putCommittedVersion
    (log : Db)
    (k l : BlockKey)
    (version : Version) :
    entry (putCommittedVersion log k.name version) l =
      if l = k then
        { entry log l with committed := version }
      else
        entry log l := by
  unfold entry putCommittedVersion
  rw [Db.read_put_of_ne log _
      (committedKey_ne_versionKey k l).symm,
    Db.read_put_of_ne log _ (committedKey_ne_dataKey k l).symm]
  by_cases hKey : l = k
  · subst hKey
    simp
  · rw [if_neg hKey, Db.read_put_of_ne log _
      (fun h => hKey (committedKey_inj h))]

/- The first of the two puts of a prepare. -/
theorem entry_put_versionKey
    (log : Db)
    (k l : BlockKey)
    (version : Version) :
    entry
        (log.put (versionKey k.name)
          (Decimal.toString version.toNat)) l =
      if l = k then { entry log l with pending := version }
      else entry log l := by
  unfold entry
  rw [Db.read_put_of_ne _ _ (committedKey_ne_versionKey l k),
    Db.read_put_of_ne _ _ (versionKey_ne_dataKey k l).symm]
  by_cases hKey : l = k
  · subst hKey
    simp
  · rw [if_neg hKey,
      Db.read_put_of_ne _ _ (fun h => hKey (versionKey_inj h))]

/- The second of the two puts of a prepare. -/
theorem entry_put_dataKey
    (log : Db)
    (k l : BlockKey)
    (value : Bytes) :
    entry (log.put (dataKey k.name) value) l =
      if l = k then { entry log l with data := value }
      else entry log l := by
  unfold entry
  rw [Db.read_put_of_ne _ _ (committedKey_ne_dataKey l k),
    Db.read_put_of_ne _ _ (versionKey_ne_dataKey l k)]
  by_cases hKey : l = k
  · subst hKey
    simp
  · rw [if_neg hKey,
      Db.read_put_of_ne _ _ (fun h => hKey (dataKey_inj h))]

/- Logging an image concerns two records of one block. -/
theorem entry_putPendingPrepare
    (log : Db)
    (k l : BlockKey)
    (value : Bytes)
    (version : Version) :
    entry (putPendingPrepare log k.name value version) l =
      if l = k then
        { entry log l with pending := version, data := value }
      else
        entry log l := by
  unfold putPendingPrepare
  rw [entry_put_dataKey, entry_put_versionKey]
  split <;> rfl

/- The pending check reads the records and changes none. -/
@[simp] theorem entry_havePendingLog
    (log : Db) (k : BlockKey) :
    entry (havePendingLog log k.name).2 = entry log := by
  unfold havePendingLog
  simp only
  split
  · simp
  · simp

/- The answer depends on the records only. -/
@[simp] theorem havePendingLog_fst
    (log : Db) (k : BlockKey) :
    (havePendingLog log k.name).1 =
      (entry log k).havePending := by
  unfold havePendingLog LogEntry.havePending
  simp only [getPendingPrepareVersion_fst,
    getCommittedVersion_fst, entry_getPendingPrepareVersion,
    entry_getCommittedVersion]
  split
  · next h => simp [h]
  · next h => simp [h, bne]

end PersistentLog

end Slfs
