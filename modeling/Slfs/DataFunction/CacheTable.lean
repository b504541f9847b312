import Slfs.DataFunction.Caching
import Slfs.Lib.Transition
import Slfs.Lib.Wire

/-
  The tables that a data function hands over when it closes.

  A record of a cached file is its key, a colon, the numbers
  and sizes of its blocks with commas between them, and a
  space. A record of the list is a key, a full stop, a number
  and a size, and a space. The reader looks behind a number
  and a size to see what follows, and reads a file without
  blocks wrong.

  Main declarations:
    * `Cache.getTables`
    * `Cache.buildCache`
    * `Cache.HandsOver`
-/

----------
-- Writing The Tables
----------

namespace Slfs

namespace Cache

/- A number as it stands in memory. -/
def hostOrder : Wire.Codec UInt32 :=
  Wire.Codec.uint32.reversed

def number (n : Nat) : Bytes :=
  hostOrder.encode (UInt32.ofNat n)

/- The files of a map and their blocks, in some order. -/
abbrev Listing := List (Uuid × List (Nat × Bytes))

def blockField (block : Nat × Bytes) : Bytes :=
  number block.1 ++ number block.2.length

/- A comma follows a block if another block does. -/
def blockFields : List (Nat × Bytes) → Bytes
| [] => []
| [block] => blockField block
| block :: next :: blocks =>
    blockField block ++ Mark.comma :: blockFields (next :: blocks)

def fileRecord (file : Uuid × List (Nat × Bytes)) : Bytes :=
  file.1.toList ++ Mark.colon :: (blockFields file.2 ++ [Mark.space])

def entryRecord (entry : (Uuid × Nat) × Nat) : Bytes :=
  entry.1.1.toList ++
    Mark.dot :: (number entry.1.2 ++ number entry.2 ++ [Mark.space])

/-
  The records of the files, in the order in which the hash
  map lists them, those of the list from its old end on, and
  two counters.
-/
def getTables
    (files : Listing)
    (cacheHits evictions : Nat)
    (c : Cache) : Bytes :=
  files.flatMap fileRecord ++
    c.lruCache.entries.flatMap entryRecord ++
      (number cacheHits ++ number evictions)

/- The files and blocks of a map. -/
def listing (map : CachingMap) : Listing :=
  map.entries.map (fun file =>
    (file.1, file.2.entries.map (fun block =>
      (block.1, block.2))))

/- Any order of the files, and of the blocks of each. -/
def Lists (files : Listing) (map : CachingMap) : Prop :=
  ∃ order : Listing, order.Perm (listing map) ∧
    List.Forall₂ (fun file file' =>
      file.1 = file'.1 ∧ file.2.Perm file'.2) files order

end Cache

/- What the proxy keeps of the tables: all but the counters. -/
def eraseMetrics (buf : Bytes) : Bytes :=
  buf.take (buf.length - 8)

----------
-- Reading The Tables
----------

namespace Cache

/- A read of a block, with the number it is stored under. -/
structure Fetch where
  bid : UInt32
  input : Jsre.Request

def fetch
    (fileKey : Uuid)
    (bid size : UInt32) : Fetch :=
  { bid := bid
    input :=
      { uuid := fileKey
        position := bid * 4096
        size := size
        fileName := Vector.replicate _ 0
        fileKey := Vector.replicate _ 0
        data := [] } }

/- A cache that is being built, and the reads it has made. -/
structure Building where
  cache : Cache
  requests : List Fetch

def readBlock (stream : Bytes) :
    Option ((UInt32 × UInt32) × Bytes) := do
  let (bid, stream) ← hostOrder.read stream
  let (size, stream) ← hostOrder.read stream
  some ((bid, size), stream)

/-
  The loop over the parts of a record, up to its space. An
  entry of the list ends the loop. There is nothing if bytes
  are read from beyond the end.
-/
def parseBlocks (held : Option Uuid) (fileKey : Uuid) :
    Nat → Bytes → Building → Option (Bytes × Building)
| 0, _, _ => none
| _ + 1, [], _ => none
| fuel + 1, mark :: rest, b =>
    if mark = Mark.space then some (mark :: rest, b)
    else if mark = Mark.dot then do
      let ((bid, size), rest) ← readBlock rest
      let c ← b.cache.set held (fileKey, bid.toNat) size.toNat
      some (rest, { b with cache := c })
    else do
      let ((bid, size), rest) ← readBlock rest
      parseBlocks held fileKey fuel rest
        { b with
          requests := b.requests ++ [fetch fileKey bid size] }

/-
  The loop over the records. A key that has been seen before
  stays locked while its record is read.
-/
def buildFrom : Nat → Bytes → Building → Option Building
| _, [], b => some b
| 0, _ :: _, _ => none
| fuel + 1, byte :: bytes, b => do
    let (fileKey, rest) ←
      (Wire.Codec.array 32).read (byte :: bytes)
    let held :=
      (b.cache.cachingMap.lookup fileKey).map (fun _ => fileKey)
    let c :=
      { b.cache with
        cachingMap := emplace fileKey ∅ b.cache.cachingMap }
    let (rest, b) ←
      parseBlocks held fileKey rest.length rest
        { b with cache := c }
    buildFrom fuel (rest.drop 1) b

/- Every round of either loop takes bytes off. -/
def buildCache (cacheTable : Bytes) (c : Cache) :
    Option Building :=
  buildFrom cacheTable.length cacheTable
    { cache := c, requests := [] }

----------
-- What Is Handed Over
----------

/- Where the bytes of a read are kept. -/
def Fetch.triple (f : Fetch) : Uuid × Nat × Nat :=
  (f.input.uuid, f.bid.toNat, f.input.size.toNat)

/- What the storage reads, by `file_key` of the request. -/
def Fetch.stored (f : Fetch) : Uuid × Nat × Nat :=
  (f.input.fileKey, f.bid.toNat, f.input.size.toNat)

/- The keys, block numbers and sizes of a listing. -/
def triples (files : Listing) : List (Uuid × Nat × Nat) :=
  files.flatMap (fun file =>
    file.2.map (fun block =>
      (file.1, block.1, block.2.length)))

/-
  The list of recently used blocks is the same, and there is
  one read for every block of the map, to be kept under its
  key.
-/
structure Rebuilds (c : Cache) (b : Building) : Prop where
  entries :
    b.cache.lruCache.entries = c.lruCache.entries
  requests :
    (b.requests.map Fetch.triple).Perm
      (triples (listing c.cachingMap))
  position :
    ∀ f ∈ b.requests,
      f.input.position.toNat = blocksize * f.bid.toNat

/- The storage reads the blocks of the map as well. -/
structure HandsOver (c : Cache) (b : Building) : Prop
    extends Rebuilds c b where
  stored :
    (b.requests.map Fetch.stored).Perm
      (triples (listing c.cachingMap))

/- The calls that change a cache. -/
inductive Call where
| readFromCache (input : Jsre.Request)
| writeToCache (input : Jsre.Request) (data : Bytes)
deriving DecidableEq, Repr

def call (c : Cache) : Call → Option Cache
| .readFromCache input =>
    (c.readFromCache input).map Prod.snd
| .writeToCache input data => c.writeToCache input data

----------
-- The States Of A Cache
----------

/- Numbers and sizes that positions of 32 bits allow. -/
structure Bounded
    (cachesize : UInt32)
    (c : Cache) :
    Prop where
  cap_eq : c.lruCache.cap = cachesize.toNat
  consistent : c.lruCache.Consistent
  nodup : (c.lruCache.entries.map Prod.fst).Nodup
  entry :
    ∀ x ∈ c.lruCache.entries,
      x.1.2 < 2 ^ 20 ∧ x.2 ≤ blocksize
  block :
    ∀ e block, blockIn c.cachingMap e = some block →
      e.2 < 2 ^ 20 ∧ block.length ≤ blocksize
  total_le :
    cachesize.toNat + blocksize < 2 ^ 32 →
      Lru.total c.lruCache.entries ≤ cachesize.toNat

variable {cachesize : UInt32}

theorem bounded_empty
    (policy : EvictionPolicy) :
    Bounded cachesize (empty cachesize policy) where
  cap_eq := rfl
  consistent := Lru.consistent_empty _
  nodup := List.nodup_nil
  entry := by simp [empty, Lru.empty]
  block := by simp [empty, blockIn]
  total_le := by simp [empty, Lru.empty]

/- Noting a use drops the blocks that make room. -/
theorem set_cases
    {c c' : Cache}
    {held : Option Uuid}
    {e : Uuid × Nat}
    {size : Nat}
    (h : c.set held e size = some c') :
    ∃ gone lru, c.lruCache.set e size = some (gone, lru) ∧
      c' =
        { c with
          cachingMap :=
            gone.foldl deleteEntryFromCache c.cachingMap
          lruCache := lru } := by
  rw [Cache.set] at h
  rcases Option.bind_eq_some_iff.mp h with
    ⟨⟨gone, lru⟩, hSet, hRest⟩
  refine ⟨gone, lru, hSet, ?_⟩
  simp only at hRest
  split at hRest
  · cases hRest
  · exact (Option.some.inj hRest).symm

namespace Bounded

variable {c c' : Cache}

theorem set
    {held : Option Uuid}
    {e : Uuid × Nat}
    {size : Nat}
    (h : Bounded cachesize c)
    (hId : e.2 < 2 ^ 20)
    (hSize : size ≤ blocksize)
    (hSet : c.set held e size = some c') :
    Bounded cachesize c' := by
  rcases set_cases hSet with ⟨gone, lru, hLru, hEq⟩
  subst hEq
  have hSmall : size < 2 ^ 32 := by
    simp only [blocksize] at hSize
    omega
  rcases Lru.set_spec h.consistent hSmall hLru with
    ⟨old, rest, hErase, _, hNew, hCap, hCons, hFits⟩
  -- the entries that are kept were there before
  have hOld :
      ∀ x ∈ rest, x ∈ c.lruCache.entries := by
    intro x hx
    apply List.mem_of_mem_eraseP (p := fun e' => e'.1 = e)
    rw [hErase]
    exact List.mem_append_right _ hx
  refine
    { cap_eq := hCap.trans h.cap_eq
      consistent := hCons
      nodup := Lru.nodup_of_set h.consistent hSmall h.nodup hLru
      entry := ?_
      block := ?_
      total_le := ?_ }
  · intro x hx
    rw [hNew] at hx
    rcases List.mem_append.mp hx with hIn | hIn
    · exact h.entry x (hOld x hIn)
    · rw [List.mem_singleton.mp hIn]
      exact ⟨hId, hSize⟩
  · intro x block hBlock
    rw [blockIn_foldl_delete] at hBlock
    split at hBlock
    · cases hBlock
    · exact h.block x block hBlock
  · intro hRoom
    have hBefore := h.total_le hRoom
    have hRest := Lru.total_eraseP_le e c.lruCache.entries
    rw [hErase, Lru.total_append] at hRest
    rw [h.cap_eq] at hFits
    rw [hNew, Lru.total_append, Lru.total_cons, Lru.total_nil]
    rw [Nat.mod_eq_of_lt (by omega),
      Nat.mod_eq_of_lt (by omega)] at hFits
    omega

end Bounded

----------
-- Every Call Keeps The Bounds
----------

theorem blockIdsFrom_lt
    {endpos : Nat}
    (hEnd : endpos < 2 ^ 32)
    {fuel pos : Nat}
    {ids : List Nat}
    (h : blockIdsFrom endpos fuel pos = some ids) :
    ∀ id ∈ ids, id < 2 ^ 20 := by
  induction fuel generalizing pos ids with
  | zero => cases h
  | succ fuel ih =>
      rw [blockIdsFrom] at h
      by_cases hPos : pos < endpos
      · rw [if_pos hPos] at h
        rcases Option.bind_eq_some_iff.mp h with
          ⟨rest, hRest, hEq⟩
        cases hEq
        rw [List.forall_mem_cons]
        refine ⟨?_, ih hRest⟩
        simp only [blocksize]
        omega
      · rw [if_neg hPos] at h
        cases h
        simp

variable {input : Jsre.Request}

/- Ranges end within 32 bits, and blocks have 12. -/
theorem getBlockIds_lt
    {ids : List Nat}
    (h : getBlockIds input = some ids) :
    ∀ id ∈ ids, id < 2 ^ 20 := by
  rw [getBlockIds] at h
  split at h
  · cases h
    simp
  · exact blockIdsFrom_lt (Nat.mod_lt _ (by decide)) h

theorem length_toEmplace_le
    {data block : Bytes}
    {id : Nat}
    (h : toEmplace input data id = some block) :
    block.length ≤ blocksize := by
  rw [toEmplace] at h
  split at h
  · cases h
    rw [List.length_take]
    exact (Nat.min_le_left _ _).trans (Nat.min_le_left _ _)
  · cases h

section Read

variable {I : Cache → Prop} (hStep :
  ∀ {c c' : Cache} {key : Uuid × Nat} {block : Bytes},
    I c → blockIn c.cachingMap key = some block →
    c.set (some key.1) key block.length = some c' → I c')
variable {c c' : Cache}

include hStep

/- What noting a use keeps, a read keeps. -/
theorem readBlocks_induction
    {uuid : Uuid}
    {ids : List Nat}
    {toReturn : Bytes}
    {r : Option Bytes}
    (h : I c)
    (hRead : c.readBlocks uuid ids toReturn = some (r, c')) :
    I c' := by
  induction ids generalizing c toReturn with
  | nil =>
      cases hRead
      exact h
  | cons id ids ih =>
      rw [readBlocks] at hRead
      cases hFind : blockIn c.cachingMap (uuid, id) with
      | none =>
          rw [hFind] at hRead
          cases hRead
          exact h
      | some block =>
          rw [hFind] at hRead
          rcases Option.bind_eq_some_iff.mp hRead with
            ⟨c₁, hNote, hNext⟩
          refine ih ?_ hNext
          rw [noteRead] at hNote
          split at hNote
          · cases hNote
            exact h
          · exact hStep h hFind hNote

/- What every block that is read keeps, a read keeps. -/
theorem call_read_induction
    {input : Jsre.Request}
    (h : I c)
    (hCall : c.call (.readFromCache input) = some c') :
    I c' := by
  rcases Option.map_eq_some_iff.mp hCall with
    ⟨⟨r, c₁⟩, hRead, hEq⟩
  cases hEq
  rw [readFromCache] at hRead
  cases hFile : c.cachingMap.lookup input.uuid with
  | none =>
      rw [hFile] at hRead
      cases hRead
      exact h
  | some blocks =>
      rw [hFile] at hRead
      rcases Option.bind_eq_some_iff.mp hRead with
        ⟨ids, _, hBlocks⟩
      exact readBlocks_induction hStep h hBlocks

end Read

namespace Bounded

variable {c c' : Cache} {uuid : Uuid}
variable {blocks : BlockMap} {input : Jsre.Request}
variable {data : Bytes}

/- A block that is there stays, a new one is in bounds. -/
theorem emplaceBlock
    {id : Nat}
    {block : Bytes}
    (h : Bounded cachesize c)
    (hId : id < 2 ^ 20)
    (hLength : block.length ≤ blocksize) :
    Bounded cachesize (c.emplaceBlock uuid id block) := by
  unfold Cache.emplaceBlock
  cases hFile : c.cachingMap.lookup uuid with
  | none => exact h
  | some blocks =>
      refine { h with block := ?_ }
      rintro ⟨uuid', id'⟩ b hBlock
      simp only at hBlock ⊢
      rw [blockIn_insert] at hBlock
      by_cases hUuid : uuid' = uuid
      · rw [if_pos hUuid, lookup_emplace] at hBlock
        by_cases hSame : id' = id
        · rw [if_pos hSame] at hBlock
          cases hOld : blocks.lookup id with
          | none =>
              rw [hOld] at hBlock
              cases hBlock
              exact ⟨hSame ▸ hId, hLength⟩
          | some old =>
              rw [hOld] at hBlock
              cases hBlock
              rw [hSame]
              exact h.block (uuid, id) _
                (by simp [blockIn, hFile, hOld])
        · rw [if_neg hSame] at hBlock
          exact h.block (uuid, id') b
            (by simpa [blockIn, hFile] using hBlock)
      · rw [if_neg hUuid] at hBlock
        exact h.block (uuid', id') b hBlock

/- The block map of a new file. -/
theorem emplaceFile
    (h : Bounded cachesize c)
    (hBlocks :
      ∀ id block, blocks.lookup id = some block →
        id < 2 ^ 20 ∧ block.length ≤ blocksize) :
    Bounded cachesize
      { c with
        cachingMap := emplace uuid blocks c.cachingMap } := by
  refine { h with block := ?_ }
  rintro ⟨uuid', id⟩ b hBlock
  simp only [blockIn, lookup_emplace] at hBlock
  by_cases hUuid : uuid' = uuid
  · rw [if_pos hUuid, Option.bind_some] at hBlock
    cases hOld : c.cachingMap.lookup uuid with
    | none =>
        rw [hOld] at hBlock
        exact hBlocks id b hBlock
    | some old =>
        rw [hOld] at hBlock
        exact h.block (uuid, id) b
          (by simpa [blockIn, hOld] using hBlock)
  · rw [if_neg hUuid] at hBlock
    exact h.block (uuid', id) b hBlock

/- The blocks of a file that is cached. -/
theorem writeBlocks
    {ids : List Nat}
    (hIds : ∀ id ∈ ids, id < 2 ^ 20)
    (h : Bounded cachesize c)
    (hWrite : c.writeBlocks input data ids = some c') :
    Bounded cachesize c' := by
  induction ids generalizing c with
  | nil =>
      cases hWrite
      exact h
  | cons id ids ih =>
      rw [List.forall_mem_cons] at hIds
      rcases Option.bind_eq_some_iff.mp hWrite with
        ⟨block, hBlock, hRest⟩
      rcases Option.bind_eq_some_iff.mp hRest with
        ⟨c₁, hSet, hNext⟩
      have hLength := length_toEmplace_le hBlock
      exact ih hIds.2
        ((h.set hIds.1 hLength hSet).emplaceBlock
          hIds.1 hLength) hNext

/- The blocks of a file that is new to the cache. -/
theorem collectBlocks
    {ids : List Nat}
    {blocks' : BlockMap}
    (hIds : ∀ id ∈ ids, id < 2 ^ 20)
    (h : Bounded cachesize c)
    (hBlocks :
      ∀ id block, blocks.lookup id = some block →
        id < 2 ^ 20 ∧ block.length ≤ blocksize)
    (hCollect :
      c.collectBlocks input data ids blocks =
        some (blocks', c')) :
    Bounded cachesize c' ∧
      ∀ id block, blocks'.lookup id = some block →
        id < 2 ^ 20 ∧ block.length ≤ blocksize := by
  induction ids generalizing c blocks with
  | nil =>
      cases hCollect
      exact ⟨h, hBlocks⟩
  | cons id ids ih =>
      rw [List.forall_mem_cons] at hIds
      rcases Option.bind_eq_some_iff.mp hCollect with
        ⟨block, hBlock, hRest⟩
      rcases Option.bind_eq_some_iff.mp hRest with
        ⟨c₁, hSet, hNext⟩
      have hLength := length_toEmplace_le hBlock
      refine ih hIds.2 (h.set hIds.1 hLength hSet) ?_ hNext
      intro j b hLookup
      rw [lookup_emplace] at hLookup
      by_cases hSame : j = id
      · rw [if_pos hSame] at hLookup
        cases hOld : blocks.lookup id with
        | none =>
            rw [hOld] at hLookup
            cases hLookup
            exact ⟨hSame ▸ hIds.1, hLength⟩
        | some old =>
            rw [hOld] at hLookup
            cases hLookup
            rw [hSame]
            exact hBlocks id _ hOld
      · rw [if_neg hSame] at hLookup
        exact hBlocks j b hLookup

theorem call
    {e : Call}
    (h : Bounded cachesize c)
    (hCall : c.call e = some c') :
    Bounded cachesize c' := by
  cases e with
  | readFromCache input =>
      refine call_read_induction ?_ h hCall
      intro m m' key block hm hFind hSet
      have hBound := hm.block key block hFind
      exact hm.set hBound.1 hBound.2 hSet
  | writeToCache input data =>
      rw [Cache.call, Cache.writeToCache] at hCall
      rcases Option.bind_eq_some_iff.mp hCall with
        ⟨ids, hIds, hRest⟩
      have hBound := getBlockIds_lt hIds
      cases hFile : c.cachingMap.lookup input.uuid with
      | some blocks =>
          rw [hFile] at hRest
          exact h.writeBlocks hBound hRest
      | none =>
          rw [hFile] at hRest
          rcases Option.bind_eq_some_iff.mp hRest with
            ⟨⟨blocks, c₁⟩, hCollect, hEq⟩
          cases hEq
          rcases h.collectBlocks hBound (by simp) hCollect with
            ⟨hCache, hBlocks⟩
          exact hCache.emplaceFile hBlocks

end Bounded

/- A state that calls lead to. -/
theorem bounded_of_run
    {cachesize : UInt32}
    {policy : EvictionPolicy}
    {calls : List Call}
    {c : Cache}
    (h :
      Transition.run call (empty cachesize policy) calls =
        some c) :
    Bounded cachesize c :=
  Transition.invariant_of_any_run
    (fun _ _ _ hInv hStep => hInv.call hStep)
    (bounded_empty policy) h

end Cache

end Slfs
