import Mathlib.Data.List.AList
import Slfs.DataFunction.Perform
import Slfs.Lib.Lru
import Slfs.Lib.Table

/-
  The block cache of a data function.

  Blocks are kept under the key of the parent directory and a
  block number, and a request is cut into blocks from its own
  start on. A function that gives no result does not return,
  or copies bytes from beyond the end of its buffer.

  Main declarations:
    * `Cache.readFromCache`
    * `Cache.writeToCache`
-/

----------
-- The Cache
----------

namespace Slfs

abbrev BlockMap := AList (fun _ : Nat => Bytes)

abbrev CachingMap := AList (fun _ : Uuid => BlockMap)

/- The policies that the code asks for by name. -/
inductive EvictionPolicy where
| LRU
| FIFO
deriving DecidableEq, Repr

structure Cache where
  cachingMap : CachingMap
  lruCache : Lru (Uuid × Nat)
  evictionPolicy : EvictionPolicy

namespace Cache

def blocksize : Nat := 4096

def empty
    (cachesize : UInt32)
    (policy : EvictionPolicy) : Cache :=
  { cachingMap := ∅
    lruCache := Lru.empty cachesize.toNat
    evictionPolicy := policy }

def deleteEntryFromCache
    (map : CachingMap)
    (entry : Uuid × Nat) : CachingMap :=
  match map.lookup entry.1 with
  | none => map
  | some blocks =>
      if (blocks.erase entry.2).entries.length = 0 then
        map.erase entry.1
      else
        map.insert entry.1 (blocks.erase entry.2)

/-
  Note the use of a block, and delete the blocks for which
  there is no room. A caller that reads the blocks of a file
  holds them, and a deletion among them waits for ever.
-/
def set
    (held : Option Uuid)
    (entry : Uuid × Nat)
    (dataSize : Nat)
    (c : Cache) : Option Cache := do
  let (gone, lru) ← c.lruCache.set entry dataSize
  if gone.any (fun e => held = some e.1) then none
  else
    some { c with
      cachingMap := gone.foldl deleteEntryFromCache c.cachingMap
      lruCache := lru }

/- The loop at `currentpos`, which is 32 bits wide. -/
def blockIdsFrom (endpos : Nat) :
    Nat → Nat → Option (List Nat)
| 0, _ => none
| fuel + 1, currentpos =>
    if currentpos < endpos then do
      let ids ← blockIdsFrom endpos fuel
        ((currentpos + blocksize) % 2 ^ 32)
      some (currentpos / blocksize :: ids)
    else some []

/- A loop that ends does so after at most `2 ^ 20` rounds. -/
def getBlockIds
    (input : Jsre.Request) : Option (List Nat) :=
  let realpos := input.position.toNat
  let readsize := input.size.toNat
  if readsize = 0 then some []
  else
    blockIdsFrom ((realpos + readsize) % 2 ^ 32)
      (2 ^ 20 + 1) realpos

/- Where the data of a block begins, in 32 bits. -/
def copyOffset (input : Jsre.Request) (blockId : Nat) : Nat :=
  (blockId + 2 ^ 32 - input.position.toNat / blocksize) %
    2 ^ 32 * blocksize % 2 ^ 32

/- How much of the data belongs to a block, in 32 bits. -/
def copySize (input : Jsre.Request) (blockId : Nat) : Nat :=
  min blocksize
    ((input.size.toNat + 2 ^ 32 - copyOffset input blockId) %
      2 ^ 32)

/- The bytes of a request's data that belong to a block. -/
def toEmplace
    (input : Jsre.Request)
    (data : Bytes)
    (blockId : Nat) : Option Bytes :=
  if copyOffset input blockId + copySize input blockId ≤
      data.length then
    some ((data.drop (copyOffset input blockId)).take
      (copySize input blockId))
  else none

/- The block of a file in a caching map. -/
def blockIn (map : CachingMap) (entry : Uuid × Nat) :
    Option Bytes :=
  (map.lookup entry.1).bind (fun m => m.lookup entry.2)

/- Reads count as uses, unless the policy is `FIFO`. -/
def noteRead
    (uuid : Uuid)
    (blockId : Nat)
    (dataSize : Nat)
    (c : Cache) : Option Cache :=
  if c.evictionPolicy = .FIFO then some c
  else c.set (some uuid) (uuid, blockId) dataSize

/- The loop of `read_from_cache` over the blocks. -/
def readBlocks (uuid : Uuid) :
    List Nat → Bytes → Cache → Option (Option Bytes × Cache)
| [], toReturn, c => some (some toReturn, c)
| blockId :: ids, toReturn, c =>
    match blockIn c.cachingMap (uuid, blockId) with
    | none => some (none, c)
    | some block => do
        let c ← c.noteRead uuid blockId block.length
        readBlocks uuid ids (toReturn ++ block) c

def readFromCache
    (input : Jsre.Request)
    (c : Cache) : Option (Option Bytes × Cache) :=
  match c.cachingMap.lookup input.uuid with
  | none => some (none, c)
  | some _ => do
      let ids ← getBlockIds input
      c.readBlocks input.uuid ids []

/- Add a block to a file, if the file is still cached. -/
def emplaceBlock
    (uuid : Uuid)
    (blockId : Nat)
    (block : Bytes)
    (c : Cache) : Cache :=
  match c.cachingMap.lookup uuid with
  | none => c
  | some blocks =>
      { c with
        cachingMap :=
          c.cachingMap.insert uuid
            (emplace blockId block blocks) }

/- The loop of `write_to_cache` for a file that is cached. -/
def writeBlocks
    (input : Jsre.Request)
    (data : Bytes) :
    List Nat → Cache → Option Cache
| [], c => some c
| blockId :: ids, c => do
    let block ← toEmplace input data blockId
    let c ← c.set none (input.uuid, blockId) block.length
    writeBlocks input data ids
      (c.emplaceBlock input.uuid blockId block)

/- The loop for a new file, which collects its blocks. -/
def collectBlocks
    (input : Jsre.Request)
    (data : Bytes) :
    List Nat → BlockMap → Cache → Option (BlockMap × Cache)
| [], blocks, c => some (blocks, c)
| blockId :: ids, blocks, c => do
    let block ← toEmplace input data blockId
    let c ← c.set none (input.uuid, blockId) block.length
    collectBlocks input data ids
      (emplace blockId block blocks) c

def writeToCache
    (input : Jsre.Request)
    (data : Bytes)
    (c : Cache) : Option Cache := do
  let ids ← getBlockIds input
  match c.cachingMap.lookup input.uuid with
  | some _ => c.writeBlocks input data ids
  | none =>
      let (blocks, c) ← c.collectBlocks input data ids ∅
      some { c with
        cachingMap := emplace input.uuid blocks c.cachingMap }

----------
-- Block Numbers
----------

/- How many blocks a request is cut into. -/
def blockCount (input : Jsre.Request) : Nat :=
  (input.size.toNat + (blocksize - 1)) / blocksize

/-
  The position behind the last block fits into 32 bits, so
  that the loop over the positions ends.
-/
def Ends (input : Jsre.Request) : Prop :=
  input.position.toNat + blocksize * blockCount input < 2 ^ 32

instance (input : Jsre.Request) : Decidable (Ends input) :=
  inferInstanceAs (Decidable (_ < _))

/- The numbers of consecutive blocks. -/
def blockRange (input : Jsre.Request) : List Nat :=
  (List.range (blockCount input)).map
    (fun k => input.position.toNat / blocksize + k)

theorem blockIdsFrom_of_le
    {endpos : Nat} :
    ∀ {n fuel currentpos : Nat},
      n < fuel →
      currentpos + blocksize * n < 2 ^ 32 →
      currentpos + blocksize * n < endpos + blocksize →
      endpos ≤ currentpos + blocksize * n →
        blockIdsFrom endpos fuel currentpos =
          some ((List.range n).map
            (fun k => currentpos / blocksize + k))
| 0, 0, _, hFuel, _, _, _ => by omega
| 0, fuel + 1, currentpos, _, _, _, hEnd => by
    have hNot : ¬ currentpos < endpos := by omega
    simp [blockIdsFrom, hNot]
| n + 1, 0, _, hFuel, _, _, _ => by omega
| n + 1, fuel + 1, currentpos, hFuel, hBound, hLast, hEnd => by
    unfold blocksize at hBound hLast hEnd
    have hLt : currentpos < endpos := by omega
    have hNext :
        (currentpos + blocksize) % 2 ^ 32 =
          currentpos + blocksize := by
      unfold blocksize
      omega
    have hRest :
        blockIdsFrom endpos fuel (currentpos + blocksize) =
          some ((List.range n).map (fun k =>
            (currentpos + blocksize) / blocksize + k)) :=
      blockIdsFrom_of_le
        (by omega) (by unfold blocksize; omega)
        (by unfold blocksize; omega)
        (by unfold blocksize; omega)
    have hDiv :
        (currentpos + blocksize) / blocksize =
          currentpos / blocksize + 1 :=
      Nat.add_div_right _ (by decide)
    rw [blockIdsFrom, if_pos hLt, hNext, hRest, hDiv,
      List.range_succ_eq_map]
    simp [Function.comp_def, Nat.add_assoc, Nat.add_comm 1]

variable {input : Jsre.Request} {uuid : Uuid}

theorem getBlockIds_of_ends
    (h : Ends input) :
    getBlockIds input = some (blockRange input) := by
  unfold Ends at h
  unfold getBlockIds blockRange
  by_cases hZero : input.size.toNat = 0
  · simp [hZero, blockCount, blocksize]
  · have hEnd :
        (input.position.toNat + input.size.toNat) % 2 ^ 32 =
          input.position.toNat + input.size.toNat := by
      unfold blockCount blocksize at h
      omega
    simp only [hZero, if_false, hEnd]
    unfold blockCount blocksize at h ⊢
    refine blockIdsFrom_of_le ?_ ?_ ?_ ?_ <;>
      (try unfold blocksize) <;> omega

/-
  Without the bound the position wraps around and stays
  below the end for ever.
-/
theorem blockIdsFrom_eq_none
    {endpos : Nat}
    {r : Nat}
    (hLast :
      ∀ p, p < 2 ^ 32 → p % blocksize = r → p < endpos) :
    ∀ (fuel : Nat) {currentpos : Nat},
      currentpos < 2 ^ 32 → currentpos % blocksize = r →
        blockIdsFrom endpos fuel currentpos = none
| 0, _, _, _ => rfl
| fuel + 1, currentpos, hLt, hMod => by
    have hNext :
        (currentpos + blocksize) % 2 ^ 32 % blocksize = r := by
      unfold blocksize at hMod ⊢
      omega
    rw [blockIdsFrom, if_pos (hLast _ hLt hMod),
      blockIdsFrom_eq_none hLast fuel
        (Nat.mod_lt _ (by decide)) hNext]
    rfl

/- For requests that end below `2 ^ 32`. -/
theorem getBlockIds_isSome_iff
    (hBound :
      input.position.toNat + input.size.toNat < 2 ^ 32) :
    (getBlockIds input).isSome ↔ Ends input := by
  constructor
  · intro hSome
    by_contra hNot
    unfold Ends blockCount blocksize at hNot
    have hPos := input.position.toNat_lt
    have hNone : getBlockIds input = none := by
      unfold getBlockIds
      rw [if_neg (by omega), Nat.mod_eq_of_lt hBound]
      refine blockIdsFrom_eq_none ?_ _ hPos rfl
      intro p hp hMod
      unfold blocksize at hMod
      omega
    simp [hNone] at hSome
  · intro h
    simp [getBlockIds_of_ends h]

----------
-- Blocks In The Cache
----------

theorem blockIn_insert
    (map : CachingMap)
    (uuid : Uuid)
    (blocks : BlockMap)
    (e : Uuid × Nat) :
    blockIn (map.insert uuid blocks) e =
      if e.1 = uuid then blocks.lookup e.2
      else blockIn map e := by
  by_cases hKey : e.1 = uuid
  · subst hKey
    simp [blockIn]
  · simp [blockIn, hKey]

/- A file whose last block is deleted goes with it. -/
theorem blockIn_delete_same
    {map : CachingMap}
    {blocks : BlockMap}
    (hFile : map.lookup uuid = some blocks)
    (gone blockId : Nat) :
    blockIn (deleteEntryFromCache map (uuid, gone))
        (uuid, blockId) =
      (blocks.erase gone).lookup blockId := by
  unfold deleteEntryFromCache
  simp only [hFile]
  split
  · rename_i hEmpty
    have hNone : blocks.erase gone = ∅ :=
      AList.ext (List.length_eq_zero_iff.mp hEmpty)
    simp [blockIn, hNone]
  · simp [blockIn]

theorem blockIn_delete
    (map : CachingMap)
    (gone e : Uuid × Nat) :
    blockIn (deleteEntryFromCache map gone) e =
      if e = gone then none else blockIn map e := by
  rcases gone with ⟨uuid, blockId⟩
  rcases e with ⟨uuid', blockId'⟩
  cases hFile : map.lookup uuid with
  | none =>
      by_cases hSame : (uuid', blockId') = (uuid, blockId)
      · cases hSame
        simp [deleteEntryFromCache, blockIn, hFile]
      · simp [deleteEntryFromCache, hFile, hSame]
  | some blocks =>
      by_cases hUuid : uuid' = uuid
      · subst hUuid
        rw [blockIn_delete_same hFile]
        by_cases hBlock : blockId' = blockId
        · subst hBlock
          simp
        · simp [AList.lookup_erase_ne hBlock, hBlock, blockIn,
            hFile]
      · simp only [deleteEntryFromCache, hFile, Prod.mk.injEq,
          hUuid, false_and, if_false]
        split <;> simp [blockIn, hUuid]

theorem lookup_delete_none
    {map : CachingMap}
    (h : map.lookup uuid = none)
    (gone : Uuid × Nat) :
    (deleteEntryFromCache map gone).lookup uuid = none := by
  unfold deleteEntryFromCache
  cases hFile : map.lookup gone.1 with
  | none => exact h
  | some blocks =>
      have hNe : uuid ≠ gone.1 := by
        intro hEq
        rw [hEq, hFile] at h
        cases h
      simp only
      split
      · rw [AList.lookup_erase_ne hNe]
        exact h
      · rw [AList.lookup_insert_ne hNe]
        exact h

/- Deleting entries deletes their blocks and no others. -/
theorem blockIn_foldl_delete
    (gone : List (Uuid × Nat))
    (map : CachingMap)
    (e : Uuid × Nat) :
    blockIn (gone.foldl deleteEntryFromCache map) e =
      if e ∈ gone then none else blockIn map e := by
  induction gone generalizing map with
  | nil => simp
  | cons g gone ih =>
      rw [List.foldl_cons, ih, blockIn_delete]
      by_cases hHead : e = g <;> by_cases hTail : e ∈ gone <;>
        simp [hHead, hTail]

theorem lookup_foldl_delete_none
    (gone : List (Uuid × Nat)) :
    ∀ {map : CachingMap}, map.lookup uuid = none →
      (gone.foldl deleteEntryFromCache map).lookup uuid =
        none := by
  induction gone with
  | nil =>
      intro map h
      exact h
  | cons g gone ih =>
      intro map h
      exact ih (lookup_delete_none h g)

----------
-- What The Cache Holds
----------

/-
  Every cached block, and the size of every entry of the
  list of recently used blocks, is one that was left for
  that block; and every cached block is in the list.
-/
structure Sound
    (cachesize : UInt32)
    (left : Uuid × Nat → Bytes → Prop)
    (c : Cache) : Prop where
  cap_eq : c.lruCache.cap = cachesize.toNat
  blocksize_le : blocksize ≤ cachesize.toNat
  consistent : c.lruCache.Consistent
  left_of_block :
    ∀ e block, blockIn c.cachingMap e = some block →
      left e block
  left_of_entry :
    ∀ x ∈ c.lruCache.entries,
      ∃ block, left x.1 block ∧ x.2 = block.length
  entry_of_block :
    ∀ e block, blockIn c.cachingMap e = some block →
      ∃ x ∈ c.lruCache.entries, x.1 = e

variable {cachesize : UInt32}
variable {left : Uuid × Nat → Bytes → Prop}

theorem sound_empty
    (hSize : blocksize ≤ cachesize.toNat)
    (policy : EvictionPolicy) :
    Sound cachesize left (empty cachesize policy) where
  cap_eq := rfl
  blocksize_le := hSize
  consistent := Lru.consistent_empty _
  left_of_block := by simp [empty, blockIn]
  left_of_entry := by simp [empty, Lru.empty]
  entry_of_block := by simp [empty, blockIn]

namespace Sound

variable {c : Cache}

theorem cap_lt
    (h : Sound cachesize left c) :
    c.lruCache.cap < 2 ^ 32 := by
  rw [h.cap_eq]
  exact cachesize.toNat_lt

theorem mono
    {left' : Uuid × Nat → Bytes → Prop}
    (h : Sound cachesize left c)
    (hMore : ∀ e block, left e block → left' e block) :
    Sound cachesize left' c where
  cap_eq := h.cap_eq
  blocksize_le := h.blocksize_le
  consistent := h.consistent
  left_of_block := by
    intro e block hBlock
    exact hMore e block (h.left_of_block e block hBlock)
  left_of_entry := by
    intro x hx
    rcases h.left_of_entry x hx with ⟨block, hLeft, hSize⟩
    exact ⟨block, hMore _ _ hLeft, hSize⟩
  entry_of_block := h.entry_of_block

variable {e : Uuid × Nat}
variable {old kept : List ((Uuid × Nat) × Nat)}
variable {uuid : Uuid} {blocks : BlockMap}
variable {input : Jsre.Request} {data : Bytes}
variable {f : Nat → Bytes}

section

variable (h : Sound cachesize left c)
include h

variable {block : Bytes}

/-
  Noting the use of a block, when the newest entries and the
  block fit together: those entries stay.
-/
theorem set
    (hLeft : left e block)
    (hEntries : c.lruCache.entries = old ++ kept)
    (hKey : ∀ x ∈ kept, x.1 ≠ e)
    (hFits :
      Lru.total kept + block.length ≤ cachesize.toNat) :
    ∃ c' rest, c.set none e block.length = some c' ∧
      Sound cachesize left c' ∧
      c'.lruCache.entries =
        rest ++ kept ++ [(e, block.length)] ∧
      ∀ uuid, c.cachingMap.lookup uuid = none →
        c'.cachingMap.lookup uuid = none := by
  rcases Lru.set_of_fits h.consistent h.cap_lt hEntries hKey
      (h.cap_eq ▸ hFits) with
    ⟨gone, rest, lru, hSet, hCons, hCap, hNew, hRest, hGone⟩
  have hEq : c.set none e block.length =
      some { c with
        cachingMap :=
          gone.foldl deleteEntryFromCache c.cachingMap
        lruCache := lru } := by
    simp [Cache.set, hSet]
  have hOld : ∀ x block,
      blockIn (gone.foldl deleteEntryFromCache c.cachingMap) x =
        some block →
        x ∉ gone ∧ blockIn c.cachingMap x = some block := by
    intro x block hBlock
    rw [blockIn_foldl_delete] at hBlock
    by_cases hx : x ∈ gone
    · simp [hx] at hBlock
    · rw [if_neg hx] at hBlock
      exact ⟨hx, hBlock⟩
  refine ⟨_, rest, hEq,
    ⟨hCap.trans h.cap_eq, h.blocksize_le, hCons, ?_, ?_, ?_⟩,
    hNew,
    fun uuid hNone => lookup_foldl_delete_none gone hNone⟩
  · intro x block hBlock
    exact h.left_of_block x block (hOld x block hBlock).2
  · intro x hx
    simp only [hNew, List.append_assoc, List.mem_append,
      List.mem_singleton] at hx
    rcases hx with hIn | hIn | hIn
    · refine h.left_of_entry x ?_
      rw [hEntries]
      exact List.mem_append_left _ (hRest x hIn)
    · refine h.left_of_entry x ?_
      rw [hEntries]
      exact List.mem_append_right _ hIn
    · subst hIn
      exact ⟨block, hLeft, rfl⟩
  · intro x block hBlock
    rcases hOld x block hBlock with ⟨hStays, hWas⟩
    rcases h.entry_of_block x block hWas with ⟨y, hy, hEqKey⟩
    simp only [hNew, List.append_assoc, List.mem_append,
      List.mem_singleton]
    by_cases hSame : x = e
    · exact ⟨_, Or.inr (Or.inr rfl), hSame.symm⟩
    · refine ⟨y, ?_, hEqKey⟩
      rw [hEntries] at hy
      rcases List.mem_append.mp hy with hIn | hIn
      · rcases hGone y hIn (hEqKey ▸ hSame) with hKeep | hDrop
        · exact Or.inl hKeep
        · exact absurd (hEqKey ▸ hDrop) hStays
      · exact Or.inr (Or.inl hIn)

/-
  Reading a block notes its use and drops nothing, when all
  that was ever left for the block is what is read.
-/
theorem touch
    (hBlock : blockIn c.cachingMap e = some block)
    (hOnly : ∀ b, left e b → b = block)
    (held : Option Uuid) :
    ∃ c', c.set held e block.length = some c' ∧
      Sound cachesize left c' := by
  have hSize :
      ∀ x ∈ c.lruCache.entries, x.1 = e →
        x.2 = block.length := by
    intro x hx hKey
    rcases h.left_of_entry x hx with ⟨b, hLeft, hLength⟩
    rw [hLength, hOnly b (hKey ▸ hLeft)]
  rcases Lru.set_of_mem h.consistent
      (h.entry_of_block e block hBlock) hSize with
    ⟨lru, hSet, hCons, hCap, hNew⟩
  have hEq : c.set held e block.length =
      some { c with lruCache := lru } := by
    simp [Cache.set, hSet]
  refine ⟨_, hEq,
    ⟨hCap.trans h.cap_eq, h.blocksize_le, hCons,
      h.left_of_block, ?_, ?_⟩⟩
  · intro x hx
    simp only [hNew, List.mem_append, List.mem_singleton] at hx
    rcases hx with hIn | hIn
    · exact h.left_of_entry x (List.mem_of_mem_eraseP hIn)
    · subst hIn
      exact ⟨block, h.left_of_block e block hBlock, rfl⟩
  · intro x b hWas
    rcases h.entry_of_block x b hWas with ⟨y, hy, hKey⟩
    simp only [hNew, List.mem_append, List.mem_singleton]
    by_cases hSame : x = e
    · exact ⟨_, Or.inr rfl, hSame.symm⟩
    · refine ⟨y, Or.inl ?_, hKey⟩
      refine (List.mem_eraseP_of_neg ?_).mpr hy
      simpa [hKey] using hSame

theorem noteRead
    {id : Nat}
    (hBlock : blockIn c.cachingMap (uuid, id) = some block)
    (hOnly : ∀ b, left (uuid, id) b → b = block) :
    ∃ c', c.noteRead uuid id block.length = some c' ∧
      Sound cachesize left c' := by
  unfold Cache.noteRead
  by_cases hPolicy : c.evictionPolicy = .FIFO
  · exact ⟨c, if_pos hPolicy, h⟩
  · rw [if_neg hPolicy]
    exact h.touch hBlock hOnly (some uuid)

----------
-- Writing To The Cache
----------

theorem emplaceBlock
    {blockId : Nat}
    (hLeft : left (uuid, blockId) block)
    (hEntry :
      ∃ x ∈ c.lruCache.entries, x.1 = (uuid, blockId)) :
    Sound cachesize left (c.emplaceBlock uuid blockId block) := by
  unfold Cache.emplaceBlock
  cases hFile : c.cachingMap.lookup uuid with
  | none => exact h
  | some blocks =>
      -- a block after the write was there, or is the new one
      have hCases : ∀ e b,
          blockIn (c.cachingMap.insert uuid
            (emplace blockId block blocks)) e = some b →
            blockIn c.cachingMap e = some b ∨
              e = (uuid, blockId) ∧ b = block := by
        intro e b hBlock
        rw [blockIn_insert] at hBlock
        rcases e with ⟨uuid', blockId'⟩
        by_cases hUuid : uuid' = uuid
        · subst hUuid
          rw [if_pos rfl, lookup_emplace] at hBlock
          by_cases hId : blockId' = blockId
          · subst hId
            cases hOld : blocks.lookup blockId' with
            | none =>
                rw [if_pos rfl, hOld] at hBlock
                cases hBlock
                exact Or.inr ⟨rfl, rfl⟩
            | some w =>
                rw [if_pos rfl, hOld] at hBlock
                exact Or.inl (by simpa [blockIn, hFile, hOld]
                  using hBlock)
          · rw [if_neg hId] at hBlock
            exact Or.inl (by simpa [blockIn, hFile] using hBlock)
        · rw [if_neg hUuid] at hBlock
          exact Or.inl hBlock
      refine ⟨h.cap_eq, h.blocksize_le, h.consistent, ?_,
        h.left_of_entry, ?_⟩
      · intro e b hBlock
        rcases hCases e b hBlock with hOld | ⟨hKey, hNew⟩
        · exact h.left_of_block e b hOld
        · rw [hKey, hNew]
          exact hLeft
      · intro e b hBlock
        rcases hCases e b hBlock with hOld | ⟨hKey, _⟩
        · exact h.entry_of_block e b hOld
        · rw [hKey]
          exact hEntry

/- The blocks of a new file. -/
theorem emplaceFile
    (hFile : c.cachingMap.lookup uuid = none)
    (hBlocks :
      ∀ id block, blocks.lookup id = some block →
        left (uuid, id) block ∧
          ∃ x ∈ c.lruCache.entries, x.1 = (uuid, id)) :
    Sound cachesize left
      { c with
        cachingMap := emplace uuid blocks c.cachingMap } := by
  have hCases : ∀ e b,
      blockIn (emplace uuid blocks c.cachingMap) e = some b →
        blockIn c.cachingMap e = some b ∨
          e.1 = uuid ∧ blocks.lookup e.2 = some b := by
    intro e b hBlock
    simp only [emplace, hFile, blockIn_insert] at hBlock
    by_cases hUuid : e.1 = uuid
    · rw [if_pos hUuid] at hBlock
      exact Or.inr ⟨hUuid, hBlock⟩
    · rw [if_neg hUuid] at hBlock
      exact Or.inl hBlock
  refine ⟨h.cap_eq, h.blocksize_le, h.consistent, ?_,
    h.left_of_entry, ?_⟩
  · rintro ⟨uuid', id⟩ b hBlock
    rcases hCases _ b hBlock with hOld | ⟨hUuid, hNew⟩
    · exact h.left_of_block _ b hOld
    · cases hUuid
      exact (hBlocks id b hNew).1
  · rintro ⟨uuid', id⟩ b hBlock
    rcases hCases _ b hBlock with hOld | ⟨hUuid, hNew⟩
    · exact h.entry_of_block _ b hOld
    · cases hUuid
      exact (hBlocks id b hNew).2

variable {ids : List Nat}

/- A file that is cached, block by block. -/
theorem writeBlocks
    (hIds :
      ∀ id ∈ ids,
        toEmplace input data id = some (f id) ∧
          left (input.uuid, id) (f id) ∧
          (f id).length ≤ blocksize) :
    ∃ c', c.writeBlocks input data ids = some c' ∧
      Sound cachesize left c' := by
  induction ids generalizing c with
  | nil => exact ⟨c, rfl, h⟩
  | cons id ids ih =>
      rcases hIds id List.mem_cons_self with
        ⟨hData, hLeft, hLength⟩
      have hFits :
          Lru.total ([] : List ((Uuid × Nat) × Nat)) +
            (f id).length ≤ cachesize.toNat := by
        have hCap := h.blocksize_le
        simp only [Lru.total_nil]
        omega
      rcases h.set hLeft (List.append_nil _).symm (by simp)
          hFits with
        ⟨c₁, rest, hSet, hSound, hEntries, _⟩
      have hEntry :
          ∃ x ∈ c₁.lruCache.entries, x.1 = (input.uuid, id) :=
        ⟨((input.uuid, id), (f id).length),
          by rw [hEntries]; simp, rfl⟩
      rcases ih (hSound.emplaceBlock hLeft hEntry)
          (fun j hj => hIds j (List.mem_cons_of_mem _ hj)) with
        ⟨c', hRest, hEnd⟩
      refine ⟨c', ?_, hEnd⟩
      simp [Cache.writeBlocks, hData, hSet, hRest]

/-
  A new file. Its blocks are in the list of recently used
  ones as long as they fit into the cache together.
-/
theorem collectBlocks
    (hFile : c.cachingMap.lookup input.uuid = none)
    (hNodup : ids.Nodup)
    (hIds :
      ∀ id ∈ ids,
        toEmplace input data id = some (f id) ∧
          left (input.uuid, id) (f id))
    (hEntries : c.lruCache.entries = old ++ kept)
    (hKey :
      ∀ x ∈ kept, ∀ id ∈ ids, x.1 ≠ (input.uuid, id))
    (hFits :
      Lru.total kept + (ids.map (fun id => (f id).length)).sum ≤
        cachesize.toNat)
    (hBlocks :
      ∀ id block, blocks.lookup id = some block →
        left (input.uuid, id) block ∧
          ∃ x ∈ kept, x.1 = (input.uuid, id)) :
    ∃ blocks' c',
      c.collectBlocks input data ids blocks =
        some (blocks', c') ∧
      Sound cachesize left c' ∧
      c'.cachingMap.lookup input.uuid = none ∧
      ∀ id block, blocks'.lookup id = some block →
        left (input.uuid, id) block ∧
          ∃ x ∈ c'.lruCache.entries,
            x.1 = (input.uuid, id) := by
  induction ids generalizing c blocks old kept with
  | nil =>
      refine ⟨blocks, c, rfl, h, hFile, ?_⟩
      intro id block hBlock
      rcases hBlocks id block hBlock with ⟨hLeft, x, hx, hEq⟩
      refine ⟨hLeft, x, ?_, hEq⟩
      rw [hEntries]
      exact List.mem_append_right _ hx
  | cons id ids ih =>
      rcases hIds id List.mem_cons_self with ⟨hData, hLeft⟩
      rcases List.nodup_cons.mp hNodup with ⟨hNotIn, hRestNodup⟩
      simp only [List.map_cons, List.sum_cons] at hFits
      rcases h.set hLeft hEntries
          (fun x hx => hKey x hx id List.mem_cons_self)
          (by omega) with
        ⟨c₁, rest, hSet, hSound, hNew, hNone⟩
      -- the entry just made joins the ones that are kept
      have hNewKey :
          ∀ x ∈ kept ++ [((input.uuid, id), (f id).length)],
            ∀ j ∈ ids, x.1 ≠ (input.uuid, j) := by
        intro x hx j hj
        rcases List.mem_append.mp hx with hIn | hIn
        · exact hKey x hIn j (List.mem_cons_of_mem _ hj)
        · rw [List.mem_singleton.mp hIn]
          intro hEq
          cases hEq
          exact hNotIn hj
      have hNewFits :
          Lru.total (kept ++ [((input.uuid, id), (f id).length)]) +
              (ids.map (fun id => (f id).length)).sum ≤
            cachesize.toNat := by
        simp only [Lru.total_append, Lru.total_cons,
          Lru.total_nil]
        omega
      have hNewBlocks :
          ∀ j block,
            (emplace id (f id) blocks).lookup j = some block →
              left (input.uuid, j) block ∧
                ∃ x ∈ kept ++
                    [((input.uuid, id), (f id).length)],
                  x.1 = (input.uuid, j) := by
        intro j block hBlock
        rw [lookup_emplace] at hBlock
        by_cases hSame : j = id
        · subst hSame
          rw [if_pos rfl] at hBlock
          refine ⟨?_, ((input.uuid, j), (f j).length),
            by simp, rfl⟩
          cases hWas : blocks.lookup j with
          | none =>
              rw [hWas] at hBlock
              cases hBlock
              exact hLeft
          | some w =>
              rw [hWas] at hBlock
              cases hBlock
              exact (hBlocks j w hWas).1
        · rw [if_neg hSame] at hBlock
          rcases hBlocks j block hBlock with ⟨hL, x, hx, hEq⟩
          exact ⟨hL, x, List.mem_append_left _ hx, hEq⟩
      rcases ih hSound (hNone _ hFile) hRestNodup
          (fun j hj => hIds j (List.mem_cons_of_mem _ hj))
          (by rw [hNew, List.append_assoc])
          hNewKey hNewFits hNewBlocks with
        ⟨blocks', c', hCollect, hEnd⟩
      refine ⟨blocks', c', ?_, hEnd⟩
      simp [Cache.collectBlocks, hData, hSet, hCollect]

----------
-- Reading From The Cache
----------

/-
  When only one value was ever left for each block, blocks
  that are found have that value, and reading them ends.
-/
theorem readBlocks
    (hOnly :
      ∀ id ∈ ids, ∀ block, left (uuid, id) block →
        block = f id)
    (toReturn : Bytes) :
    ∃ r c', c.readBlocks uuid ids toReturn = some (r, c') ∧
      Sound cachesize left c' ∧
      ∀ buf, r = some buf →
        buf = toReturn ++ ids.flatMap f := by
  induction ids generalizing c toReturn with
  | nil =>
      refine ⟨some toReturn, c, rfl, h, ?_⟩
      intro buf hBuf
      cases hBuf
      simp
  | cons id ids ih =>
      cases hFind : blockIn c.cachingMap (uuid, id) with
      | none =>
          refine ⟨none, c, ?_, h, by simp⟩
          simp [Cache.readBlocks, hFind]
      | some block =>
          have hBlock := h.left_of_block (uuid, id) block hFind
          have hHead := hOnly id List.mem_cons_self
          have hSame := hHead block hBlock
          rcases h.noteRead hFind
              (fun b hb => (hHead b hb).trans hSame.symm) with
            ⟨c₁, hNote, hSound⟩
          rcases ih hSound
              (fun j hj => hOnly j (List.mem_cons_of_mem _ hj))
              (toReturn ++ block) with
            ⟨r, c', hRest, hEnd, hBuf⟩
          refine ⟨r, c', ?_, hEnd, ?_⟩
          · simp [Cache.readBlocks, hFind, hNote, hRest]
          · intro buf hr
            rw [hBuf buf hr, List.flatMap_cons, hSame,
              List.append_assoc]

end

end Sound

end Cache

end Slfs
