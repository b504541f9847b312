import Slfs.DataFunction.CacheHandover
import Slfs.Lib.Delimited

/-
  What the proxy takes from the tables of a data function.

  When a data function closes, the proxy notes which files
  its tables speak of. It takes the 32 bytes of a key, and
  looks for the next space, which may be one of the bytes of a
  block number or a size.

  Main declarations:
    * `Proxy.getFileidsFromTransfer`
    * `Proxy.fileids_iff`
-/

----------
-- The Files Of A Table
----------

namespace Slfs

namespace Proxy

/- The keys, or nothing if one would reach beyond the end. -/
def getFileidsFromTransfer
    (cacheTable : Bytes) : Option (List Uuid) :=
  (Delimited.readKeys 32 Mark.space cacheTable).map
    (fun keys => keys.map (Wire.Codec.array 32).decode)

end Proxy

namespace Cache

/- The keys of the records of a table. -/
def recordKeys (files : Listing) (c : Cache) : List Uuid :=
  files.map Prod.fst ++
    c.lruCache.entries.map (fun entry => entry.1.1)

/- No byte of a number is a space. -/
def Spaceless (n : Nat) : Prop :=
  Mark.space ∉ number n

instance (n : Nat) : Decidable (Spaceless n) :=
  inferInstanceAs (Decidable (¬ _))

----------
-- Records
----------

open Delimited (Record)

def asRecord
    (file : Uuid × List (Nat × Bytes)) : Record UInt8 :=
  { key := file.1.toList
    body := Mark.colon :: blockFields file.2 }

def entryAsRecord
    (entry : (Uuid × Nat) × Nat) : Record UInt8 :=
  { key := entry.1.1.toList
    body :=
      Mark.dot :: (number entry.1.2 ++ number entry.2) }

/- The records of a table. -/
def asRecords (files : Listing) (c : Cache) :
    List (Record UInt8) :=
  files.map asRecord ++ c.lruCache.entries.map entryAsRecord

theorem eraseMetrics_asRecords
    (files : Listing)
    (cacheHits evictions : Nat)
    (c : Cache) :
    eraseMetrics (c.getTables files cacheHits evictions) =
      (asRecords files c).flatMap (Record.write Mark.space) := by
  rw [eraseMetrics_getTables, asRecords, List.flatMap_append,
    List.flatMap_map, List.flatMap_map]
  rfl

theorem space_notMem_blockFields
    (blocks : List (Nat × Bytes)) :
    Mark.space ∉ blockFields blocks ↔
      ∀ block ∈ blocks,
        Spaceless block.1 ∧ Spaceless block.2.length := by
  induction blocks using blockFields.induct with
  | case1 => simp [blockFields]
  | case2 block =>
      simp [blockFields, blockField, Spaceless]
  | case3 block next blocks ih =>
      rw [List.forall_mem_cons, ← ih, blockFields]
      simp only [List.mem_append, List.mem_cons, not_or,
        blockField, Spaceless]
      have hComma : Mark.space ≠ Mark.comma := by decide
      simp only [hComma, not_false_eq_true, true_and]

variable {files : Listing}

/- A cached block is in the listing of its file. -/
theorem Lists.mem_of_blockIn
    {map : CachingMap}
    (h : Lists files map)
    {e : Uuid × Nat}
    {block : Bytes}
    (hBlock : blockIn map e = some block) :
    ∃ file ∈ files, (e.2, block) ∈ file.2 := by
  rcases Option.bind_eq_some_iff.mp hBlock with
    ⟨blocks, hFile, hLookup⟩
  rcases h.listed hFile with ⟨file, hIn, _, hPerm⟩
  refine ⟨file, hIn, hPerm.mem_iff.mpr ?_⟩
  exact List.mem_map.mpr
    ⟨⟨e.2, block⟩, AList.mem_lookup_iff.mp hLookup, rfl⟩

/- What the records of a table have behind their keys. -/
theorem space_notMem_bodies
    {c : Cache}
    (h : Lists files c.cachingMap) :
    (∀ r ∈ asRecords files c, Mark.space ∉ r.body) ↔
      (∀ e block, blockIn c.cachingMap e = some block →
          Spaceless e.2 ∧ Spaceless block.length) ∧
        ∀ x ∈ c.lruCache.entries,
          Spaceless x.1.2 ∧ Spaceless x.2 := by
  have hColon : Mark.space ≠ Mark.colon := by decide
  have hDot : Mark.space ≠ Mark.dot := by decide
  have hFile :
      ∀ file : Uuid × List (Nat × Bytes),
        Mark.space ∉ (asRecord file).body ↔
          ∀ block ∈ file.2,
            Spaceless block.1 ∧ Spaceless block.2.length := by
    intro file
    rw [← space_notMem_blockFields]
    simp [asRecord, hColon]
  have hEntry :
      ∀ x : (Uuid × Nat) × Nat,
        Mark.space ∉ (entryAsRecord x).body ↔
          Spaceless x.1.2 ∧ Spaceless x.2 := by
    intro x
    simp [entryAsRecord, hDot, Spaceless]
  rw [asRecords, List.forall_mem_append, List.forall_mem_map,
    List.forall_mem_map]
  simp only [hFile, hEntry]
  refine and_congr_left' ⟨?_, ?_⟩
  · intro hFiles e block hBlock
    rcases h.mem_of_blockIn hBlock with ⟨file, hIn, hMem⟩
    exact hFiles file hIn (e.2, block) hMem
  · intro hBlocks file hIn block hMem
    exact hBlocks (file.1, block.1) block.2
      (h.block hIn hMem)

end Cache

----------
-- The Keys That Are Found
----------

namespace Proxy

open Cache (Listing Lists Spaceless asRecords recordKeys blockIn)

/- The bytes of a key that was read. -/
theorem toList_decode
    {n : Nat}
    {bytes : List UInt8}
    (h : bytes.length = n) :
    ((Wire.Codec.array n).decode bytes).toList = bytes := by
  subst h
  apply List.ext_getElem
  · simp
  · intro i _ _
    simp [Wire.Codec.array]

theorem getFileidsFromTransfer_iff
    {cacheTable : Bytes}
    {keys : List Uuid} :
    getFileidsFromTransfer cacheTable = some keys ↔
      Delimited.readKeys 32 Mark.space cacheTable =
        some (keys.map Vector.toList) := by
  rw [getFileidsFromTransfer, Option.map_eq_some_iff]
  constructor
  · rintro ⟨found, hRead, hEq⟩
    have hLength := Delimited.length_of_readUpTo hRead
    have hFound :
        (found.map (Wire.Codec.array 32).decode).map
          Vector.toList = found := by
      rw [List.map_map]
      conv_rhs => rw [← List.map_id found]
      apply List.map_congr_left
      intro key hKey
      exact toList_decode (hLength key hKey)
    rw [hRead, ← hEq, hFound]
  · intro hRead
    refine ⟨_, hRead, ?_⟩
    rw [List.map_map]
    conv_rhs => rw [← List.map_id keys]
    apply List.map_congr_left
    intro key _
    exact (Wire.Codec.array 32).decode_encode key

/-
  The proxy finds the keys of the records exactly when no
  block number and no size has a space among its bytes.
-/
theorem fileids_iff
    {files : Listing}
    {c : Cache}
    (hFiles : Lists files c.cachingMap)
    (cacheHits evictions : Nat) :
    getFileidsFromTransfer
        (eraseMetrics
          (c.getTables files cacheHits evictions)) =
      some (recordKeys files c) ↔
        (∀ e block, blockIn c.cachingMap e = some block →
            Spaceless e.2 ∧ Spaceless block.length) ∧
          ∀ x ∈ c.lruCache.entries,
            Spaceless x.1.2 ∧ Spaceless x.2 := by
  have hWidth :
      ∀ r ∈ asRecords files c, r.key.length = 32 := by
    intro r hr
    rcases List.mem_append.mp hr with hIn | hIn
    · rcases List.mem_map.mp hIn with ⟨file, _, hEq⟩
      rw [← hEq]
      exact Vector.length_toList
    · rcases List.mem_map.mp hIn with ⟨entry, _, hEq⟩
      rw [← hEq]
      exact Vector.length_toList
  have hKeys :
      (asRecords files c).map Delimited.Record.key =
        (recordKeys files c).map Vector.toList := by
    simp only [asRecords, recordKeys, List.map_append,
      List.map_map]
    rfl
  rw [getFileidsFromTransfer_iff, Cache.eraseMetrics_asRecords,
    ← hKeys, Delimited.readKeys_iff hWidth,
    Cache.space_notMem_bodies hFiles]

open Cache (lists_sampleCache sampleBlock sampleCache sampleWrite)

/- Block 0 of three bytes, and the entry for it. -/
theorem fileids_of_block :
    getFileidsFromTransfer
        (eraseMetrics
          ((sampleBlock (Vector.replicate 32 7)).getTables
            [(Vector.replicate 32 7, [(0, [1, 2, 3])])]
            0 0)) =
      some [Vector.replicate 32 7, Vector.replicate 32 7] := by
  have hFiles := lists_sampleCache (Vector.replicate 32 7)
    ((∅ : BlockMap).insert 0 [1, 2, 3])
    [((Vector.replicate 32 7, 0), 3)]
  refine (fileids_iff hFiles 0 0).mpr ⟨?_, ?_⟩
  · rintro ⟨uuid, id⟩ block hBlock
    rcases hFiles.mem_of_blockIn hBlock with
      ⟨file, hFile, hMem⟩
    rw [List.mem_singleton.mp hFile] at hMem
    cases List.mem_singleton.mp hMem
    exact (by decide : Spaceless 0 ∧ Spaceless 3)
  · intro x hx
    rw [List.mem_singleton.mp hx]
    decide

/-
  A block of 32 bytes: its size is taken for the end of the
  record, and the last key reaches beyond the table.
-/
theorem fileids_of_block_of_spaces :
    Transition.run Cache.call (Cache.empty 8192 .LRU)
          [sampleWrite (Vector.replicate 32 7)
            (List.replicate 32 0)] =
        some (sampleCache (Vector.replicate 32 7)
          ((∅ : BlockMap).insert 0 (List.replicate 32 0))
          [((Vector.replicate 32 7, 0), 32)]) ∧
      Lists
        [(Vector.replicate 32 7, [(0, List.replicate 32 0)])]
        (sampleCache (Vector.replicate 32 7)
          ((∅ : BlockMap).insert 0 (List.replicate 32 0))
          [((Vector.replicate 32 7, 0), 32)]).cachingMap ∧
      getFileidsFromTransfer
          (eraseMetrics
            ((sampleCache (Vector.replicate 32 7)
              ((∅ : BlockMap).insert 0 (List.replicate 32 0))
              [((Vector.replicate 32 7, 0), 32)]).getTables
                [(Vector.replicate 32 7,
                  [(0, List.replicate 32 0)])] 0 0)) =
        none := by
  exact ⟨rfl, lists_sampleCache _ _ _, by decide +kernel⟩

end Proxy

end Slfs
