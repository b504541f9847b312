import Mathlib.Data.List.Infix
import Slfs.DataFunction.CacheFill

/-
  The cache and its list of recently used blocks.

  The two are kept in step by hand. A write that gives a
  cached block another length, a new file that is larger than
  the cache, and a file that is dropped to make room for its
  own next block leave them different.

  Main declarations:
    * `Cache.KeepsIndex`, a condition on calls
    * `Cache.index_matches_of_run`
-/

----------
-- Blocks And Entries
----------

namespace Slfs

open Transition

namespace Cache

/-
  Every block has an entry with its length, and every entry
  has a block.
-/
structure Indexed (c : Cache) : Prop where
  entry :
    ∀ e b, blockIn c.cachingMap e = some b →
      (e, b.length) ∈ c.lruCache.entries
  block :
    ∀ x ∈ c.lruCache.entries,
      ∃ b, blockIn c.cachingMap x.1 = some b

/- The lengths of all blocks together. -/
def cachedBytes (c : Cache) : Nat :=
  ((triples (listing c.cachingMap)).map
    (fun t => t.2.2)).sum

/-
  Every block has exactly one entry, which has its length,
  every entry has its block, and the blocks fit together.
-/
structure IndexMatches
    (cachesize : UInt32)
    (c : Cache) : Prop where
  entry :
    ∀ e b, blockIn c.cachingMap e = some b →
      c.lruCache.entries.filter (fun x => x.1 = e) =
        [(e, b.length)]
  block :
    ∀ x ∈ c.lruCache.entries,
      ∃ b, blockIn c.cachingMap x.1 = some b ∧
        b.length = x.2
  bytes : c.cachedBytes ≤ cachesize.toNat

theorem indexed_empty
    (cachesize : UInt32)
    (policy : EvictionPolicy) :
    Indexed (empty cachesize policy) where
  entry := by simp [empty, blockIn]
  block := by simp [empty, Lru.empty]

/- A key has one entry. -/
theorem filter_eq_singleton
    {κ : Type}
    [DecidableEq κ]
    {entries : List (κ × Nat)}
    (hNodup : (entries.map Prod.fst).Nodup)
    {e : κ}
    {n : Nat}
    (hMem : (e, n) ∈ entries) :
    entries.filter (fun x => x.1 = e) = [(e, n)] := by
  rcases List.append_of_mem hMem with ⟨before, after, hEq⟩
  subst hEq
  rw [List.map_append, List.map_cons, List.nodup_append,
    List.nodup_cons] at hNodup
  rcases hNodup with ⟨_, ⟨hAfter, _⟩, hApart⟩
  have hNone :
      ∀ l : List (κ × Nat), e ∉ l.map Prod.fst →
        l.filter (fun x => x.1 = e) = [] := by
    intro l hNot
    rw [List.filter_eq_nil_iff]
    intro x hx hKey
    exact hNot (List.mem_map.mpr
      ⟨x, hx, of_decide_eq_true hKey⟩)
  have hBefore : e ∉ before.map Prod.fst := by
    intro hIn
    exact hApart e hIn e List.mem_cons_self rfl
  rw [List.filter_append, List.filter_cons_of_pos (by simp),
    hNone before hBefore, hNone after hAfter, List.nil_append]

/- The entry of a key is determined. -/
theorem entry_unique
    {κ : Type}
    {entries : List (κ × Nat)}
    (hNodup : (entries.map Prod.fst).Nodup)
    {x y : κ × Nat}
    (hx : x ∈ entries)
    (hy : y ∈ entries)
    (hKey : x.1 = y.1) :
    x = y :=
  List.inj_on_of_nodup_map hNodup hx hy hKey

/- A block of the map is listed once. -/
theorem nodup_triples
    (map : CachingMap) :
    ((triples (listing map)).map
      (fun t => ((t.1, t.2.1), t.2.2))).Nodup := by
  have hFlat :
      (triples (listing map)).map
          (fun t => ((t.1, t.2.1), t.2.2)) =
        map.entries.flatMap (fun file =>
          file.2.entries.map (fun block =>
            ((file.1, block.1), block.2.length))) := by
    simp [triples, listing, List.map_flatMap, List.flatMap_map,
      Function.comp_def]
  rw [hFlat, List.nodup_flatMap]
  constructor
  · intro file _
    have hKeys : file.2.entries.keys.Nodup :=
      file.2.nodupKeys
    apply List.Nodup.of_map (fun t => t.1.2)
    simpa [List.keys, Function.comp_def] using hKeys
  · have hFiles : map.entries.keys.Nodup := map.nodupKeys
    rw [List.keys, List.Nodup, List.pairwise_map] at hFiles
    apply hFiles.imp
    intro file file' hNe t hFirst hSecond
    rcases List.mem_map.mp hFirst with ⟨block, _, hEq⟩
    rcases List.mem_map.mp hSecond with ⟨block', _, hEq'⟩
    rw [← hEq'] at hEq
    simp only [Prod.mk.injEq] at hEq
    exact hNe hEq.1.1

/- The blocks are no longer together than their entries. -/
theorem Indexed.cachedBytes_le
    {c : Cache}
    (h : Indexed c) :
    c.cachedBytes ≤ Lru.total c.lruCache.entries := by
  have hSub :
      (triples (listing c.cachingMap)).map
          (fun t => ((t.1, t.2.1), t.2.2)) ⊆
        c.lruCache.entries := by
    intro x hx
    rcases List.mem_map.mp hx with ⟨⟨uuid, id, n⟩, ht, hEq⟩
    rcases List.mem_flatMap.mp ht with ⟨file, hFile, hBlock⟩
    rcases List.mem_map.mp hBlock with ⟨⟨j, b⟩, hb, hTriple⟩
    rcases List.mem_map.mp hFile with
      ⟨⟨key, blocks⟩, hMem, hListed⟩
    subst hListed
    rcases List.mem_map.mp hb with ⟨⟨i, bytes⟩, hIn, hPair⟩
    cases hPair
    cases hTriple
    subst hEq
    have hLookup : c.cachingMap.lookup key = some blocks :=
      AList.mem_lookup_iff.mpr hMem
    have hFound : blocks.lookup i = some bytes :=
      AList.mem_lookup_iff.mpr hIn
    exact h.entry (key, i) bytes
      (by simp [blockIn, hLookup, hFound])
  rcases (nodup_triples c.cachingMap).subperm hSub with
    ⟨listed, hPerm, hSublist⟩
  rcases hSublist.exists_perm_append with ⟨rest, hRest⟩
  have hBytes :
      c.cachedBytes =
        Lru.total ((triples (listing c.cachingMap)).map
          (fun t => ((t.1, t.2.1), t.2.2))) := by
    simp [cachedBytes, Lru.total, Function.comp_def]
  rw [Lru.total_of_perm hRest, Lru.total_append, hBytes,
    Lru.total_of_perm hPerm]
  omega

/- A cache with a matching index. -/
theorem Indexed.matches
    {cachesize : UInt32}
    {c : Cache}
    (h : Indexed c)
    (hBounded : Bounded cachesize c)
    (hRoom : cachesize.toNat + blocksize < 2 ^ 32) :
    IndexMatches cachesize c where
  entry := by
    intro e b hBlock
    exact filter_eq_singleton hBounded.nodup
      (h.entry e b hBlock)
  block := by
    intro x hx
    rcases h.block x hx with ⟨b, hBlock⟩
    have hSame := entry_unique hBounded.nodup
      (h.entry x.1 b hBlock) hx rfl
    exact ⟨b, hBlock, congrArg Prod.snd hSame⟩
  bytes := by
    have hTotal := hBounded.total_le hRoom
    have hBytes := h.cachedBytes_le
    omega

----------
-- Noting A Use
----------

/-
  What noting the use of a block does: some other blocks go
  together with their entries, and the block has an entry.
-/
structure Sets
    (c : Cache)
    (e : Uuid × Nat)
    (size : Nat)
    (gone : List (Uuid × Nat))
    (c' : Cache) : Prop where
  map :
    c'.cachingMap =
      gone.foldl deleteEntryFromCache c.cachingMap
  new : (e, size) ∈ c'.lruCache.entries
  other : ∀ x ∈ gone, x ≠ e
  dropped : ∀ x ∈ gone, x ∉ c'.lruCache.entries.map Prod.fst
  listed :
    ∀ x ∈ gone, x ∈ c.lruCache.entries.map Prod.fst
  stays :
    ∀ x ∈ c.lruCache.entries, x.1 ≠ e →
      x ∈ c'.lruCache.entries ∨ x.1 ∈ gone
  before :
    ∀ x ∈ c'.lruCache.entries, x.1 ≠ e →
      x ∈ c.lruCache.entries

variable {cachesize : UInt32} {c c' : Cache}
variable {held : Option Uuid} {e : Uuid × Nat}
variable {size : Nat} {gone : List (Uuid × Nat)}

theorem sets_of_set
    (h : Bounded cachesize c)
    (hSize : size ≤ blocksize)
    (hSet : c.set held e size = some c') :
    ∃ gone, Sets c e size gone c' := by
  rcases set_cases hSet with ⟨gone, lru, hLru, hEq⟩
  subst hEq
  have hSmall : size < 2 ^ 32 := by
    simp only [blocksize] at hSize
    omega
  rcases Lru.set_spec h.consistent hSmall hLru with
    ⟨old, rest, hErase, hGone, hNew, _, _, _⟩
  have hOthers := Lru.nodup_eraseP h.nodup e
  rw [hErase] at hOthers
  rcases hOthers with ⟨hKept, hNone⟩
  -- the key that is set is not among the others
  have hKey : ∀ x ∈ old ++ rest, x.1 ≠ e := by
    intro x hx hSame
    exact hNone (List.mem_map.mpr ⟨x, hx, hSame⟩)
  have hMem :
      ∀ x ∈ old ++ rest, x ∈ c.lruCache.entries := by
    intro x hx
    rw [← hErase] at hx
    exact List.mem_of_mem_eraseP hx
  refine ⟨gone,
    { map := rfl
      new := ?_
      other := ?_
      dropped := ?_
      listed := ?_
      stays := ?_
      before := ?_ }⟩
  · rw [hNew]
    simp
  · intro x hx
    rw [hGone] at hx
    rcases List.mem_map.mp hx with ⟨y, hy, hEq⟩
    rw [← hEq]
    exact hKey y (List.mem_append_left _ hy)
  · intro x hx hIn
    rw [hGone] at hx
    rw [hNew, List.map_append, List.mem_append] at hIn
    rcases hIn with hIn | hIn
    · rw [List.map_append] at hKept
      exact (List.nodup_append.mp hKept).2.2 x hx x hIn rfl
    · rcases List.mem_map.mp hx with ⟨y, hy, hEq⟩
      have hSame : x = e := by simpa using hIn
      exact hKey y (List.mem_append_left _ hy)
        (hEq.trans hSame)
  · intro x hx
    rw [hGone] at hx
    rcases List.mem_map.mp hx with ⟨y, hy, hEq⟩
    exact List.mem_map.mpr
      ⟨y, hMem y (List.mem_append_left _ hy), hEq⟩
  · intro x hx hNe
    have hIn : x ∈ old ++ rest := by
      rw [← hErase]
      exact (List.mem_eraseP_of_neg (by simpa using hNe)).mpr hx
    rcases List.mem_append.mp hIn with hOld | hRest
    · rw [hGone]
      exact Or.inr (List.mem_map_of_mem hOld)
    · rw [hNew]
      exact Or.inl (List.mem_append_left _ hRest)
  · intro x hx hNe
    rw [hNew] at hx
    rcases List.mem_append.mp hx with hRest | hLast
    · exact hMem x (List.mem_append_right _ hRest)
    · rw [List.mem_singleton.mp hLast] at hNe
      exact absurd rfl hNe

/- The entries at the new end that fit stay there. -/
theorem entries_of_set
    (h : Bounded cachesize c)
    {old kept : List ((Uuid × Nat) × Nat)}
    (hEntries : c.lruCache.entries = old ++ kept)
    (hKey : ∀ x ∈ kept, x.1 ≠ e)
    (hFits : Lru.total kept + size ≤ cachesize.toNat)
    (hSet : c.set held e size = some c') :
    ∃ rest,
      c'.lruCache.entries = rest ++ (kept ++ [(e, size)]) := by
  have hCap : c.lruCache.cap < 2 ^ 32 := by
    rw [h.cap_eq]
    exact cachesize.toNat_lt
  rcases set_cases hSet with ⟨gone, lru, hLru, hEq⟩
  rcases Lru.set_of_fits h.consistent hCap hEntries hKey
      (h.cap_eq ▸ hFits) with
    ⟨gone', rest, lru', hLru', _, _, hNew, _⟩
  rw [hLru] at hLru'
  cases hLru'
  subst hEq
  exact ⟨rest, by rw [← List.append_assoc]; exact hNew⟩

namespace Sets

theorem blockIn_eq
    (h : Sets c e size gone c')
    (x : Uuid × Nat) :
    blockIn c'.cachingMap x =
      if x ∈ gone then none else blockIn c.cachingMap x := by
  rw [h.map]
  exact blockIn_foldl_delete gone c.cachingMap x

variable {x : Uuid × Nat} {b : Bytes}

section

variable (h : Sets c e size gone c')
include h

/- What is cached was cached before. -/
theorem blockIn_before
    (hBlock : blockIn c'.cachingMap x = some b) :
    x ∉ gone ∧ blockIn c.cachingMap x = some b := by
  rw [h.blockIn_eq] at hBlock
  by_cases hx : x ∈ gone
  · rw [if_pos hx] at hBlock
    cases hBlock
  · rw [if_neg hx] at hBlock
    exact ⟨hx, hBlock⟩

/- The block itself is left as it is. -/
theorem blockIn_self :
    blockIn c'.cachingMap e = blockIn c.cachingMap e := by
  have hNot : e ∉ gone := fun hIn => h.other e hIn rfl
  rw [h.blockIn_eq, if_neg hNot]

/- A block with an entry that stays is still cached. -/
theorem blockIn_of_listed
    {x : (Uuid × Nat) × Nat}
    (hx : x ∈ c'.lruCache.entries) :
    blockIn c'.cachingMap x.1 = blockIn c.cachingMap x.1 := by
  have hNot : x.1 ∉ gone := fun hIn =>
    h.dropped _ hIn (List.mem_map_of_mem hx)
  rw [h.blockIn_eq, if_neg hNot]

/- The other blocks and entries still belong together. -/
theorem entry_of_block
    (hIndexed : Indexed c)
    (hNe : x ≠ e)
    (hBlock : blockIn c'.cachingMap x = some b) :
    (x, b.length) ∈ c'.lruCache.entries := by
  rcases h.blockIn_before hBlock with ⟨hNot, hWas⟩
  rcases h.stays _ (hIndexed.entry x b hWas) hNe with
    hIn | hGone
  · exact hIn
  · exact absurd hGone hNot

theorem block_of_entry
    (hIndexed : Indexed c)
    {x : (Uuid × Nat) × Nat}
    (hNe : x.1 ≠ e)
    (hx : x ∈ c'.lruCache.entries) :
    ∃ b, blockIn c'.cachingMap x.1 = some b := by
  rw [h.blockIn_of_listed hx]
  exact hIndexed.block x (h.before x hx hNe)

/- Noting the use of a cached block keeps the index. -/
theorem indexed
    (hIndexed : Indexed c)
    (hBlock : blockIn c.cachingMap e = some b)
    (hLength : b.length = size) :
    Indexed c' := by
  constructor
  · intro x b' hBlock'
    by_cases hSame : x = e
    · subst hSame
      rw [h.blockIn_self, hBlock] at hBlock'
      cases hBlock'
      rw [hLength]
      exact h.new
    · exact h.entry_of_block hIndexed hSame hBlock'
  · intro x hx
    by_cases hSame : x.1 = e
    · rw [hSame, h.blockIn_self]
      exact ⟨b, hBlock⟩
    · exact h.block_of_entry hIndexed hSame hx

end

end Sets

----------
-- Files That Stay Cached
----------

/-
  Making room for a block leaves something of its file: none
  of the file is in the list, or there are newest entries,
  among them one of the file, that fit together with it.
-/
def Survives (c : Cache) (uuid : Uuid) (size : Nat) : Prop :=
  (∀ x ∈ c.lruCache.entries, x.1.1 ≠ uuid) ∨
    ∃ kept ∈ c.lruCache.entries.tails,
      (∃ x ∈ kept, x.1.1 = uuid) ∧
        Lru.total kept + size ≤ c.lruCache.cap

instance (c : Cache) (uuid : Uuid) (size : Nat) :
    Decidable (Survives c uuid size) := by
  unfold Survives
  infer_instance

theorem lookup_isSome_of_blockIn
    {map : CachingMap}
    {x : Uuid × Nat}
    {b : Bytes}
    (h : blockIn map x = some b) :
    (map.lookup x.1).isSome := by
  rcases Option.bind_eq_some_iff.mp h with ⟨blocks, hFile, _⟩
  rw [hFile]
  rfl

variable {uuid : Uuid} {id : Nat}
variable {kept : List ((Uuid × Nat) × Nat)}

/- Deleting blocks of other files. -/
theorem lookup_foldl_delete_of_ne
    {gone : List (Uuid × Nat)}
    (hOther : ∀ x ∈ gone, x.1 ≠ uuid)
    (map : CachingMap) :
    (gone.foldl deleteEntryFromCache map).lookup uuid =
      map.lookup uuid := by
  induction gone generalizing map with
  | nil => rfl
  | cons g gone ih =>
      rw [List.forall_mem_cons] at hOther
      rw [List.foldl_cons, ih hOther.2]
      have hNe : uuid ≠ g.1 := fun h => hOther.1 h.symm
      unfold deleteEntryFromCache
      cases map.lookup g.1 with
      | none => rfl
      | some blocks =>
          simp only
          split
          · rw [AList.lookup_erase_ne hNe]
          · rw [AList.lookup_insert_ne hNe]

/- A file of which a block is cached, or something survives. -/
theorem lookup_isSome_of_survives
    (h : Bounded cachesize c)
    (hIndexed : Indexed c)
    (hFile : (c.cachingMap.lookup e.1).isSome)
    (hSurvives :
      blockIn c.cachingMap e = none → Survives c e.1 size)
    (hSet : c.set held e size = some c')
    (hSets : Sets c e size gone c') :
    (c'.cachingMap.lookup e.1).isSome := by
  cases hBlock : blockIn c.cachingMap e with
  | some b =>
      rw [← hSets.blockIn_self] at hBlock
      exact lookup_isSome_of_blockIn hBlock
  | none =>
      rcases hSurvives hBlock with
        hNone | ⟨kept, hTail, ⟨x, hx, hUuid⟩, hFits⟩
      · rw [hSets.map, lookup_foldl_delete_of_ne]
        · exact hFile
        · intro y hy hEq
          rcases List.mem_map.mp (hSets.listed y hy) with
            ⟨z, hz, hKey⟩
          exact hNone z hz (by rw [hKey]; exact hEq)
      · rcases (List.mem_tails _ _).mp hTail with ⟨old, hOld⟩
        have hKey : ∀ y ∈ kept, y.1 ≠ e := by
          intro y hy hEq
          have hIn : y ∈ c.lruCache.entries := by
            rw [← hOld]
            exact List.mem_append_right _ hy
          rcases hIndexed.block y hIn with ⟨b, hb⟩
          rw [hEq, hBlock] at hb
          cases hb
        rcases entries_of_set h hOld.symm hKey
            (h.cap_eq ▸ hFits) hSet with
          ⟨rest, hEntries⟩
        have hStays : x ∈ c'.lruCache.entries := by
          rw [hEntries]
          exact List.mem_append_right _
            (List.mem_append_left _ hx)
        rcases hSets.block_of_entry hIndexed (hKey x hx)
            hStays with
          ⟨b, hb⟩
        rw [← hUuid]
        exact lookup_isSome_of_blockIn hb

variable {block : Bytes}

/- A block is added to a file that is cached. -/
theorem blockIn_emplaceBlock
    (hFile : (c.cachingMap.lookup uuid).isSome)
    (x : Uuid × Nat) :
    blockIn (c.emplaceBlock uuid id block).cachingMap x =
      if x = (uuid, id) then
        some ((blockIn c.cachingMap (uuid, id)).getD block)
      else blockIn c.cachingMap x := by
  rcases Option.isSome_iff_exists.mp hFile with
    ⟨blocks, hBlocks⟩
  unfold emplaceBlock
  rw [hBlocks]
  simp only
  rcases x with ⟨uuid', id'⟩
  rw [blockIn_insert]
  by_cases hUuid : uuid' = uuid
  · subst hUuid
    rw [if_pos rfl, lookup_emplace]
    by_cases hId : id' = id
    · simp [hId, blockIn, hBlocks]
    · simp [hId, blockIn, hBlocks]
  · simp [hUuid]

@[simp] theorem lruCache_emplaceBlock
    (uuid : Uuid)
    (id : Nat)
    (block : Bytes) :
    (c.emplaceBlock uuid id block).lruCache = c.lruCache := by
  unfold emplaceBlock
  split
  · rfl
  · rfl

theorem lookup_emplaceBlock_isSome
    (id : Nat)
    (block : Bytes)
    (uuid' : Uuid) :
    ((c.emplaceBlock uuid id block).cachingMap.lookup
        uuid').isSome =
      (c.cachingMap.lookup uuid').isSome := by
  unfold emplaceBlock
  cases hFile : c.cachingMap.lookup uuid with
  | none => rfl
  | some blocks =>
      simp only
      by_cases hUuid : uuid' = uuid
      · subst hUuid
        rw [AList.lookup_insert, hFile]
        rfl
      · rw [AList.lookup_insert_ne hUuid]

/- A use is noted, and the block is added to its file. -/
theorem Sets.indexed_emplaceBlock
    (h : Sets c e block.length gone c')
    (hIndexed : Indexed c)
    (hFile : (c'.cachingMap.lookup e.1).isSome)
    (hLength :
      ∀ b, blockIn c.cachingMap e = some b →
        b.length = block.length) :
    Indexed (c'.emplaceBlock e.1 e.2 block) := by
  have hBlockIn :
      ∀ x,
        blockIn (c'.emplaceBlock e.1 e.2 block).cachingMap x =
          if x = e then
            some ((blockIn c'.cachingMap e).getD block)
          else blockIn c'.cachingMap x :=
    blockIn_emplaceBlock hFile
  constructor
  · intro x b hBlock
    rw [lruCache_emplaceBlock]
    rw [hBlockIn, h.blockIn_self] at hBlock
    by_cases hSame : x = e
    · subst hSame
      rw [if_pos rfl] at hBlock
      cases hOld : blockIn c.cachingMap x with
      | none =>
          rw [hOld] at hBlock
          cases hBlock
          exact h.new
      | some b' =>
          rw [hOld] at hBlock
          cases hBlock
          rw [Option.getD_some, hLength b' hOld]
          exact h.new
    · rw [if_neg hSame] at hBlock
      exact h.entry_of_block hIndexed hSame hBlock
  · intro x hx
    rw [lruCache_emplaceBlock] at hx
    rw [hBlockIn]
    by_cases hSame : x.1 = e
    · rw [if_pos hSame]
      exact ⟨_, rfl⟩
    · rw [if_neg hSame]
      exact h.block_of_entry hIndexed hSame hx

----------
-- Writing
----------

variable {input : Jsre.Request} {data : Bytes}

theorem length_toEmplace
    (h : toEmplace input data id = some block) :
    block.length = copySize input id := by
  rw [toEmplace] at h
  split at h
  · cases h
    rw [List.length_take, List.length_drop]
    omega
  · cases h

/- Blocks that are cached get the length that they have. -/
def SameLengths (c : Cache) (input : Jsre.Request)
    (ids : List Nat) : Prop :=
  ∀ id ∈ ids, ∀ b ∈ blockIn c.cachingMap (input.uuid, id),
    b.length = copySize input id

variable {ids : List Nat}

/- The entries of the blocks done so far, and one more. -/
theorem keys_apart_append
    (hKey : ∀ x ∈ kept, ∀ j ∈ id :: ids, x.1 ≠ (uuid, j))
    (hNew : id ∉ ids)
    (size : Nat) :
    ∀ x ∈ kept ++ [((uuid, id), size)], ∀ j ∈ ids,
      x.1 ≠ (uuid, j) := by
  intro x hx j hj
  rcases List.mem_append.mp hx with hIn | hIn
  · exact hKey x hIn j (List.mem_cons_of_mem _ hj)
  · rw [List.mem_singleton.mp hIn]
    intro hEq
    cases hEq
    exact hNew hj

/-
  The loop over the blocks of a cached file. The entries at
  the new end are those of the blocks that are done. They
  stay, so that something of the file always survives.
-/
theorem Indexed.writeBlocks
    (hIndexed : Indexed c)
    (hBounded : Bounded cachesize c)
    (hFile : (c.cachingMap.lookup input.uuid).isSome)
    (hIds : ∀ id ∈ ids, id < 2 ^ 20)
    (hNodup : ids.Nodup)
    (hLengths : SameLengths c input ids)
    (hEntries : ∃ old, c.lruCache.entries = old ++ kept)
    (hKey :
      ∀ x ∈ kept, ∀ id ∈ ids, x.1 ≠ (input.uuid, id))
    (hFits :
      Lru.total kept + (ids.map (copySize input)).sum ≤
        cachesize.toNat)
    (hFirst :
      ∀ id, ids.head? = some id →
        blockIn c.cachingMap (input.uuid, id) = none →
        Survives c input.uuid (copySize input id))
    (hWrite : c.writeBlocks input data ids = some c') :
    Indexed c' := by
  induction ids generalizing c kept with
  | nil =>
      cases hWrite
      exact hIndexed
  | cons id ids ih =>
      rw [List.forall_mem_cons] at hIds
      rw [List.nodup_cons] at hNodup
      simp only [List.map_cons, List.sum_cons] at hFits
      rcases Option.bind_eq_some_iff.mp hWrite with
        ⟨block, hBlock, hRest⟩
      rcases Option.bind_eq_some_iff.mp hRest with
        ⟨c₁, hSet, hNext⟩
      have hSize := length_toEmplace hBlock
      have hSmall := length_toEmplace_le hBlock
      rcases sets_of_set hBounded hSmall hSet with
        ⟨gone, hSets⟩
      have hStays :
          (c₁.cachingMap.lookup input.uuid).isSome := by
        apply lookup_isSome_of_survives hBounded hIndexed
          (e := (input.uuid, id)) hFile _ hSet hSets
        intro hNone
        rw [hSize]
        exact hFirst id rfl hNone
      have hSame :
          ∀ b, blockIn c.cachingMap (input.uuid, id) = some b →
            b.length = block.length := by
        intro b hb
        rw [hSize]
        exact hLengths id List.mem_cons_self b hb
      have hNew :=
        hSets.indexed_emplaceBlock hIndexed hStays hSame
      rcases hEntries with ⟨old, hOld⟩
      rcases entries_of_set hBounded hOld
          (fun x hx => hKey x hx id List.mem_cons_self)
          (by omega) hSet with
        ⟨rest, hEnd⟩
      have hFits' :
          Lru.total (kept ++
              [((input.uuid, id), block.length)]) +
            (ids.map (copySize input)).sum ≤
            cachesize.toNat := by
        simp only [Lru.total_append, Lru.total_cons,
          Lru.total_nil]
        omega
      have hBounded' := (hBounded.set hIds.1 hSmall hSet)
      apply ih hNew
        (hBounded'.emplaceBlock hIds.1 hSmall)
        _ hIds.2 hNodup.2 _ _ _ hFits' _ hNext
      · rw [lookup_emplaceBlock_isSome]
        exact hStays
      · intro j hj b hb
        have hNe : (input.uuid, j) ≠ (input.uuid, id) := by
          intro hEq
          cases hEq
          exact hNodup.1 hj
        rw [blockIn_emplaceBlock hStays, if_neg hNe] at hb
        exact hLengths j (List.mem_cons_of_mem _ hj) b
          (hSets.blockIn_before hb).2
      · rw [lruCache_emplaceBlock]
        exact ⟨rest, hEnd⟩
      · exact keys_apart_append hKey hNodup.1 _
      · intro j hj _
        refine Or.inr ⟨kept ++
          [((input.uuid, id), block.length)], ?_, ?_, ?_⟩
        · rw [List.mem_tails, lruCache_emplaceBlock]
          exact ⟨rest, hEnd.symm⟩
        · exact ⟨_, List.mem_append_right _
            List.mem_cons_self, rfl⟩
        · rw [lruCache_emplaceBlock, hBounded'.cap_eq]
          rcases List.head?_eq_some_iff.mp hj with
            ⟨later, hLater⟩
          rw [hLater, List.map_cons, List.sum_cons] at hFits'
          omega

/-
  While the blocks of a new file are collected, their entries
  are at the new end of the list and the file is not cached.
-/
structure Collects
    (c : Cache)
    (uuid : Uuid)
    (blocks : BlockMap)
    (kept : List ((Uuid × Nat) × Nat)) : Prop where
  entry :
    ∀ e b, blockIn c.cachingMap e = some b →
      (e, b.length) ∈ c.lruCache.entries
  block :
    ∀ x ∈ c.lruCache.entries, x ∉ kept →
      ∃ b, blockIn c.cachingMap x.1 = some b
  absent : c.cachingMap.lookup uuid = none
  collected :
    ∀ id b, blocks.lookup id = some b →
      ((uuid, id), b.length) ∈ kept
  listed :
    ∀ x ∈ kept, x.1.1 = uuid ∧
      ∃ b, blocks.lookup x.1.2 = some b
  suffix : ∃ old, c.lruCache.entries = old ++ kept

namespace Collects

variable {uuid : Uuid} {blocks : BlockMap}
variable {kept : List ((Uuid × Nat) × Nat)}

theorem key_ne
    (h : Collects c uuid blocks kept)
    {b : Bytes}
    (hBlock : blockIn c.cachingMap e = some b) :
    e.1 ≠ uuid := by
  intro hEq
  have hSome := lookup_isSome_of_blockIn hBlock
  rw [hEq, h.absent] at hSome
  cases hSome

/- Another block is collected. -/
theorem set
    {id : Nat}
    {block : Bytes}
    (h : Collects c uuid blocks kept)
    (hBounded : Bounded cachesize c)
    (hId : id < 2 ^ 20)
    (hSmall : block.length ≤ blocksize)
    (hKey : ∀ x ∈ kept, x.1 ≠ (uuid, id))
    (hFits :
      Lru.total kept + block.length ≤ cachesize.toNat)
    (hSet : c.set none (uuid, id) block.length = some c') :
    Collects c' uuid (emplace id block blocks)
      (kept ++ [((uuid, id), block.length)]) := by
  rcases sets_of_set hBounded hSmall hSet with ⟨gone, hSets⟩
  have hBounded' := hBounded.set hId hSmall hSet
  have hNew : blocks.lookup id = none := by
    cases hLookup : blocks.lookup id with
    | none => rfl
    | some b =>
        exact absurd rfl
          (hKey _ (h.collected id b hLookup))
  rcases h.suffix with ⟨old, hOld⟩
  refine
    { entry := ?_
      block := ?_
      absent := ?_
      collected := ?_
      listed := ?_
      suffix := ?_ }
  · intro e b hBlock
    rcases hSets.blockIn_before hBlock with ⟨hNot, hWas⟩
    have hNe : e ≠ (uuid, id) := by
      intro hEq
      exact h.key_ne hWas (by rw [hEq])
    rcases hSets.stays _ (h.entry e b hWas) hNe with
      hIn | hGone
    · exact hIn
    · exact absurd hGone hNot
  · intro x hx hNotIn
    have hNe : x.1 ≠ (uuid, id) := by
      intro hEq
      apply hNotIn
      have hSame := entry_unique hBounded'.nodup hx hSets.new
        hEq
      rw [hSame]
      exact List.mem_append_right _ List.mem_cons_self
    rw [hSets.blockIn_of_listed hx]
    apply h.block x (hSets.before x hx hNe)
    intro hIn
    exact hNotIn (List.mem_append_left _ hIn)
  · rw [hSets.map]
    exact lookup_foldl_delete_none gone h.absent
  · intro j b hLookup
    rw [lookup_emplace] at hLookup
    by_cases hSame : j = id
    · rw [if_pos hSame, hNew] at hLookup
      cases hLookup
      rw [hSame]
      exact List.mem_append_right _ List.mem_cons_self
    · rw [if_neg hSame] at hLookup
      exact List.mem_append_left _ (h.collected j b hLookup)
  · intro x hx
    rcases List.mem_append.mp hx with hIn | hIn
    · rcases h.listed x hIn with ⟨hUuid, b, hb⟩
      refine ⟨hUuid, ?_⟩
      rw [lookup_emplace]
      split
      · exact ⟨_, rfl⟩
      · exact ⟨b, hb⟩
    · rw [List.mem_singleton.mp hIn]
      refine ⟨rfl, ?_⟩
      rw [lookup_emplace, if_pos rfl]
      exact ⟨_, rfl⟩
  · exact entries_of_set hBounded hOld hKey hFits hSet

theorem collectBlocks
    {ids : List Nat}
    {blocks' : BlockMap}
    (h : Collects c input.uuid blocks kept)
    (hBounded : Bounded cachesize c)
    (hIds : ∀ id ∈ ids, id < 2 ^ 20)
    (hNodup : ids.Nodup)
    (hKey :
      ∀ x ∈ kept, ∀ id ∈ ids, x.1 ≠ (input.uuid, id))
    (hFits :
      Lru.total kept + (ids.map (copySize input)).sum ≤
        cachesize.toNat)
    (hCollect :
      c.collectBlocks input data ids blocks =
        some (blocks', c')) :
    ∃ kept', Collects c' input.uuid blocks' kept' := by
  induction ids generalizing c blocks kept with
  | nil =>
      cases hCollect
      exact ⟨kept, h⟩
  | cons id ids ih =>
      rw [List.forall_mem_cons] at hIds
      rw [List.nodup_cons] at hNodup
      simp only [List.map_cons, List.sum_cons] at hFits
      rcases Option.bind_eq_some_iff.mp hCollect with
        ⟨block, hBlock, hRest⟩
      rcases Option.bind_eq_some_iff.mp hRest with
        ⟨c₁, hSet, hNext⟩
      have hSize := length_toEmplace hBlock
      have hSmall := length_toEmplace_le hBlock
      have hStep := h.set hBounded hIds.1 hSmall
        (fun x hx => hKey x hx id List.mem_cons_self)
        (by omega) hSet
      apply ih hStep (hBounded.set hIds.1 hSmall hSet) hIds.2
        hNodup.2 _ _ hNext
      · exact keys_apart_append hKey hNodup.1 _
      · simp only [Lru.total_append, Lru.total_cons,
          Lru.total_nil]
        omega

/- The collected blocks become the blocks of the file. -/
theorem indexed
    (h : Collects c uuid blocks kept) :
    Indexed
      { c with
        cachingMap := emplace uuid blocks c.cachingMap } := by
  have hBlockIn :
      ∀ x, blockIn (emplace uuid blocks c.cachingMap) x =
        if x.1 = uuid then blocks.lookup x.2
        else blockIn c.cachingMap x := by
    intro x
    simp only [emplace, h.absent]
    exact blockIn_insert c.cachingMap uuid blocks x
  rcases h.suffix with ⟨old, hOld⟩
  constructor
  · rintro ⟨uuid', id⟩ b hBlock
    rw [hBlockIn] at hBlock
    by_cases hUuid : uuid' = uuid
    · rw [if_pos hUuid] at hBlock
      rw [hUuid]
      change _ ∈ c.lruCache.entries
      rw [hOld]
      exact List.mem_append_right _ (h.collected id b hBlock)
    · rw [if_neg hUuid] at hBlock
      exact h.entry _ b hBlock
  · intro x hx
    rw [hBlockIn]
    by_cases hIn : x ∈ kept
    · rcases h.listed x hIn with ⟨hUuid, b, hb⟩
      rw [if_pos hUuid]
      exact ⟨b, hb⟩
    · rcases h.block x hx hIn with ⟨b, hb⟩
      rw [if_neg (h.key_ne hb)]
      exact ⟨b, hb⟩

end Collects

----------
-- Calls
----------

/- The blocks of a request, none if they cannot be listed. -/
def requestIds (input : Jsre.Request) : List Nat :=
  (getBlockIds input).getD []

theorem requestIds_eq
    {input : Jsre.Request}
    (hIds : getBlockIds input = some ids) :
    requestIds input = ids := by
  rw [requestIds, hIds]
  rfl

/-
  Conditions under which a call keeps the index. A write must
  give the cached blocks the length that they have, fit into
  the cache, and leave something of its file when it makes
  room for the first block.
-/
def KeepsIndex (c : Cache) : Call → Prop
| .readFromCache _ => True
| .writeToCache input _ =>
    SameLengths c input (requestIds input) ∧
      ((requestIds input).map (copySize input)).sum ≤
        c.lruCache.cap ∧
      ((c.cachingMap.lookup input.uuid).isSome →
        ∀ id ∈ (requestIds input).head?,
          blockIn c.cachingMap (input.uuid, id) = none →
          Survives c input.uuid (copySize input id))

instance (c : Cache) (e : Call) : Decidable (KeepsIndex c e) :=
  match e with
  | .readFromCache _ => .isTrue trivial
  | .writeToCache input _ =>
      inferInstanceAs (Decidable (
        (∀ id ∈ requestIds input,
            ∀ b ∈ blockIn c.cachingMap (input.uuid, id),
              b.length = copySize input id) ∧
          ((requestIds input).map (copySize input)).sum ≤
            c.lruCache.cap ∧
          ((c.cachingMap.lookup input.uuid).isSome →
            ∀ id ∈ (requestIds input).head?,
              blockIn c.cachingMap (input.uuid, id) = none →
              Survives c input.uuid (copySize input id))))

theorem nodup_getBlockIds
    (h : getBlockIds input = some ids) :
    ids.Nodup := by
  rcases getBlockIds_cases h with ⟨_, hEq⟩ | ⟨_, hEq⟩
  · rw [hEq]
    apply List.Nodup.map _ List.nodup_range
    intro j k hSame
    exact Nat.add_left_cancel hSame
  · rw [hEq]
    exact List.nodup_nil

theorem Indexed.writeToCache
    (h : Indexed c)
    (hBounded : Bounded cachesize c)
    (hKeeps : KeepsIndex c (.writeToCache input data))
    (hWrite : c.writeToCache input data = some c') :
    Indexed c' := by
  rcases hKeeps with ⟨hLengths, hFits, hSurvives⟩
  rw [Cache.writeToCache] at hWrite
  rcases Option.bind_eq_some_iff.mp hWrite with
    ⟨ids, hIds, hRest⟩
  rw [requestIds_eq hIds] at hLengths hFits hSurvives
  rw [hBounded.cap_eq] at hFits
  have hSmall := getBlockIds_lt hIds
  have hNodup := nodup_getBlockIds hIds
  cases hFile : c.cachingMap.lookup input.uuid with
  | some blocks =>
      rw [hFile] at hRest hSurvives
      have hCached :
          (c.cachingMap.lookup input.uuid).isSome := by
        rw [hFile]
        rfl
      exact h.writeBlocks hBounded hCached hSmall hNodup
        hLengths ⟨_, (List.append_nil _).symm⟩ (by simp)
        (by simpa using hFits) (hSurvives rfl) hRest
  | none =>
      rw [hFile] at hRest
      rcases Option.bind_eq_some_iff.mp hRest with
        ⟨⟨blocks, c₁⟩, hCollect, hEnd⟩
      cases hEnd
      have hStart : Collects c input.uuid ∅ [] :=
        { entry := h.entry
          block := fun x hx _ => h.block x hx
          absent := hFile
          collected := by simp
          listed := by simp
          suffix := ⟨_, (List.append_nil _).symm⟩ }
      rcases hStart.collectBlocks hBounded hSmall hNodup
          (by simp) (by simpa using hFits) hCollect with
        ⟨kept, hEnd⟩
      exact hEnd.indexed

/- A call that meets the conditions keeps the index. -/
theorem Indexed.call
    {e : Call}
    (h : Indexed c)
    (hBounded : Bounded cachesize c)
    (hKeeps : KeepsIndex c e)
    (hCall : c.call e = some c') :
    Indexed c' := by
  cases e with
  | writeToCache input data =>
      exact h.writeToCache hBounded hKeeps hCall
  | readFromCache input =>
      refine (call_read_induction
        (I := fun c => Indexed c ∧ Bounded cachesize c)
        ?_ ⟨h, hBounded⟩ hCall).1
      rintro m m' key block ⟨hm, hOld⟩ hFind hSet
      have hBound := hOld.block key block hFind
      rcases sets_of_set hOld hBound.2 hSet with
        ⟨gone, hSets⟩
      exact ⟨hSets.indexed hm hFind rfl,
        hOld.set hBound.1 hBound.2 hSet⟩

/-
  After calls that all meet the conditions, the blocks and
  the list describe the same, and the blocks fit together.
-/
theorem index_matches_of_run
    {cachesize : UInt32}
    (hRoom : cachesize.toNat + blocksize < 2 ^ 32)
    {policy : EvictionPolicy}
    {calls : List Call}
    {c : Cache}
    (hRun :
      run call (empty cachesize policy) calls =
        some c)
    (hKeeps :
      Along call KeepsIndex
        (empty cachesize policy) calls) :
    IndexMatches cachesize c := by
  have hBoth : Indexed c ∧ Bounded cachesize c := by
    refine invariant_of_run
      (I := fun c => Indexed c ∧ Bounded cachesize c)
      ?_ ?_ hRun hKeeps
    · rintro s e s' ⟨hIndexed, hBounded⟩ hCond hStep
      exact ⟨hIndexed.call hBounded hCond hStep,
        hBounded.call hStep⟩
    · exact ⟨indexed_empty cachesize policy,
        bounded_empty policy⟩
  exact hBoth.1.matches hBoth.2 hRoom

/- Bytes of a file are written at a position. -/
def fill (file : UInt8) (position : UInt32) (data : Bytes) :
    Call :=
  .writeToCache
    (ProxyCommand.sampleRequest file position
      data.length.toUInt32 data)
    data

/- Two blocks of a file, one of them written again. -/
theorem index_matches_filled :
    ∃ c,
      run call (empty 8192 .LRU)
          [fill 1 0 [1, 2], fill 1 4096 [3],
            fill 1 0 [4, 5]] =
        some c ∧
      IndexMatches 8192 c := by
  rcases Option.isSome_iff_exists.mp
      (show (run call (empty 8192 .LRU)
          [fill 1 0 [1, 2], fill 1 4096 [3],
            fill 1 0 [4, 5]]).isSome from by decide +kernel)
    with ⟨c, hRun⟩
  exact ⟨c, hRun,
    index_matches_of_run (by decide) hRun (by decide +kernel)⟩

/- The lengths under which a block is listed and cached. -/
def Listed (c : Cache) (e : Uuid × Nat) : Prop :=
  (c.lruCache.entries.filter (fun x => x.1 = e)).map Prod.snd =
    ((blockIn c.cachingMap e).map List.length).toList

instance (c : Cache) (e : Uuid × Nat) :
    Decidable (Listed c e) :=
  inferInstanceAs (Decidable (_ = _))

theorem IndexMatches.listed
    (h : IndexMatches cachesize c)
    (e : Uuid × Nat) :
    Listed c e := by
  unfold Listed
  cases hBlock : blockIn c.cachingMap e with
  | some b =>
      rw [h.entry e b hBlock]
      rfl
  | none =>
      have hNone :
          c.lruCache.entries.filter (fun x => x.1 = e) = [] := by
        apply List.filter_eq_nil_iff.mpr
        intro x hx hEq
        rcases h.block x hx with ⟨b, hb, _⟩
        rw [of_decide_eq_true hEq, hBlock] at hb
        cases hb
      rw [hNone]
      rfl

theorem exists_not_matches
    {calls : List Call}
    (e : Uuid × Nat)
    (h :
      (run call (empty cachesize .LRU) calls).any
        (fun c => ¬ Listed c e) = true) :
    ∃ c,
      run call (empty cachesize .LRU) calls =
        some c ∧
      ¬ IndexMatches cachesize c := by
  cases hRun : run call (empty cachesize .LRU) calls
    with
  | none =>
      rw [hRun] at h
      cases h
  | some c =>
      rw [hRun] at h
      refine ⟨c, rfl, ?_⟩
      intro hMatches
      exact of_decide_eq_true h (hMatches.listed e)

/-
  A block that is written again keeps its content under the
  length of the new one. Of a new file that is larger than the
  cache, blocks are cached that are not listed. A file whose
  blocks were all dropped to make room for another one loses
  that one too.
-/
theorem index_drifts :
    (∃ c,
      run call (empty 8192 .LRU)
          [fill 1 0 [1], fill 1 0 [2, 3]] =
        some c ∧
      ¬ IndexMatches 8192 c) ∧
    (∃ c,
      run call (empty 4096 .LRU)
          [fill 1 0 (List.replicate 4097 1)] =
        some c ∧
      ¬ IndexMatches 4096 c) ∧
    ∃ c,
      run call (empty 4096 .LRU)
          [fill 1 0 [1],
            fill 1 4096 (List.replicate 4096 2)] =
        some c ∧
      ¬ IndexMatches 4096 c := by
  refine ⟨?_, ?_, ?_⟩
  · exact exists_not_matches (Vector.replicate 32 0, 0)
      (by decide +kernel)
  · exact exists_not_matches (Vector.replicate 32 0, 0)
      (by decide +kernel)
  · exact exists_not_matches (Vector.replicate 32 0, 1)
      (by decide +kernel)

end Cache

end Slfs
