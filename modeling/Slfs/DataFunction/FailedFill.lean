import Mathlib.Algebra.Order.BigOperators.Group.List
import Mathlib.Algebra.Order.Group.Nat
import Slfs.DataFunction.Chain
import Slfs.DataFunction.CacheIndex

/-
  Requests that fail and the cache.

  The cache is written whatever the storage answers. A write
  that failed leaves it as it was only if its blocks are
  cached and were the last ones used, in their order. The
  text of a read that timed out is cached as content.

  Main declarations:
    * `ProxyCommand.FailedWrite`, `ProxyCommand.FailedRead`
    * `ProxyCommand.failed_unchanged_iff`
-/

----------
-- Failed Requests
----------

namespace Slfs

open Transition

namespace Cache

/- The same files, blocks and entries. -/
structure SameContents (c c' : Cache) : Prop where
  files :
    ∀ uuid, (c'.cachingMap.lookup uuid).isSome =
      (c.cachingMap.lookup uuid).isSome
  blocks :
    ∀ e, blockIn c'.cachingMap e = blockIn c.cachingMap e
  entries : c'.lruCache.entries = c.lruCache.entries

/- The entries of some blocks of a request. -/
def requestEntries (input : Jsre.Request) (ids : List Nat) :
    List ((Uuid × Nat) × Nat) :=
  ids.map (fun id => ((input.uuid, id), copySize input id))

/-
  A file that is cached, with the blocks of a request, which
  are the last ones in the list.
-/
structure UpToDate (c : Cache) (input : Jsre.Request) : Prop
    where
  file : (c.cachingMap.lookup input.uuid).isSome
  blocks :
    ∀ id ∈ requestIds input,
      (blockIn c.cachingMap (input.uuid, id)).isSome
  entries :
    requestEntries input (requestIds input) <:+
      c.lruCache.entries

instance (c : Cache) (input : Jsre.Request) :
    Decidable (UpToDate c input) :=
  decidable_of_iff
    ((c.cachingMap.lookup input.uuid).isSome ∧
      (∀ id ∈ requestIds input,
        (blockIn c.cachingMap (input.uuid, id)).isSome) ∧
      requestEntries input (requestIds input) <:+
        c.lruCache.entries)
    ⟨fun h => ⟨h.1, h.2.1, h.2.2⟩,
      fun h => ⟨h.file, h.blocks, h.entries⟩⟩

end Cache

namespace ProxyCommand

variable {σ : Type}

/- A write that the storage does not answer with `OK`. -/
structure FailedWrite
    (backend : Backend σ)
    (p : ProxyCommand σ)
    (input : Jsre.Request)
    (p' : ProxyCommand σ) : Prop where
  enabled : p.enableCache
  failed :
    (backend.write p.storage input).1 ≠ Coordinator.okReply
  after :
    (p.startStoragePerform backend (.write, input)).2 = some p'

/- A read that is not cached and that times out. -/
structure FailedRead
    (backend : Backend σ)
    (p : ProxyCommand σ)
    (input : Jsre.Request)
    (p' : ProxyCommand σ) : Prop where
  enabled : p.enableCache
  missed :
    ∃ c, p.cacheEngine.readFromCache input = some (none, c)
  failed : backend.read p.storage input = Chain.readTimeout
  after :
    (p.startStoragePerform backend (.read, input)).2 = some p'

end ProxyCommand

----------
-- One Block
----------

namespace Cache

/-
  What writing one block of a cached file does: the oldest
  entries go together with their blocks, and the block is
  the last one in the list.
-/
structure Emplaces
    (c : Cache)
    (e : Uuid × Nat)
    (block : Bytes)
    (c' : Cache) : Prop where
  entries :
    ∃ old rest,
      c.lruCache.entries.eraseP (fun x => x.1 = e) =
        old ++ rest ∧
      c'.lruCache.entries = rest ++ [(e, block.length)] ∧
      ∀ x ∈ old, blockIn c'.cachingMap x.1 = none
  keeps :
    ∀ old kept, c.lruCache.entries = old ++ kept →
      (∀ x ∈ kept, x.1 ≠ e) →
      Lru.total kept + block.length ≤ c.lruCache.cap →
      kept ++ [(e, block.length)] <:+ c'.lruCache.entries
  cap_eq : c'.lruCache.cap = c.lruCache.cap
  absent :
    ∀ uuid, c.cachingMap.lookup uuid = none →
      c'.cachingMap.lookup uuid = none
  other :
    ∀ x ∈ c'.lruCache.entries, x.1 ≠ e →
      x ∈ c.lruCache.entries ∧
        blockIn c'.cachingMap x.1 = blockIn c.cachingMap x.1
  missing :
    ∀ x, x ≠ e → blockIn c.cachingMap x = none →
      blockIn c'.cachingMap x = none
  self :
    (c'.cachingMap.lookup e.1).isSome →
      blockIn c'.cachingMap e =
        some ((blockIn c.cachingMap e).getD block)

variable {cachesize : UInt32} {c c' : Cache}
variable {e : Uuid × Nat} {block : Bytes}
variable {x : Uuid × Nat} {id : Nat} {uuid : Uuid}
variable {kept old : List ((Uuid × Nat) × Nat)}
variable {d c₁ : Cache} {data' : Bytes}

theorem blockIn_emplaceBlock_of_ne
    (hNe : x ≠ e)
    (c : Cache)
    (block : Bytes) :
    blockIn (c.emplaceBlock e.1 e.2 block).cachingMap x =
      blockIn c.cachingMap x := by
  cases hFile : c.cachingMap.lookup e.1 with
  | none =>
      unfold emplaceBlock
      rw [hFile]
  | some blocks =>
      have hSome : (c.cachingMap.lookup e.1).isSome := by
        rw [hFile]
        rfl
      rw [blockIn_emplaceBlock hSome, if_neg hNe]

theorem emplaces_of_set
    (h : Bounded cachesize c)
    (hSize : block.length ≤ blocksize)
    (hSet : c.set none e block.length = some c') :
    Emplaces c e block (c'.emplaceBlock e.1 e.2 block) := by
  rcases sets_of_set h hSize hSet with ⟨gone, hSets⟩
  rcases set_cases hSet with ⟨dropped, lru, hLru, hEq⟩
  have hNew : c'.lruCache = lru := by rw [hEq]
  have hSmall : block.length < 2 ^ 32 :=
    Nat.lt_of_le_of_lt hSize (by decide)
  rcases Lru.set_spec h.consistent hSmall hLru with
    ⟨old, rest, hErase, _, hEntries, hCap, _⟩
  rw [← hNew] at hEntries hCap
  have hNodup := Lru.nodup_eraseP h.nodup e
  rw [hErase, List.map_append] at hNodup
  constructor
  · refine ⟨old, rest, hErase, ?_, ?_⟩
    · rw [lruCache_emplaceBlock, hEntries]
    · intro x hx
      have hKey : x.1 ≠ e := by
        intro hSame
        apply hNodup.2
        rw [← hSame]
        exact List.mem_append_left _ (List.mem_map_of_mem hx)
      have hIn : x ∈ c.lruCache.entries := by
        apply List.mem_of_mem_eraseP
        rw [hErase]
        exact List.mem_append_left _ hx
      rw [blockIn_emplaceBlock_of_ne hKey, hSets.blockIn_eq]
      rcases hSets.stays x hIn hKey with hStays | hGone
      · rw [hEntries] at hStays
        rcases List.mem_append.mp hStays with hRest | hLast
        · exact absurd (List.mem_map_of_mem hRest)
            (List.disjoint_of_nodup_append hNodup.1
              (List.mem_map_of_mem hx))
        · rw [List.mem_singleton.mp hLast] at hKey
          exact absurd rfl hKey
      · rw [if_pos hGone]
  · intro old kept hOld hKey hFits
    rw [h.cap_eq] at hFits
    rcases entries_of_set h hOld hKey hFits hSet with
      ⟨rest, hRest⟩
    rw [lruCache_emplaceBlock, hRest]
    exact List.suffix_append _ _
  · rw [lruCache_emplaceBlock, hCap]
  · intro uuid hNone
    have hGone : c'.cachingMap.lookup uuid = none := by
      rw [hSets.map]
      exact lookup_foldl_delete_none gone hNone
    rw [← Option.not_isSome_iff_eq_none,
      lookup_emplaceBlock_isSome, hGone]
    exact Bool.false_ne_true
  · intro x hx hNe
    rw [lruCache_emplaceBlock] at hx
    rw [blockIn_emplaceBlock_of_ne hNe]
    exact ⟨hSets.before x hx hNe, hSets.blockIn_of_listed hx⟩
  · intro x hNe hNone
    rw [blockIn_emplaceBlock_of_ne hNe, hSets.blockIn_eq]
    split
    · rfl
    · exact hNone
  · intro hSome
    rw [lookup_emplaceBlock_isSome] at hSome
    rw [blockIn_emplaceBlock hSome, if_pos rfl]
    rw [show (e.1, e.2) = e from rfl, hSets.blockIn_self]

/- The first block of the loop, and the others. -/
theorem writeBlocks_cons
    {input : Jsre.Request}
    {data : Bytes}
    {ids : List Nat}
    (h : Bounded cachesize c)
    (hId : id < 2 ^ 20)
    (hWrite : c.writeBlocks input data (id :: ids) = some c') :
    ∃ block c₁,
      toEmplace input data id = some block ∧
      Emplaces c (input.uuid, id) block c₁ ∧
      Bounded cachesize c₁ ∧
      c₁.writeBlocks input data ids = some c' := by
  rcases Option.bind_eq_some_iff.mp hWrite with
    ⟨block, hBlock, hRest⟩
  rcases Option.bind_eq_some_iff.mp hRest with
    ⟨c₁, hSet, hNext⟩
  have hSmall := length_toEmplace_le hBlock
  exact ⟨block, _, hBlock, emplaces_of_set h hSmall hSet,
    (h.set hId hSmall hSet).emplaceBlock hId hSmall, hNext⟩

/- The loops read the position and the size of a request. -/
theorem writeBlocks_with_data
    (input : Jsre.Request)
    (data data' : Bytes)
    (ids : List Nat) :
    c.writeBlocks { input with data := data' } data ids =
      c.writeBlocks input data ids := by
  induction ids generalizing c with
  | nil => rfl
  | cons id ids ih =>
      simp only [writeBlocks, ih]
      rfl

theorem collectBlocks_with_data
    (input : Jsre.Request)
    (data data' : Bytes)
    (ids : List Nat)
    (blocks : BlockMap) :
    c.collectBlocks { input with data := data' } data ids
        blocks =
      c.collectBlocks input data ids blocks := by
  induction ids generalizing c blocks with
  | nil => rfl
  | cons id ids ih =>
      simp only [collectBlocks, ih]
      rfl

theorem writeToCache_with_data
    (input : Jsre.Request)
    (data data' : Bytes) :
    c.writeToCache { input with data := data' } data =
      c.writeToCache input data := by
  simp only [writeToCache, writeBlocks_with_data,
    collectBlocks_with_data]
  rfl

theorem writeToCache_of_cached
    {input : Jsre.Request}
    {ids : List Nat}
    (hIds : getBlockIds input = some ids)
    (hFile : (c.cachingMap.lookup input.uuid).isSome)
    (data : Bytes) :
    c.writeToCache input data = c.writeBlocks input data ids := by
  rcases Option.isSome_iff_exists.mp hFile with
    ⟨blocks, hBlocks⟩
  rw [Cache.writeToCache, hIds]
  simp only [Option.bind_eq_bind, Option.bind_some, hBlocks]

----------
-- The Loop
----------

variable {input : Jsre.Request} {data : Bytes}
variable {ids : List Nat}

@[simp] theorem requestEntries_nil
    (input : Jsre.Request) :
    requestEntries input [] = [] := rfl

@[simp] theorem requestEntries_cons
    (input : Jsre.Request)
    (id : Nat)
    (ids : List Nat) :
    requestEntries input (id :: ids) =
      ((input.uuid, id), copySize input id) ::
        requestEntries input ids := rfl

theorem total_requestEntries
    (input : Jsre.Request)
    (ids : List Nat) :
    Lru.total (requestEntries input ids) =
      (ids.map (copySize input)).sum := by
  simp [requestEntries, Lru.total, Function.comp_def]

section

variable (h : Bounded cachesize c)
variable (hIds : ∀ id ∈ ids, id < 2 ^ 20)
include h hIds

/- A file that is dropped stays away. -/
theorem lookup_writeBlocks_none
    (hNone : c.cachingMap.lookup uuid = none)
    (hWrite : c.writeBlocks input data ids = some c') :
    c'.cachingMap.lookup uuid = none := by
  induction ids generalizing c with
  | nil =>
      cases hWrite
      exact hNone
  | cons id ids ih =>
      rw [List.forall_mem_cons] at hIds
      rcases writeBlocks_cons h hIds.1 hWrite with
        ⟨block, c₁, _, hEmplaces, h₁, hNext⟩
      exact ih h₁ hIds.2 (hEmplaces.absent uuid hNone) hNext

/- Other blocks are not added. -/
theorem blockIn_writeBlocks_none
    (hOther : ∀ id ∈ ids, x ≠ (input.uuid, id))
    (hNone : blockIn c.cachingMap x = none)
    (hWrite : c.writeBlocks input data ids = some c') :
    blockIn c'.cachingMap x = none := by
  induction ids generalizing c with
  | nil =>
      cases hWrite
      exact hNone
  | cons id ids ih =>
      rw [List.forall_mem_cons] at hIds hOther
      rcases writeBlocks_cons h hIds.1 hWrite with
        ⟨block, c₁, _, hEmplaces, h₁, hNext⟩
      exact ih h₁ hIds.2 hOther.2
        (hEmplaces.missing x hOther.1 hNone) hNext

/- Other entries that are left at the end were never gone. -/
theorem blockIn_writeBlocks_of_mem
    {x : (Uuid × Nat) × Nat}
    (hOther : ∀ id ∈ ids, x.1 ≠ (input.uuid, id))
    (hWrite : c.writeBlocks input data ids = some c')
    (hx : x ∈ c'.lruCache.entries) :
    x ∈ c.lruCache.entries ∧
      blockIn c'.cachingMap x.1 =
        blockIn c.cachingMap x.1 := by
  induction ids generalizing c with
  | nil =>
      cases hWrite
      exact ⟨hx, rfl⟩
  | cons id ids ih =>
      rw [List.forall_mem_cons] at hIds hOther
      rcases writeBlocks_cons h hIds.1 hWrite with
        ⟨block, c₁, _, hEmplaces, h₁, hNext⟩
      rcases ih h₁ hIds.2 hOther.2 hNext with ⟨hIn, hSame⟩
      rcases hEmplaces.other x hIn hOther.1 with
        ⟨hBefore, hEq⟩
      exact ⟨hBefore, hSame.trans hEq⟩

end

/-
  The first block, if its file and its entry are there at the
  end: its bytes are those that were cached, or the new ones.
-/
theorem blockIn_writeBlocks_head
    (h : Bounded cachesize c)
    (hIds : ∀ j ∈ id :: ids, j < 2 ^ 20)
    (hNodup : (id :: ids).Nodup)
    (hWrite : c.writeBlocks input data (id :: ids) = some c')
    (hFile : (c'.cachingMap.lookup input.uuid).isSome)
    (hEntry :
      ((input.uuid, id), copySize input id) ∈
        c'.lruCache.entries) :
    ∃ block, toEmplace input data id = some block ∧
      blockIn c'.cachingMap (input.uuid, id) =
        some ((blockIn c.cachingMap (input.uuid, id)).getD
          block) := by
  rw [List.forall_mem_cons] at hIds
  rcases writeBlocks_cons h hIds.1 hWrite with
    ⟨block, c₁, hBlock, hEmplaces, h₁, hNext⟩
  have hOther : ∀ j ∈ ids, (input.uuid, id) ≠ (input.uuid, j) := by
    intro j hj hEq
    cases hEq
    exact (List.nodup_cons.mp hNodup).1 hj
  have hFile₁ : (c₁.cachingMap.lookup input.uuid).isSome := by
    by_contra hNot
    rw [Option.not_isSome_iff_eq_none] at hNot
    rw [lookup_writeBlocks_none h₁ hIds.2 hNot hNext] at hFile
    cases hFile
  have hSame :=
    (blockIn_writeBlocks_of_mem h₁ hIds.2 hOther hNext hEntry).2
  refine ⟨block, hBlock, ?_⟩
  rw [hSame]
  exact hEmplaces.self hFile₁

/- Blocks whose entries are left at the end are cached. -/
theorem blockIn_writeBlocks_isSome
    (h : Bounded cachesize c)
    (hIds : ∀ j ∈ ids, j < 2 ^ 20)
    (hNodup : ids.Nodup)
    (hWrite : c.writeBlocks input data ids = some c')
    (hFile : (c'.cachingMap.lookup input.uuid).isSome)
    (hId : id ∈ ids)
    (hEntry :
      ((input.uuid, id), copySize input id) ∈
        c'.lruCache.entries) :
    (blockIn c'.cachingMap (input.uuid, id)).isSome := by
  induction ids generalizing c with
  | nil => cases hId
  | cons j ids ih =>
      rcases List.mem_cons.mp hId with hHead | hTail
      · subst hHead
        rcases blockIn_writeBlocks_head h hIds hNodup hWrite
            hFile hEntry with
          ⟨block, _, hSome⟩
        rw [hSome]
        rfl
      · rw [List.forall_mem_cons] at hIds
        rcases writeBlocks_cons h hIds.1 hWrite with
          ⟨block, c₁, _, _, h₁, hNext⟩
        exact ih h₁ hIds.2 (List.nodup_cons.mp hNodup).2 hNext
          hTail

theorem suffix_eraseP
    {entries : List ((Uuid × Nat) × Nat)}
    (hKept : kept <:+ entries)
    (hKey : ∀ x ∈ kept, x.1 ≠ e) :
    kept <:+ entries.eraseP (fun x => x.1 = e) := by
  rcases hKept with ⟨old, hOld⟩
  rw [← hOld]
  by_cases hAny : ∃ x ∈ old, x.1 = e
  · rcases hAny with ⟨x, hx, hEq⟩
    rw [List.eraseP_append_left
      (p := fun y : (Uuid × Nat) × Nat => y.1 = e)
      (decide_eq_true hEq) _ hx]
    exact List.suffix_append _ _
  · have hNone :
        ∀ x ∈ old ++ kept, ¬ (decide (x.1 = e) = true) := by
      intro x hx hEq
      rcases List.mem_append.mp hx with hIn | hIn
      · exact hAny ⟨x, hIn, of_decide_eq_true hEq⟩
      · exact hKey x hIn (of_decide_eq_true hEq)
    rw [List.eraseP_of_forall_not hNone]
    exact List.suffix_append _ _

section

variable (h : Bounded cachesize c)
variable (hIds : ∀ id ∈ ids, id < 2 ^ 20)
include h hIds

/-
  The entries at the end are the newest ones of the request,
  or all of them behind older ones.
-/
theorem suffix_writeBlocks
    (hNodup : ids.Nodup)
    (hKey :
      ∀ x ∈ kept, ∀ id ∈ ids, x.1 ≠ (input.uuid, id))
    (hKept :
      kept <:+ c.lruCache.entries ∨
        c.lruCache.entries <:+ kept)
    (hWrite : c.writeBlocks input data ids = some c') :
    kept ++ requestEntries input ids <:+ c'.lruCache.entries ∨
      c'.lruCache.entries <:+
        kept ++ requestEntries input ids := by
  induction ids generalizing c kept with
  | nil =>
      cases hWrite
      simpa using hKept
  | cons id ids ih =>
      rw [List.forall_mem_cons] at hIds
      rw [List.nodup_cons] at hNodup
      rcases writeBlocks_cons h hIds.1 hWrite with
        ⟨block, c₁, hBlock, hEmplaces, h₁, hNext⟩
      rcases hEmplaces.entries with
        ⟨old, rest, hErase, hEntries, _⟩
      rw [length_toEmplace hBlock] at hEntries
      have hHead :
          ∀ x ∈ kept, x.1 ≠ (input.uuid, id) :=
        fun x hx => hKey x hx id List.mem_cons_self
      have hRest :
          rest <:+ c.lruCache.entries.eraseP
            (fun x => x.1 = (input.uuid, id)) :=
        ⟨old, hErase.symm⟩
      have hCompare : kept <:+ rest ∨ rest <:+ kept := by
        rcases hKept with hSuffix | hSuffix
        · exact List.suffix_or_suffix_of_suffix
            (suffix_eraseP hSuffix hHead) hRest
        · right
          apply hRest.trans
          rw [List.eraseP_of_forall_not]
          · exact hSuffix
          · intro x hx hEq
            exact hHead x (hSuffix.subset hx)
              (of_decide_eq_true hEq)
      have hKept₁ :
          kept ++ [((input.uuid, id), copySize input id)] <:+
              c₁.lruCache.entries ∨
            c₁.lruCache.entries <:+
              kept ++
                [((input.uuid, id), copySize input id)] := by
        rw [hEntries]
        rcases hCompare with ⟨t, ht⟩ | ⟨t, ht⟩
        · left
          exact ⟨t, by rw [← ht, List.append_assoc]⟩
        · right
          exact ⟨t, by rw [← ht, List.append_assoc]⟩
      have hNew := ih h₁ hIds.2 hNodup.2
        (keys_apart_append hKey hNodup.1 _) hKept₁ hNext
      simpa using hNew

/- The entries of a request that fits are the last ones. -/
theorem suffix_writeBlocks_of_fits
    (hNodup : ids.Nodup)
    (hKey :
      ∀ x ∈ kept, ∀ id ∈ ids, x.1 ≠ (input.uuid, id))
    (hKept : kept <:+ c.lruCache.entries)
    (hFits :
      Lru.total kept + (ids.map (copySize input)).sum ≤
        c.lruCache.cap)
    (hWrite : c.writeBlocks input data ids = some c') :
    kept ++ requestEntries input ids <:+
      c'.lruCache.entries := by
  induction ids generalizing c kept with
  | nil =>
      cases hWrite
      simpa using hKept
  | cons id ids ih =>
      rw [List.forall_mem_cons] at hIds
      rw [List.nodup_cons] at hNodup
      simp only [List.map_cons, List.sum_cons] at hFits
      rcases writeBlocks_cons h hIds.1 hWrite with
        ⟨block, c₁, hBlock, hEmplaces, h₁, hNext⟩
      have hSize := length_toEmplace hBlock
      rcases hKept with ⟨old, hOld⟩
      have hKeeps := hEmplaces.keeps old kept hOld.symm
        (fun x hx => hKey x hx id List.mem_cons_self)
        (by omega)
      rw [hSize] at hKeeps
      have hFits₁ :
          Lru.total (kept ++
              [((input.uuid, id), copySize input id)]) +
            (ids.map (copySize input)).sum ≤
            c₁.lruCache.cap := by
        rw [hEmplaces.cap_eq]
        simp only [Lru.total_append, Lru.total_cons,
          Lru.total_nil]
        omega
      have hNew := ih h₁ hIds.2 hNodup.2
        (keys_apart_append hKey hNodup.1 _) hKeeps hFits₁ hNext
      simpa using hNew

/-
  New blocks are added behind the entries, or the oldest
  entry is dropped together with its block.
-/
theorem entries_writeBlocks_or_dropped
    {x : (Uuid × Nat) × Nat}
    {later : List ((Uuid × Nat) × Nat)}
    (hNodup : ids.Nodup)
    (hEntries : c.lruCache.entries = x :: later)
    (hKey :
      ∀ y ∈ x :: later, ∀ id ∈ ids, y.1 ≠ (input.uuid, id))
    (hWrite : c.writeBlocks input data ids = some c') :
    c'.lruCache.entries =
        (x :: later) ++ requestEntries input ids ∨
      blockIn c'.cachingMap x.1 = none := by
  induction ids generalizing c later with
  | nil =>
      cases hWrite
      left
      rw [hEntries, requestEntries_nil, List.append_nil]
  | cons id ids ih =>
      rw [List.forall_mem_cons] at hIds
      rw [List.nodup_cons] at hNodup
      rcases writeBlocks_cons h hIds.1 hWrite with
        ⟨block, c₁, hBlock, hEmplaces, h₁, hNext⟩
      rcases hEmplaces.entries with
        ⟨old, rest, hErase, hLast, hGone⟩
      rw [length_toEmplace hBlock] at hLast
      rw [hEntries, List.eraseP_of_forall_not] at hErase
      · cases old with
        | nil =>
            rw [List.nil_append] at hErase
            rw [← hErase, List.cons_append] at hLast
            have hNew := ih h₁ hIds.2 hNodup.2 hLast
              (keys_apart_append hKey hNodup.1 _) hNext
            simpa using hNew
        | cons y old =>
            right
            have hHead : x = y := by
              rw [List.cons_append] at hErase
              exact (List.cons.inj hErase).1
            have hNone := hGone y List.mem_cons_self
            rw [← hHead] at hNone
            apply blockIn_writeBlocks_none h₁ hIds.2 _ hNone
              hNext
            intro j hj
            exact hKey x List.mem_cons_self j
              (List.mem_cons_of_mem _ hj)
      · intro y hy hEq
        exact hKey y hy id List.mem_cons_self
          (of_decide_eq_true hEq)

theorem entries_writeBlocks_ne_nil
    (hSome : c.lruCache.entries ≠ [] ∨ ids ≠ [])
    (hWrite : c.writeBlocks input data ids = some c') :
    c'.lruCache.entries ≠ [] := by
  induction ids generalizing c with
  | nil =>
      cases hWrite
      rcases hSome with hSome | hSome
      · exact hSome
      · exact absurd rfl hSome
  | cons id ids ih =>
      rw [List.forall_mem_cons] at hIds
      rcases writeBlocks_cons h hIds.1 hWrite with
        ⟨block, c₁, _, hEmplaces, h₁, hNext⟩
      rcases hEmplaces.entries with ⟨old, rest, _, hLast, _⟩
      apply ih h₁ hIds.2 (Or.inl _) hNext
      rw [hLast]
      simp

end

theorem writeBlocks_append
    (first later : List Nat) :
    c.writeBlocks input data (first ++ later) =
      (c.writeBlocks input data first).bind
        (writeBlocks input data later) := by
  induction first generalizing c with
  | nil => rfl
  | cons id first ih =>
      simp only [List.cons_append, writeBlocks, ih]
      simp [Option.bind_assoc]

----------
-- Nothing To Do
----------

/- A block that is cached and listed is written again. -/
theorem entries_of_set_listed
    {size : Nat}
    {later : List ((Uuid × Nat) × Nat)}
    (h : Bounded cachesize c)
    (hEntries :
      c.lruCache.entries = old ++ (e, size) :: later)
    (hSet : c.set none e size = some c') :
    c'.cachingMap = c.cachingMap ∧
      c'.lruCache.entries = old ++ (later ++ [(e, size)]) := by
  have hMem : (e, size) ∈ c.lruCache.entries := by
    rw [hEntries]
    exact List.mem_append_right _ List.mem_cons_self
  have hSize :
      ∀ x ∈ c.lruCache.entries, x.1 = e → x.2 = size := by
    intro x hx hEq
    rw [entry_unique h.nodup hx hMem hEq]
  rcases Lru.set_of_mem h.consistent ⟨_, hMem, rfl⟩ hSize with
    ⟨lru, hLru, _, _, hNew⟩
  rcases set_cases hSet with ⟨gone, lru', hLru', hEq⟩
  rw [hLru] at hLru'
  cases hLru'
  have hOld : ∀ x ∈ old, ¬ (decide (x.1 = e) = true) := by
    intro x hx hSame
    have hNodup := h.nodup
    rw [hEntries, List.map_append] at hNodup
    apply List.disjoint_of_nodup_append hNodup
      (List.mem_map_of_mem hx)
    rw [of_decide_eq_true hSame]
    exact List.mem_cons_self
  rw [hEq]
  refine ⟨rfl, ?_⟩
  simp only
  rw [hNew, hEntries, List.eraseP_append_right _ hOld,
    List.eraseP_cons_of_pos (by simp), List.append_assoc]

/- The blocks are cached and the last ones in the list. -/
theorem sameContents_writeBlocks
    (h : Bounded cachesize c)
    (hIds : ∀ id ∈ ids, id < 2 ^ 20)
    (hFile : (c.cachingMap.lookup input.uuid).isSome)
    (hBlocks :
      ∀ id ∈ ids,
        (blockIn c.cachingMap (input.uuid, id)).isSome)
    (hEntries :
      c.lruCache.entries =
        old ++ (requestEntries input ids ++ kept))
    (hWrite : c.writeBlocks input data ids = some c') :
    (∀ uuid, (c'.cachingMap.lookup uuid).isSome =
        (c.cachingMap.lookup uuid).isSome) ∧
      (∀ e, blockIn c'.cachingMap e =
        blockIn c.cachingMap e) ∧
      c'.lruCache.entries =
        old ++ (kept ++ requestEntries input ids) := by
  induction ids generalizing c kept with
  | nil =>
      cases hWrite
      refine ⟨fun _ => rfl, fun _ => rfl, ?_⟩
      simpa using hEntries
  | cons id ids ih =>
      rw [List.forall_mem_cons] at hIds hBlocks
      rcases Option.bind_eq_some_iff.mp hWrite with
        ⟨block, hBlock, hRest⟩
      rcases Option.bind_eq_some_iff.mp hRest with
        ⟨c₁, hSet, hNext⟩
      have hSmall := length_toEmplace_le hBlock
      have hBounded :
          Bounded cachesize
            (c₁.emplaceBlock input.uuid id block) :=
        (h.set hIds.1 hSmall hSet).emplaceBlock hIds.1 hSmall
      rw [length_toEmplace hBlock] at hSet
      rw [requestEntries_cons, List.cons_append] at hEntries
      rcases entries_of_set_listed h hEntries hSet with
        ⟨hMap, hLast⟩
      have hFile₁ :
          (c₁.cachingMap.lookup input.uuid).isSome := by
        rw [hMap]
        exact hFile
      have hSame :
          ∀ e,
            blockIn (c₁.emplaceBlock input.uuid id
              block).cachingMap e =
              blockIn c.cachingMap e := by
        intro e
        rw [blockIn_emplaceBlock hFile₁, hMap]
        split
        · rename_i hEq
          rcases Option.isSome_iff_exists.mp hBlocks.1 with
            ⟨b, hb⟩
          rw [hEq, hb]
          rfl
        · rfl
      have hFiles :
          ∀ uuid,
            ((c₁.emplaceBlock input.uuid id
              block).cachingMap.lookup uuid).isSome =
              (c.cachingMap.lookup uuid).isSome := by
        intro uuid
        rw [lookup_emplaceBlock_isSome, hMap]
      have hEntries₁ :
          (c₁.emplaceBlock input.uuid id
            block).lruCache.entries =
            old ++ (requestEntries input ids ++
              (kept ++
                [((input.uuid, id), copySize input id)])) := by
        rw [lruCache_emplaceBlock, hLast, List.append_assoc]
      have hCached₁ :
          ((c₁.emplaceBlock input.uuid id
            block).cachingMap.lookup input.uuid).isSome := by
        rw [hFiles]
        exact hFile
      have hBlocks₁ :
          ∀ j ∈ ids,
            (blockIn (c₁.emplaceBlock input.uuid id
              block).cachingMap (input.uuid, j)).isSome := by
        intro j hj
        rw [hSame]
        exact hBlocks.2 j hj
      rcases ih hBounded hIds.2 hCached₁ hBlocks₁ hEntries₁
          hNext with
        ⟨hFiles', hBlocks', hEntries'⟩
      refine ⟨?_, ?_, ?_⟩
      · intro uuid
        rw [hFiles', hFiles]
      · intro e
        rw [hBlocks', hSame]
      · rw [hEntries']
        simp

/- The cache is left as it is when there is nothing to do. -/
theorem UpToDate.sameContents
    (hUpToDate : UpToDate c input)
    (h : Bounded cachesize c)
    (hWrite : c.writeToCache input data = some c') :
    SameContents c c' := by
  rcases Option.bind_eq_some_iff.mp hWrite with
    ⟨ids, hIds, _⟩
  have hEq := requestIds_eq hIds
  rcases hUpToDate with ⟨hCached, hBlocks, ⟨old, hOld⟩⟩
  rw [hEq] at hBlocks hOld
  rw [writeToCache_of_cached hIds hCached] at hWrite
  have hEntries :
      c.lruCache.entries =
        old ++ (requestEntries input ids ++ []) := by
    rw [← hOld, List.append_nil]
  rcases sameContents_writeBlocks h (getBlockIds_lt hIds)
      hCached hBlocks hEntries hWrite with
    ⟨hFiles', hBlocks', hEntries'⟩
  refine ⟨hFiles', hBlocks', ?_⟩
  rw [hEntries', ← hOld, List.nil_append]

----------
-- Something To Do
----------

/- A request that does not fit leaves room in the counter. -/
theorem room_of_not_fits
    (hIds : getBlockIds input = some ids)
    (hNot :
      cachesize.toNat < (ids.map (copySize input)).sum) :
    cachesize.toNat + blocksize < 2 ^ 32 := by
  have hEach :
      ∀ n ∈ ids.map (copySize input), n ≤ blocksize := by
    intro n hn
    rcases List.mem_map.mp hn with ⟨id, _, hEq⟩
    rw [← hEq]
    exact Nat.min_le_left _ _
  have hSum := List.sum_le_card_nsmul _ _ hEach
  rw [List.length_map, Nat.nsmul_eq_mul] at hSum
  rcases getBlockIds_cases hIds with ⟨hEnds, hEq⟩ | ⟨_, hEq⟩
  · have hLength : ids.length = blockCount input := by
      rw [hEq, blockRange, List.length_map, List.length_range]
    rw [hLength] at hSum
    unfold Ends at hEnds
    unfold blocksize at *
    omega
  · rw [hEq] at hNot
    cases hNot

/-
  A write of a cached file that leaves the cache as it was:
  there was nothing to do, or the oldest block, which was
  dropped and written again, had the bytes of the request.
-/
theorem upToDate_or_repeats
    (h : Bounded cachesize c)
    (hIds : getBlockIds input = some ids)
    (hFile : (c.cachingMap.lookup input.uuid).isSome)
    (hWrite : c.writeBlocks input data ids = some c')
    (hSame : SameContents c c') :
    UpToDate c input ∨
      ∃ x, c.lruCache.entries.head? = some x ∧
        x.1.2 ∈ ids ∧
        ∃ block, toEmplace input data x.1.2 = some block ∧
          blockIn c.cachingMap x.1 = some block := by
  have hEq := requestIds_eq hIds
  have hLt := getBlockIds_lt hIds
  have hNodup := nodup_getBlockIds hIds
  have hFile' : (c'.cachingMap.lookup input.uuid).isSome := by
    rw [hSame.files]
    exact hFile
  by_cases hSuffix :
      requestEntries input ids <:+ c'.lruCache.entries
  · left
    refine ⟨hFile, ?_, ?_⟩
    · rw [hEq]
      intro id hId
      rw [← hSame.blocks]
      apply blockIn_writeBlocks_isSome h hLt hNodup hWrite
        hFile' hId
      exact hSuffix.subset (List.mem_map_of_mem hId)
    · rw [hEq, ← hSame.entries]
      exact hSuffix
  · right
    -- the request is larger than the cache
    have hLarge :
        cachesize.toNat < (ids.map (copySize input)).sum := by
      by_contra hFits
      apply hSuffix
      have hAll := suffix_writeBlocks_of_fits h hLt hNodup
        (by simp) (List.nil_suffix) (by
          rw [h.cap_eq, Lru.total_nil]
          omega)
        hWrite
      rwa [List.nil_append] at hAll
    have hRoom := room_of_not_fits hIds hLarge
    have hShort :
        c'.lruCache.entries <:+ requestEntries input ids := by
      have hEither := suffix_writeBlocks h hLt hNodup
        (by simp) (Or.inl List.nil_suffix) hWrite
      rw [List.nil_append] at hEither
      exact hEither.resolve_left hSuffix
    rcases hShort with ⟨t, ht⟩
    rw [hSame.entries] at ht
    rcases List.map_eq_append_iff.mp ht.symm with
      ⟨first, later, hSplit, _, hLater⟩
    cases later with
    | nil =>
        have hNil : ids ≠ [] := by
          intro hNil
          rw [hNil] at hLarge
          cases hLarge
        have hEmpty : c'.lruCache.entries = [] := by
          rw [hSame.entries, ← hLater]
          rfl
        exact absurd hEmpty
          (entries_writeBlocks_ne_nil h hLt (Or.inr hNil)
            hWrite)
    | cons id rest =>
        have hEntries :
            c.lruCache.entries =
              ((input.uuid, id), copySize input id) ::
                requestEntries input rest := hLater.symm
        rw [hSplit, writeBlocks_append] at hWrite
        rcases Option.bind_eq_some_iff.mp hWrite with
          ⟨c₁, hFirst, hRest⟩
        rw [hSplit] at hLt hNodup
        rw [List.forall_mem_append] at hLt
        have h₁ := h.writeBlocks hLt.1 hFirst
        have hApart := List.disjoint_of_nodup_append hNodup
        have hKey :
            ∀ y ∈ requestEntries input (id :: rest),
              ∀ j ∈ first, y.1 ≠ (input.uuid, j) := by
          intro y hy j hj hSameKey
          rcases List.mem_map.mp hy with ⟨k, hk, hyk⟩
          rw [← hyk] at hSameKey
          cases hSameKey
          exact hApart hj hk
        have hDropped :
            blockIn c₁.cachingMap (input.uuid, id) = none := by
          rcases entries_writeBlocks_or_dropped h hLt.1
              (List.Nodup.of_append_left hNodup) hEntries hKey
              hFirst with
            hAll | hNone
          · exfalso
            have hTotal := h₁.total_le hRoom
            rw [hAll, Lru.total_append,
              ← requestEntries_cons, total_requestEntries,
              total_requestEntries] at hTotal
            rw [hSplit, List.map_append,
              List.sum_append] at hLarge
            omega
          · exact hNone
        have hEntry :
            ((input.uuid, id), copySize input id) ∈
              c'.lruCache.entries := by
          rw [hSame.entries, hEntries]
          exact List.mem_cons_self
        rcases blockIn_writeBlocks_head h₁ hLt.2
            (List.Nodup.of_append_right hNodup) hRest hFile'
            hEntry with
          ⟨block, hBlock, hEnd⟩
        refine ⟨((input.uuid, id), copySize input id), ?_, ?_,
          block, hBlock, ?_⟩
        · rw [hEntries, List.head?_cons]
        · rw [hSplit]
          exact List.mem_append_right _ List.mem_cons_self
        · rw [← hSame.blocks, hEnd, hDropped]
          rfl

/- The list alone decides if a use can be noted. -/
theorem exists_set
    {size : Nat}
    (hLru : d.lruCache = c.lruCache)
    (hSet : c.set none e size = some c') :
    ∃ d', d.set none e size = some d' ∧
      d'.lruCache = c'.lruCache := by
  rcases set_cases hSet with ⟨gone, lru, hNew, hEq⟩
  rw [← hLru] at hNew
  refine ⟨{ d with
      cachingMap :=
        gone.foldl deleteEntryFromCache d.cachingMap
      lruCache := lru }, ?_, ?_⟩
  · rw [Cache.set, hNew]
    simp
  · rw [hEq]

section

variable (hLength : data'.length = data.length)
include hLength

/- A write returns for other bytes if it does for some. -/
theorem exists_toEmplace
    {block : Bytes}
    (hBlock : toEmplace input data id = some block) :
    ∃ block', toEmplace input data' id = some block' ∧
      block'.length = block.length := by
  have hSize := length_toEmplace hBlock
  rw [toEmplace] at hBlock
  split at hBlock
  · rename_i hInside
    rw [← hLength] at hInside
    have hSome :
        toEmplace input data' id =
          some ((data'.drop (copyOffset input id)).take
            (copySize input id)) := by
      rw [toEmplace, if_pos hInside]
    refine ⟨_, hSome, ?_⟩
    rw [length_toEmplace hSome, hSize]
  · cases hBlock

theorem exists_writeBlocks
    (hLru : d.lruCache = c.lruCache)
    (hWrite : c.writeBlocks input data ids = some c') :
    ∃ d', d.writeBlocks input data' ids = some d' := by
  induction ids generalizing c d with
  | nil => exact ⟨d, rfl⟩
  | cons id ids ih =>
      rcases Option.bind_eq_some_iff.mp hWrite with
        ⟨block, hBlock, hRest⟩
      rcases Option.bind_eq_some_iff.mp hRest with
        ⟨c₁, hSet, hNext⟩
      rcases exists_toEmplace hLength hBlock with
        ⟨block', hBlock', hSize⟩
      rcases exists_set hLru hSet with ⟨d₁, hSet', hLru₁⟩
      rw [← hSize] at hSet'
      have hSame :
          (d₁.emplaceBlock input.uuid id block').lruCache =
            (c₁.emplaceBlock input.uuid id block).lruCache := by
        rw [lruCache_emplaceBlock, lruCache_emplaceBlock, hLru₁]
      rcases ih hSame hNext with ⟨d', hd'⟩
      refine ⟨d', ?_⟩
      rw [writeBlocks, hBlock']
      simp only [Option.bind_eq_bind, Option.bind_some, hSet']
      exact hd'

theorem exists_collectBlocks
    {blocks blocks' end' : BlockMap}
    (hLru : d.lruCache = c.lruCache)
    (hCollect :
      c.collectBlocks input data ids blocks =
        some (end', c')) :
    ∃ r, d.collectBlocks input data' ids blocks' = some r := by
  induction ids generalizing c d blocks blocks' with
  | nil => exact ⟨_, rfl⟩
  | cons id ids ih =>
      rcases Option.bind_eq_some_iff.mp hCollect with
        ⟨block, hBlock, hRest⟩
      rcases Option.bind_eq_some_iff.mp hRest with
        ⟨c₁, hSet, hNext⟩
      rcases exists_toEmplace hLength hBlock with
        ⟨block', hBlock', hSize⟩
      rcases exists_set hLru hSet with ⟨d₁, hSet', hLru₁⟩
      rw [← hSize] at hSet'
      have hLater :
          ∃ r,
            d₁.collectBlocks input data' ids
              (emplace id block' blocks') = some r :=
        ih hLru₁ hNext
      rcases hLater with ⟨r, hr⟩
      refine ⟨r, ?_⟩
      rw [collectBlocks, hBlock']
      simp only [Option.bind_eq_bind, Option.bind_some, hSet']
      exact hr

theorem exists_writeToCache
    (hWrite : c.writeToCache input data = some c') :
    ∃ d', c.writeToCache input data' = some d' := by
  rw [Cache.writeToCache] at hWrite
  rcases Option.bind_eq_some_iff.mp hWrite with
    ⟨ids, hIds, hRest⟩
  unfold Cache.writeToCache
  rw [hIds]
  simp only [Option.bind_eq_bind, Option.bind_some]
  cases hFile : c.cachingMap.lookup input.uuid with
  | some blocks =>
      rw [hFile] at hRest
      exact exists_writeBlocks hLength rfl hRest
  | none =>
      rw [hFile] at hRest
      rcases Option.bind_eq_some_iff.mp hRest with
        ⟨⟨blocks, c₁⟩, hCollect, _⟩
      rcases exists_collectBlocks hLength rfl hCollect with
        ⟨r, hr⟩
      simp only
      rw [hr]
      exact ⟨_, rfl⟩

end

/- A file that was not cached is cached now. -/
theorem not_sameContents_of_new
    (hFile : c.cachingMap.lookup input.uuid = none)
    (hWrite : c.writeToCache input data = some c') :
    ¬ SameContents c c' := by
  intro hSame
  have hFiles := hSame.files input.uuid
  rw [Cache.writeToCache] at hWrite
  rcases Option.bind_eq_some_iff.mp hWrite with
    ⟨ids, hIds, hRest⟩
  rw [hFile] at hRest hFiles
  rcases Option.bind_eq_some_iff.mp hRest with
    ⟨⟨blocks, c₁⟩, _, hEnd⟩
  cases hEnd
  rw [lookup_emplace, if_pos rfl] at hFiles
  cases hFiles

theorem copySize_pos
    (hIds : getBlockIds input = some ids)
    (hId : id ∈ ids) :
    0 < copySize input id := by
  rcases getBlockIds_cases hIds with ⟨hEnds, hEq⟩ | ⟨_, hEq⟩
  · rw [hEq] at hId
    rcases mem_blockRange.mp hId with ⟨k, hk, hIdEq⟩
    rcases copy_of_range hEnds hk with ⟨_, hSize, hLt⟩
    rw [hIdEq, hSize]
    unfold blocksize at *
    omega
  · rw [hEq] at hId
    cases hId

/- All bytes of a block are bytes of the data. -/
theorem mem_of_mem_toEmplace
    {block : Bytes}
    {b : UInt8}
    (hBlock : toEmplace input data id = some block)
    (hb : b ∈ block) :
    b ∈ data := by
  rw [toEmplace] at hBlock
  split at hBlock
  · cases hBlock
    exact List.mem_of_mem_drop (List.mem_of_mem_take hb)
  · cases hBlock

/-
  If the cache is left as it was whatever the bytes are, there
  was nothing to do.
-/
theorem upToDate_of_sameContents
    (h : Bounded cachesize c)
    (hReturns : c.writeToCache input data = some c')
    (hAll :
      ∀ data' d', data'.length = data.length →
        c.writeToCache input data' = some d' →
        SameContents c d') :
    UpToDate c input := by
  have hFile : (c.cachingMap.lookup input.uuid).isSome := by
    by_contra hNot
    rw [Option.not_isSome_iff_eq_none] at hNot
    exact not_sameContents_of_new hNot hReturns
      (hAll data c' rfl hReturns)
  rcases Option.bind_eq_some_iff.mp hReturns with
    ⟨ids, hIds, _⟩
  have hEach :
      ∀ v : UInt8, UpToDate c input ∨
        ∃ x, c.lruCache.entries.head? = some x ∧
          x.1.2 ∈ ids ∧
          ∃ block,
            toEmplace input (List.replicate data.length v)
              x.1.2 = some block ∧
            blockIn c.cachingMap x.1 = some block := by
    intro v
    have hLength := List.length_replicate (n := data.length)
      (a := v)
    rcases exists_writeToCache hLength hReturns with ⟨d', hd'⟩
    have hSame := hAll _ d' hLength hd'
    rw [writeToCache_of_cached hIds hFile] at hd'
    exact upToDate_or_repeats h hIds hFile hd' hSame
  rcases hEach 0 with hDone | ⟨x, hx, hId, block, hBlock, hb⟩
  · exact hDone
  rcases hEach 1 with hDone | ⟨y, hy, _, block', hBlock', hb'⟩
  · exact hDone
  -- the same block would consist of zeros and of ones
  exfalso
  rw [hx] at hy
  cases hy
  rw [hb] at hb'
  cases hb'
  have hPos := copySize_pos hIds hId
  rw [← length_toEmplace hBlock] at hPos
  rcases List.exists_mem_of_length_pos hPos with ⟨b, hMem⟩
  have hZero :=
    List.eq_of_mem_replicate (mem_of_mem_toEmplace hBlock hMem)
  have hOne :=
    List.eq_of_mem_replicate (mem_of_mem_toEmplace hBlock' hMem)
  rw [hZero] at hOne
  exact absurd hOne (by decide)

/- The first block is inside of the data. -/
theorem toEmplace_of_writeToCache
    (hIds : getBlockIds input = some (id :: ids))
    (hWrite : c.writeToCache input data = some c') :
    ∃ block, toEmplace input data id = some block := by
  rw [Cache.writeToCache, hIds] at hWrite
  simp only [Option.bind_eq_bind, Option.bind_some] at hWrite
  cases hFile : c.cachingMap.lookup input.uuid with
  | some blocks =>
      rw [hFile] at hWrite
      rcases Option.bind_eq_some_iff.mp hWrite with
        ⟨block, hBlock, _⟩
      exact ⟨block, hBlock⟩
  | none =>
      rw [hFile] at hWrite
      rcases Option.bind_eq_some_iff.mp hWrite with
        ⟨_, hCollect, _⟩
      rcases Option.bind_eq_some_iff.mp hCollect with
        ⟨block, hBlock, _⟩
      exact ⟨block, hBlock⟩

/- Data shorter than a block is data for one block. -/
theorem eq_nil_of_short
    {block : Bytes}
    (hIds : getBlockIds input = some (id :: ids))
    (hShort : data.length < blocksize)
    (hBlock : toEmplace input data id = some block) :
    ids = [] := by
  have hSize := length_toEmplace hBlock
  have hInside : block.length ≤ data.length := by
    rw [toEmplace] at hBlock
    split at hBlock
    · rw [hSize]
      omega
    · cases hBlock
  rcases getBlockIds_cases hIds with ⟨hEnds, hEq⟩ | ⟨_, hEq⟩
  · have hCount : blockCount input = ids.length + 1 := by
      have hLength := congrArg List.length hEq
      rw [blockRange, List.length_map, List.length_range,
        List.length_cons] at hLength
      exact hLength.symm
    have hFirst : id = input.position.toNat / blocksize + 0 := by
      have hHead := congrArg List.head? hEq
      rw [blockRange, hCount, List.range_succ_eq_map] at hHead
      simpa using hHead
    rcases copy_of_range hEnds (k := 0) (by omega) with
      ⟨_, hCopy, _⟩
    rw [← hFirst] at hCopy
    have hNone : ids.length = 0 := by
      unfold blockCount at hCount
      unfold blocksize at *
      omega
    exact List.length_eq_zero_iff.mp hNone
  · cases hEq

/-
  A block that was not cached is cached now, or its file is
  gone.
-/
theorem not_sameContents_of_missing
    (h : Bounded cachesize c)
    (hId : id < 2 ^ 20)
    (hFile : (c.cachingMap.lookup input.uuid).isSome)
    (hNone : blockIn c.cachingMap (input.uuid, id) = none)
    (hWrite : c.writeBlocks input data [id] = some c') :
    ¬ SameContents c c' := by
  intro hSame
  rcases writeBlocks_cons h hId hWrite with
    ⟨_, c₁, _, hEmplaces, _, hEnd⟩
  have hLast : c₁ = c' := Option.some.inj hEnd
  rw [hLast] at hEmplaces
  have hFile' : (c'.cachingMap.lookup input.uuid).isSome := by
    rw [hSame.files]
    exact hFile
  have hSelf := hEmplaces.self hFile'
  rw [hSame.blocks, hNone] at hSelf
  cases hSelf

theorem readBlocks_singleton_none
    (hRead : c.readBlocks uuid [id] [] = some (none, c₁)) :
    blockIn c.cachingMap (uuid, id) = none ∧ c₁ = c := by
  rw [Cache.readBlocks] at hRead
  cases hFind : blockIn c.cachingMap (uuid, id) with
  | some b =>
      rw [hFind] at hRead
      rcases Option.bind_eq_some_iff.mp hRead with ⟨_, _, hEnd⟩
      cases hEnd
  | none =>
      rw [hFind] at hRead
      cases hRead
      exact ⟨rfl, rfl⟩

/-
  A read that is not cached changes the cache, if what it got
  is shorter than a block.
-/
theorem not_sameContents_of_missed
    (h : Bounded cachesize c)
    (hMissed : c.readFromCache input = some (none, c₁))
    (hShort : data.length < blocksize)
    (hWrite : c₁.writeToCache input data = some c') :
    ¬ SameContents c c' := by
  rw [Cache.readFromCache] at hMissed
  cases hFile : c.cachingMap.lookup input.uuid with
  | none =>
      rw [hFile] at hMissed
      cases hMissed
      exact not_sameContents_of_new hFile hWrite
  | some blocks =>
      rw [hFile] at hMissed
      rcases Option.bind_eq_some_iff.mp hMissed with
        ⟨ids, hIds, hRead⟩
      cases ids with
      | nil => cases hRead
      | cons id ids =>
          rcases toEmplace_of_writeToCache hIds hWrite with
            ⟨block, hBlock⟩
          have hOne := eq_nil_of_short hIds hShort hBlock
          subst hOne
          rcases readBlocks_singleton_none hRead with
            ⟨hNone, hSame⟩
          have hCached :
              (c.cachingMap.lookup input.uuid).isSome := by
            rw [hFile]
            rfl
          rw [hSame, writeToCache_of_cached hIds hCached]
            at hWrite
          exact not_sameContents_of_missing h
            (getBlockIds_lt hIds id List.mem_cons_self) hCached
            hNone hWrite

end Cache

----------
-- Failed Requests And The Cache
----------

namespace ProxyCommand

variable {σ : Type} {backend : Backend σ}
variable {p p' : ProxyCommand σ} {input : Jsre.Request}

/- What a request that failed leaves in the cache. -/
theorem FailedWrite.writeToCache
    (h : FailedWrite backend p input p') :
    p.cacheEngine.writeToCache input input.data =
      some p'.cacheEngine := by
  have hAfter := h.after
  simp only [startStoragePerform, cacheData,
    if_pos h.enabled] at hAfter
  rcases Option.map_eq_some_iff.mp hAfter with ⟨c, hc, hEq⟩
  rw [← hEq]
  exact hc

theorem FailedRead.writeToCache
    (h : FailedRead backend p input p') :
    ∃ c, p.cacheEngine.readFromCache input = some (none, c) ∧
      c.writeToCache input Chain.readTimeout =
        some p'.cacheEngine := by
  rcases h.missed with ⟨c, hMissed⟩
  refine ⟨c, hMissed, ?_⟩
  have hAfter := h.after
  simp only [startStoragePerform, hMissed, h.failed, cacheData,
    if_pos h.enabled] at hAfter
  rcases Option.map_eq_some_iff.mp hAfter with ⟨c', hc, hEq⟩
  rw [← hEq]
  exact hc

/- A storage that refuses everything. -/
def refusing : Backend Unit where
  read _ _ := Chain.readTimeout
  write _ _ := (Coordinator.timeoutReply, ())

/- A data function in front of it, with the cache given. -/
def refused (c : Cache) : ProxyCommand Unit :=
  { enableCache := true, cacheEngine := c, storage := () }

theorem failedWrite_refused
    {c c' : Cache}
    (h : c.writeToCache input input.data = some c') :
    FailedWrite refusing (refused c) input (refused c') where
  enabled := rfl
  failed := by
    change Coordinator.timeoutReply ≠ Coordinator.okReply
    decide
  after := by
    simp only [startStoragePerform, cacheData, refused,
      if_true, h]
    rfl

/-
  In every cache that calls reach, a write that returns and
  that failed leaves the contents as they were, whatever its
  bytes are, exactly when the request is up to date. A read
  that failed never does.
-/
theorem failed_unchanged_iff
    {cachesize : UInt32}
    {policy : EvictionPolicy}
    {calls : List Cache.Call}
    {c : Cache}
    (hRun :
      run Cache.call (Cache.empty cachesize policy)
        calls = some c)
    (input : Jsre.Request) :
    ((c.writeToCache input input.data).isSome →
        ((∀ (σ : Type) (backend : Backend σ)
            (p p' : ProxyCommand σ) (data : Bytes),
            data.length = input.data.length →
            p.cacheEngine = c →
            FailedWrite backend p { input with data := data }
              p' →
            c.SameContents p'.cacheEngine) ↔
          c.UpToDate input)) ∧
      ∀ (σ : Type) (backend : Backend σ)
        (p p' : ProxyCommand σ),
        p.cacheEngine = c → FailedRead backend p input p' →
        ¬ c.SameContents p'.cacheEngine := by
  have hBounded := Cache.bounded_of_run hRun
  refine ⟨?_, ?_⟩
  · intro hReturns
    rcases Option.isSome_iff_exists.mp hReturns with ⟨c', hc'⟩
    constructor
    · intro hAll
      apply Cache.upToDate_of_sameContents hBounded hc'
      intro data d' hLength hd'
      rw [← Cache.writeToCache_with_data input data data] at hd'
      exact hAll Unit refusing (refused c) (refused d') data
        hLength rfl (failedWrite_refused hd')
    · intro hUpToDate σ backend p p' data hLength hc hFailed
      have hWrite := hFailed.writeToCache
      rw [hc, Cache.writeToCache_with_data] at hWrite
      exact hUpToDate.sameContents hBounded hWrite
  · intro σ backend p p' hc hFailed
    rcases hFailed.writeToCache with ⟨c₁, hMissed, hWrite⟩
    rw [hc] at hMissed
    exact Cache.not_sameContents_of_missed hBounded hMissed
      (by decide) hWrite

/- The same bytes are written twice, the second time in vain. -/
theorem failed_unchanged_again :
    ∃ c,
      run Cache.call (Cache.empty 8192 .LRU)
        [Cache.fill 1 0 [1, 2]] = some c ∧
      ∀ (σ : Type) (backend : Backend σ)
        (p p' : ProxyCommand σ),
        p.cacheEngine = c →
        FailedWrite backend p (sampleRequest 1 0 2 [3, 4]) p' →
        c.SameContents p'.cacheEngine := by
  rcases Option.isSome_iff_exists.mp
      (show (run Cache.call (Cache.empty 8192 .LRU)
        [Cache.fill 1 0 [1, 2]]).isSome from by decide +kernel)
    with ⟨c, hRun⟩
  have hFacts :
      (run Cache.call (Cache.empty 8192 .LRU)
        [Cache.fill 1 0 [1, 2]]).all (fun c =>
          (c.writeToCache (sampleRequest 1 0 2 [3, 4])
            [3, 4]).isSome &&
          decide (c.UpToDate (sampleRequest 1 0 2 [3, 4]))) =
        true := by
    decide +kernel
  rw [hRun, Option.all_some, Bool.and_eq_true] at hFacts
  refine ⟨c, hRun, ?_⟩
  intro σ backend p p' hc hFailed
  exact ((failed_unchanged_iff hRun
    (sampleRequest 1 0 2 [3, 4])).1 hFacts.1).mpr
      (of_decide_eq_true hFacts.2) σ backend p p' [3, 4] rfl hc
      hFailed

theorem failedRead_refused
    {c c₁ c' : Cache}
    (hMissed : c.readFromCache input = some (none, c₁))
    (h : c₁.writeToCache input Chain.readTimeout = some c') :
    FailedRead refusing (refused c) input (refused c') where
  enabled := rfl
  missed := ⟨c₁, hMissed⟩
  failed := rfl
  after := by
    simp only [startStoragePerform, refused, hMissed, refusing,
      cacheData, if_true, h]
    rfl

/- Bytes that are cached for a file that was not. -/
theorem exists_cached
    {data block : Bytes}
    {e : Uuid × Nat}
    (h :
      ((Cache.empty 8192 .LRU).writeToCache input data).bind
        (fun c => Cache.blockIn c.cachingMap e) = some block) :
    ∃ c',
      (Cache.empty 8192 .LRU).writeToCache input data =
        some c' ∧
      Cache.blockIn c'.cachingMap e = some block ∧
      ¬ (Cache.empty 8192 .LRU).SameContents c' := by
  rcases Option.bind_eq_some_iff.mp h with ⟨c', hc', hBlock⟩
  exact ⟨c', hc', hBlock,
    Cache.not_sameContents_of_new rfl hc'⟩

/-
  The bytes of a write that failed are cached, and so is the
  beginning of the text of a read that timed out.
-/
theorem failed_cached :
    (∃ c',
      FailedWrite refusing (refused (Cache.empty 8192 .LRU))
        (sampleRequest 1 0 2 [1, 2]) (refused c') ∧
      Cache.blockIn c'.cachingMap (Vector.replicate 32 0, 0) =
        some [1, 2] ∧
      ¬ (Cache.empty 8192 .LRU).SameContents c') ∧
    ∃ c',
      FailedRead refusing (refused (Cache.empty 8192 .LRU))
        (sampleRequest 1 0 2 []) (refused c') ∧
      Cache.blockIn c'.cachingMap (Vector.replicate 32 0, 0) =
        some (Decimal.ascii "Er") ∧
      ¬ (Cache.empty 8192 .LRU).SameContents c' := by
  refine ⟨?_, ?_⟩
  · have hWrite :
        ((Cache.empty 8192 .LRU).writeToCache
          (sampleRequest 1 0 2 [1, 2]) [1, 2]).bind (fun c =>
            Cache.blockIn c.cachingMap
              (Vector.replicate 32 0, 0)) =
          some [1, 2] := by
      decide +kernel
    rcases exists_cached hWrite with
      ⟨c', hc', hBlock, hChanged⟩
    exact ⟨c', failedWrite_refused hc', hBlock, hChanged⟩
  · have hWrite :
        ((Cache.empty 8192 .LRU).writeToCache
          (sampleRequest 1 0 2 []) Chain.readTimeout).bind
            (fun c =>
              Cache.blockIn c.cachingMap
                (Vector.replicate 32 0, 0)) =
          some (Decimal.ascii "Er") := by
      decide +kernel
    rcases exists_cached hWrite with
      ⟨c', hc', hBlock, hChanged⟩
    exact ⟨c', failedRead_refused rfl hc', hBlock, hChanged⟩

end ProxyCommand

end Slfs
