import Slfs.DataFunction.CacheTable
import Slfs.DataFunction.CacheTransparency

/-
  What is copied into the cache.

  `write_to_cache` cuts the data into blocks by the position
  and the size of the request, not by the size of the data.
  For a reply of the storage that is shorter than what was
  asked for, the copy goes on behind its end.

  Main declarations:
    * `Cache.CopiesInside`
    * `Cache.lists_blocks_iff`
-/

----------
-- Offsets And Sizes Of Copies
----------

namespace Slfs

namespace Cache

/- All blocks of a request are copied from inside the data. -/
def CopiesInside (input : Jsre.Request) (data : Bytes) :
    Prop :=
  ∀ ids, getBlockIds input = some ids →
    ∀ id ∈ ids,
      copyOffset input id + copySize input id ≤ data.length

/- What is left of the size is computed without a borrow. -/
def SubtractsInside (input : Jsre.Request) : Prop :=
  ∀ ids, getBlockIds input = some ids →
    ∀ id ∈ ids,
      copyOffset input id ≤ input.size.toNat

variable {input : Jsre.Request}

/-
  A request whose range ends in 32 bits has the blocks of
  the range. One whose range wraps around has none.
-/
theorem getBlockIds_cases
    {ids : List Nat}
    (h : getBlockIds input = some ids) :
    (Ends input ∧ ids = blockRange input) ∨
      (¬ Ends input ∧ ids = []) := by
  by_cases hEnds : Ends input
  · rw [getBlockIds_of_ends hEnds] at h
    exact Or.inl ⟨hEnds, (Option.some.inj h).symm⟩
  · refine Or.inr ⟨hEnds, ?_⟩
    have hWraps :
        2 ^ 32 ≤ input.position.toNat + input.size.toNat := by
      by_contra hNot
      apply hEnds
      apply (getBlockIds_isSome_iff (by omega)).mp
      rw [h]
      rfl
    have hPos := input.position.toNat_lt
    have hSize := input.size.toNat_lt
    have hNone :
        ¬ input.position.toNat <
          (input.position.toNat + input.size.toNat) %
            2 ^ 32 := by
      omega
    have hZero : input.size.toNat ≠ 0 := by
      omega
    rw [getBlockIds, if_neg hZero, blockIdsFrom,
      if_neg hNone] at h
    exact (Option.some.inj h).symm

theorem mem_blockRange
    {id : Nat} :
    id ∈ blockRange input ↔
      ∃ k < blockCount input,
        id = input.position.toNat / blocksize + k := by
  simp only [blockRange, List.mem_map, List.mem_range]
  constructor
  · rintro ⟨k, hk, hEq⟩
    exact ⟨k, hk, hEq.symm⟩
  · rintro ⟨k, hk, hEq⟩
    exact ⟨k, hk, hEq.symm⟩

/- The k-th block of a range. -/
theorem copy_of_range
    (hEnds : Ends input)
    {k : Nat}
    (hk : k < blockCount input) :
    copyOffset input
          (input.position.toNat / blocksize + k) =
        blocksize * k ∧
      copySize input (input.position.toNat / blocksize + k) =
        min blocksize (input.size.toNat - blocksize * k) ∧
      blocksize * k < input.size.toNat := by
  have hSize := input.size.toNat_lt
  unfold Ends blockCount blocksize at hEnds
  unfold blockCount blocksize at hk
  have hOffset :
      copyOffset input
          (input.position.toNat / blocksize + k) =
        blocksize * k := by
    unfold copyOffset blocksize
    omega
  refine ⟨hOffset, ?_, ?_⟩
  · rw [copySize, hOffset]
    unfold blocksize
    omega
  · unfold blocksize
    omega

----------
-- Inside The Data
----------

theorem subtractsInside
    (input : Jsre.Request) :
    SubtractsInside input := by
  intro ids hIds id hId
  rcases getBlockIds_cases hIds with
    ⟨hEnds, hRange⟩ | ⟨_, hNone⟩
  · rw [hRange] at hId
    rcases mem_blockRange.mp hId with ⟨k, hk, hEq⟩
    rcases copy_of_range hEnds hk with ⟨hOffset, _, hLt⟩
    rw [hEq, hOffset]
    omega
  · rw [hNone] at hId
    cases hId

/- The last block ends where the request ends. -/
theorem size_le_of_copiesInside
    {data : Bytes}
    (hEnds : Ends input)
    (h : CopiesInside input data) :
    input.size.toNat ≤ data.length := by
  by_cases hZero : input.size.toNat = 0
  · omega
  · have hCount : 0 < blockCount input := by
      unfold blockCount blocksize
      omega
    rcases copy_of_range hEnds
        (by omega : blockCount input - 1 < blockCount input)
      with ⟨hOffset, hSize, _⟩
    have hLast := h _ (getBlockIds_of_ends hEnds)
      (input.position.toNat / blocksize +
        (blockCount input - 1))
      (mem_blockRange.mpr ⟨_, by omega, rfl⟩)
    rw [hOffset, hSize] at hLast
    unfold blockCount blocksize at hLast
    omega

/-
  What is left of the size never wraps around. The copies
  are inside of the data exactly when there are at least as
  many bytes as the request names, or no blocks to copy.
-/
theorem copies_inside_iff
    (input : Jsre.Request)
    (data : Bytes) :
    SubtractsInside input ∧
      (CopiesInside input data ↔
        input.size.toNat ≤ data.length ∨ ¬ Ends input) := by
  refine ⟨subtractsInside input, ?_, ?_⟩
  · intro h
    by_cases hEnds : Ends input
    · exact Or.inl (size_le_of_copiesInside hEnds h)
    · exact Or.inr hEnds
  · intro h ids hIds id hId
    rcases getBlockIds_cases hIds with
      ⟨hEnds, hRange⟩ | ⟨_, hNone⟩
    · have hLength : input.size.toNat ≤ data.length := by
        rcases h with hLength | hNot
        · exact hLength
        · exact absurd hEnds hNot
      rw [hRange] at hId
      rcases mem_blockRange.mp hId with ⟨k, hk, hEq⟩
      rcases copy_of_range hEnds hk with ⟨hOffset, hSize, hLt⟩
      rw [hEq, hOffset, hSize]
      omega
    · rw [hNone] at hId
      cases hId

/-
  A read of ten bytes of a file that does not exist: the
  storage answers with nothing, and ten bytes are copied.
-/
theorem copies_outside :
    (let input := ProxyCommand.sampleRequest 1 0 10 []
     getBlockIds input = some [0] ∧
      copyOffset input 0 = 0 ∧
      copySize input 0 = 10 ∧
      ((empty 8192 .LRU).writeToCache input []).isNone) := by
  decide +kernel

----------
-- Blocks That A Range Meets
----------

/- A byte of the range is in the block. -/
def Meets (input : Jsre.Request) (b : Nat) : Prop :=
  ∃ i,
    input.position.toNat ≤ i ∧
      i < input.position.toNat + input.size.toNat ∧
      i / blocksize = b

/- The loop ends, with the blocks of the range in order. -/
def ListsBlocks (input : Jsre.Request) : Prop :=
  ∃ ids,
    getBlockIds input = some ids ∧ ids.Pairwise (· < ·) ∧
      ∀ b, b ∈ ids ↔ Meets input b

theorem meets_iff
    (hSize : input.size.toNat ≠ 0)
    {b : Nat} :
    Meets input b ↔
      input.position.toNat / blocksize ≤ b ∧
        b ≤ (input.position.toNat + input.size.toNat - 1) /
          blocksize := by
  unfold Meets blocksize
  constructor
  · rintro ⟨i, hFirst, hLast, hBlock⟩
    omega
  · rintro ⟨hFirst, hLast⟩
    refine ⟨max input.position.toNat (b * 4096), ?_⟩
    omega

/-
  The loop steps from the position by whole blocks. It comes
  to the block of the last byte exactly if the range takes
  no more blocks from there than from the start of a block.
-/
theorem lists_blocks_iff
    (input : Jsre.Request)
    (hBound :
      input.position.toNat + input.size.toNat < 2 ^ 32) :
    ListsBlocks input ↔
      input.size.toNat = 0 ∨
        (input.position.toNat % blocksize +
            (input.size.toNat - 1) % blocksize < blocksize ∧
          Ends input) := by
  constructor
  · rintro ⟨ids, hIds, _, hMem⟩
    by_cases hZero : input.size.toNat = 0
    · exact Or.inl hZero
    · have hEnds : Ends input := by
        apply (getBlockIds_isSome_iff hBound).mp
        rw [hIds]
        rfl
      have hLast := (hMem _).mpr ((meets_iff hZero).mpr
        ⟨Nat.div_le_div_right (by omega), Nat.le_refl _⟩)
      rw [getBlockIds_of_ends hEnds] at hIds
      rw [← Option.some.inj hIds] at hLast
      rcases mem_blockRange.mp hLast with ⟨k, hk, hEq⟩
      refine Or.inr ⟨?_, hEnds⟩
      unfold blockCount blocksize at hk
      unfold blocksize at hEq ⊢
      omega
  · rintro (hZero | ⟨hLast, hEnds⟩)
    · refine ⟨[], ?_, List.Pairwise.nil, ?_⟩
      · rw [getBlockIds, if_pos hZero]
      · intro b
        unfold Meets
        simp only [List.not_mem_nil, false_iff]
        omega
    · refine ⟨_, getBlockIds_of_ends hEnds, ?_, ?_⟩
      · apply List.pairwise_map.mpr
        exact List.pairwise_lt_range.imp
          (fun h => Nat.add_lt_add_left h _)
      · intro b
        rw [mem_blockRange]
        by_cases hZero : input.size.toNat = 0
        · unfold Meets blockCount blocksize
          omega
        · rw [meets_iff hZero]
          unfold blocksize at hLast
          unfold blockCount blocksize
          constructor
          · rintro ⟨k, hk, hEq⟩
            omega
          · rintro ⟨hFirst, hTo⟩
            refine
              ⟨b - input.position.toNat / 4096, ?_, ?_⟩ <;>
              omega

/- A block and a byte from the start of a block. -/
theorem lists_blocks_aligned :
    ListsBlocks
      (ProxyCommand.sampleRequest 1 4096 4097 []) :=
  (lists_blocks_iff _ (by decide)).mpr (Or.inr (by decide))

/-
  Two bytes around the start of a block are in two blocks,
  and one is listed. For the first byte of the last block of
  32 bits the loop does not end.
-/
theorem blocks_not_listed :
    (let input := ProxyCommand.sampleRequest 1 4095 2 []
     getBlockIds input = some [0] ∧ Meets input 1) ∧
      ∀ fuel,
        blockIdsFrom (2 ^ 32 - 4095) fuel (2 ^ 32 - 4096) =
          none := by
  refine ⟨⟨by decide +kernel, 4096, by decide⟩, ?_⟩
  intro fuel
  refine blockIdsFrom_eq_none (r := 0) ?_ fuel (by decide)
    (by decide)
  intro p hp hMod
  unfold blocksize at hMod
  omega

end Cache

end Slfs
