import Slfs.DataFunction.Read

/-
  Reading over blocks that do not exist.

  A block that does not exist is answered with no bytes, and
  the answers are joined without looking at their lengths.
  What lies behind a missing block moves to the front.

  Main declarations:
    * `Cluster.StartsWithin`
    * `Cluster.reads_keep_offsets_iff`
-/

----------
-- Leaving Out
----------

namespace Slfs

namespace Holes

variable {α : Type} {f : Nat → Option α}

/-
  What is left of a range is in its place as long as nothing
  that is kept comes after something that is left out.
-/
theorem getElem?_filterMap_range
    {n : Nat}
    (hClosed :
      ∀ i j, i < j → j < n → (f j).isSome → (f i).isSome)
    {i : Nat}
    {v : α}
    (h : ((List.range n).filterMap f)[i]? = some v) :
    f i = some v := by
  induction n with
  | zero => simp at h
  | succ n ih =>
      rw [List.range_succ, List.filterMap_append] at h
      have hRest := ih
        (fun i j hij hj => hClosed i j hij (by omega))
      by_cases hi :
          i < ((List.range n).filterMap f).length
      · rw [List.getElem?_append_left hi] at h
        exact hRest h
      · rw [List.getElem?_append_right (by omega)] at h
        cases hLast : f n with
        | none => simp [hLast] at h
        | some w =>
            -- nothing before the last one is left out
            have hAll :
                ((List.range n).filterMap f).length = n := by
              have hCount :
                  (List.range n).countP
                      (fun j => (f j).isSome) =
                    (List.range n).length := by
                apply List.countP_eq_length.mpr
                intro j hj
                exact hClosed j n (List.mem_range.mp hj)
                  (by omega) (by simp [hLast])
              rw [List.length_filterMap_eq_countP, hCount,
                List.length_range]
            rw [hAll] at h hi
            have hZero : i = n := by
              by_contra hNe
              have hPos : i - n = (i - n - 1) + 1 := by omega
              rw [hPos] at h
              simp [hLast] at h
            subst hZero
            rw [hLast]
            simpa [hLast] using h

/-
  Otherwise there is less left than lies before the first
  one that is left out.
-/
theorem exists_none_of_not_closed
    {n i j : Nat}
    (hLt : i < j)
    (hj : j < n)
    (hKept : (f j).isSome)
    (hOut : f i = none) :
    ∃ m < ((List.range n).filterMap f).length,
      f m = none := by
  by_contra hNone
  have hAll :
      ∀ m < ((List.range n).filterMap f).length,
        (f m).isSome := by
    intro m hm
    by_contra hm'
    exact hNone ⟨m, hm, by simpa using hm'⟩
  generalize hLength :
    ((List.range n).filterMap f).length = l at hAll
  -- the first `l` are kept, and so is `j` behind them
  have hBehind : l ≤ i := by
    by_contra hNot
    have hSome := hAll i (by omega)
    simp [hOut] at hSome
  have hSplit : n = l + (n - l) := by omega
  rw [List.length_filterMap_eq_countP, hSplit,
    List.range_add, List.countP_append] at hLength
  have hFirst :
      (List.range l).countP (fun m => (f m).isSome) = l := by
    have hCount :
        (List.range l).countP (fun m => (f m).isSome) =
          (List.range l).length := by
      apply List.countP_eq_length.mpr
      intro m hm
      exact hAll m (List.mem_range.mp hm)
    rw [hCount, List.length_range]
  have hSecond :
      0 < ((List.range (n - l)).map (l + ·)).countP
        (fun m => (f m).isSome) := by
    apply List.countP_pos_iff.mpr
    refine ⟨j, ?_, hKept⟩
    apply List.mem_map.mpr
    exact ⟨j - l, List.mem_range.mpr (by omega), by omega⟩
  omega

end Holes

----------
-- What A Read Finds
----------

namespace Cluster

variable (conf : StorageConf)

/- The byte of a file at an offset whose block exists. -/
def found (c : Cluster) (uuid : Uuid) (x : Nat) :
    Option UInt8 :=
  if (c.block conf ⟨uuid, x / conf.blocksize⟩).content.isSome
  then some (c.byteAt conf uuid x)
  else none

variable {conf} {c : Cluster} {uuid : Uuid}

/- The answer to one request of a read, byte by byte. -/
theorem readAnswer_eq_found
    {position size : Nat}
    {chunk : Chunk}
    (hMem : chunk ∈ readChunks conf position size)
    {bytes : Bytes}
    (h : c.readAnswer conf uuid chunk = some bytes) :
    bytes =
      (List.range chunk.size).flatMap (fun i =>
        (c.found conf uuid
          (position + chunk.start + i)).toList) := by
  have hFit := Chunks.fits_of_mem_chunks conf.blocksize_pos hMem
  have hPos := hFit.position
  have hIn := hFit.in_block
  have hFound :
      ∀ i < chunk.size,
        c.found conf uuid (position + chunk.start + i) =
          if (c.block conf ⟨uuid, chunk.block⟩).content.isSome
          then some (c.byteAt conf uuid
            (position + chunk.start + i))
          else none := by
    intro i hi
    have hDiv :
        (position + chunk.start + i) / conf.blocksize =
          chunk.block :=
      (Chunks.div_mod_of_eq_mul_add
        (by omega : chunk.offset + i < conf.blocksize)
        (by omega)).1
    rw [found, hDiv]
  cases hContent :
      (c.block conf ⟨uuid, chunk.block⟩).content with
  | none =>
      rw [readAnswer_eq c hMem, hContent] at h
      cases h
      symm
      apply List.flatMap_eq_nil_iff.mpr
      intro i hi
      rw [hFound i (List.mem_range.mp hi), hContent]
      rfl
  | some block =>
      have hReach : chunk.offset ≤ block.length := by
        by_contra hOut
        rw [readAnswer_eq c hMem, hContent] at h
        simp only at h
        rw [Ssbd.rawblocksRead, if_pos (by omega)] at h
        cases h
      rw [readAnswer_of_content hMem hContent hReach] at h
      cases h
      rw [List.map_eq_flatMap]
      apply List.flatMap_congr
      intro i hi
      rw [hFound i (List.mem_range.mp hi), hContent]
      rfl

/- A read hands on what it finds, without the holes. -/
theorem readBytes_eq_found
    {position size : Nat}
    (hRange : position + size < 2 ^ 32)
    {bytes : Bytes}
    (h : c.readBytes conf uuid position size = some bytes) :
    bytes =
      (List.range size).filterMap (fun i =>
        c.found conf uuid (position + i)) := by
  unfold readBytes at h
  by_cases hZero : size = 0
  · rw [if_pos hZero] at h
    cases h
    simp [hZero]
  rw [if_neg hZero] at h
  rcases Option.map_eq_some_iff.mp h with
    ⟨answers, hAnswers, hEq⟩
  have hEach :
      (readChunks conf position size).mapM
          (c.readAnswer conf uuid) =
        some ((readChunks conf position size).map
          (fun chunk => (List.range chunk.size).flatMap
            (fun i => (c.found conf uuid
              (position + chunk.start + i)).toList))) := by
    apply mapM_option_eq_some
    intro chunk hMem
    cases hAnswer : c.readAnswer conf uuid chunk with
    | none =>
        have hNone := mapM_option_eq_none hMem hAnswer
        rw [readAnswers, hNone] at hAnswers
        cases hAnswers
    | some bytes =>
        rw [← readAnswer_eq_found hMem hAnswer]
  rw [readAnswers, hEach] at hAnswers
  cases hAnswers
  have hFlat := Chunks.flatMap_chunks_list conf.blocksize_pos
    position (position + size)
    (fun x => (c.found conf uuid x).toList)
  have hSize : position + size - position = size := by omega
  rw [hSize] at hFlat
  rw [← hEq, ← List.flatMap_def, readChunks,
    Nat.mod_eq_of_lt hRange, hFlat,
    List.filterMap_eq_flatMap_toList]

/- Reads from the start of a file are always answered. -/
theorem readBytes_zero_eq
    {size : Nat}
    (hSize : size < 2 ^ 32) :
    c.readBytes conf uuid 0 size =
      some ((List.range size).filterMap
        (c.found conf uuid)) := by
  have hReadable : c.Readable conf uuid 0 0 :=
    (readable_zero_iff (by decide)).mpr (by simp)
  rcases readBytes_prefix (Nat.zero_le size) hSize hReadable
    with ⟨bytes, hRead⟩
  rw [hRead, readBytes_eq_found (by omega) hRead]
  simp only [Nat.zero_add]

----------
-- Offsets
----------

variable (conf : StorageConf)

/-
  Whatever order the answers come in, a read is answered and
  hands on every byte of the file at its offset.
-/
def KeepsOffsets
    (c : Cluster)
    (uuid : Uuid)
    (position size : Nat) : Prop :=
  ∀ order,
    order.Perm
      (List.range (readChunks conf position size).length) →
    ∃ reply,
      c.startRead conf uuid position size order =
        some [reply] ∧
      ∀ i < reply.length,
        Buffer.nth reply i =
          c.byteAt conf uuid (position + i)

/-
  A read does not start behind the end of its first block. A
  server copies what lies behind a shorter block.
-/
def StartsWithin
    (c : Cluster)
    (uuid : Uuid)
    (position : Nat) : Prop :=
  ∀ block,
    (c.block conf ⟨uuid, position / conf.blocksize⟩).content =
      some block →
    position % conf.blocksize ≤ block.length

/- The blocks of a file that exist, none of them too long. -/
structure HasBlocks
    (c : Cluster)
    (uuid : Uuid)
    (present : Nat → Bool) : Prop where
  isSome :
    ∀ n, (c.block conf ⟨uuid, n⟩).content.isSome = present n
  length :
    ∀ n, (c.block conf ⟨uuid, n⟩).bytes.length ≤
      conf.blocksize

variable {conf} {position size : Nat}

/- It is enough to look at the bytes that are joined. -/
theorem keepsOffsets_iff
    (hSize : 0 < size)
    (hRange : position + size < 2 ^ 32) :
    c.KeepsOffsets conf uuid position size ↔
      ∃ bytes,
        c.readBytes conf uuid position size = some bytes ∧
        ∀ i < bytes.length,
          Buffer.nth bytes i =
            c.byteAt conf uuid (position + i) := by
  constructor
  · intro h
    rcases h _ (List.Perm.refl _) with ⟨reply, hReply, hBytes⟩
    rw [startRead_of_perm c hSize hRange (List.Perm.refl _)]
      at hReply
    rcases Option.map_eq_some_iff.mp hReply with
      ⟨_, hRead, hEq⟩
    cases hEq
    exact ⟨reply, hRead, hBytes⟩
  · rintro ⟨bytes, hRead, hBytes⟩ order hOrder
    refine ⟨bytes, ?_, hBytes⟩
    rw [startRead_of_perm c hSize hRange hOrder, hRead]
    rfl

/- What is answered starts within its first block. -/
theorem readBytes_isSome_iff
    (hSize : 0 < size)
    (hRange : position + size < 2 ^ 32) :
    (c.readBytes conf uuid position size).isSome ↔
      c.StartsWithin conf uuid position := by
  have hb := conf.blocksize_pos
  have hChunks : readChunks conf position size =
      Chunks.chunks conf.blocksize position
        (position + size) := by
    rw [readChunks, Nat.mod_eq_of_lt hRange]
  rw [readBytes, if_neg (by omega), Option.isSome_map]
  constructor
  · intro h block hContent
    rcases Chunks.exists_chunk hb (Nat.le_refl position)
      (by omega : position < position + size) with
      ⟨chunk, hMem, hCovers⟩
    rw [← hChunks] at hMem
    by_contra hBehind
    -- the chunk of the position itself has no answer
    have hFit := Chunks.fits_of_mem_chunks hb hMem
    have hDiv := Nat.div_add_mod' position conf.blocksize
    have hPos := hFit.position
    rw [hCovers.block_eq] at hPos
    have hNone : c.readAnswer conf uuid chunk = none := by
      rw [readAnswer_eq c hMem, hCovers.block_eq, hContent]
      simp only
      rw [Ssbd.rawblocksRead, if_pos (by omega)]
    rw [readAnswers, mapM_option_eq_none hMem hNone] at h
    cases h
  · intro h
    have hAnswer :
        ∀ chunk ∈ readChunks conf position size,
          c.readAnswer conf uuid chunk =
            some ((c.readAnswer conf uuid chunk).getD []) := by
      intro chunk hMem
      rw [readAnswer_eq c hMem]
      cases hContent :
          (c.block conf ⟨uuid, chunk.block⟩).content with
      | none => rfl
      | some block =>
          have hReach : chunk.offset ≤ block.length := by
            rcases Chunks.offset_of_mem_chunks hb
              (hChunks ▸ hMem) with hZero | ⟨hBlock, hFirst⟩
            · omega
            · rw [hBlock] at hContent
              rw [hFirst]
              exact h block hContent
          simp only
          rw [Ssbd.rawblocksRead_eq _ hReach]
          rfl
    rw [readAnswers, mapM_option_eq_some hAnswer]
    rfl

variable {present : Nat → Bool}

theorem found_of_present
    (h : c.HasBlocks conf uuid present)
    (x : Nat) :
    c.found conf uuid x =
      if present (x / conf.blocksize) then
        some (c.byteAt conf uuid x)
      else none := by
  rw [found, h.isSome]

/- Servers that hold the given blocks, full of ones. -/
def Ones
    (c : Cluster)
    (conf : StorageConf)
    (uuid : Uuid)
    (present : Nat → Bool) : Prop :=
  ∀ n, (c.block conf ⟨uuid, n⟩).content =
    if present n then some (List.replicate conf.blocksize 1)
    else none

theorem exists_ones
    (conf : StorageConf)
    (uuid : Uuid)
    (present : Nat → Bool) :
    ∃ c : Cluster, c.Ones conf uuid present := by
  classical
  let db : Db := fun name =>
    if ∃ n, present n = true ∧ name = BlockKey.name ⟨uuid, n⟩
    then some (List.replicate conf.blocksize 1)
    else none
  refine ⟨fun _ => { db := db, log := fun _ => none }, ?_⟩
  intro n
  have hIff :
      (∃ m, present m = true ∧
          BlockKey.name ⟨uuid, n⟩ = BlockKey.name ⟨uuid, m⟩) ↔
        present n = true := by
    constructor
    · rintro ⟨m, hPresent, hName⟩
      cases BlockKey.name_injective hName
      exact hPresent
    · intro hPresent
      exact ⟨n, hPresent, rfl⟩
  simp only [block, Ssbd.block, db, hIff]

namespace Ones

variable (h : c.Ones conf uuid present)

include h

theorem hasBlocks : c.HasBlocks conf uuid present := by
  constructor
  · intro n
    rw [h n]
    cases present n with
    | true => rfl
    | false => rfl
  · intro n
    rw [Block.bytes, h n]
    cases present n with
    | true => simp
    | false => simp

theorem byteAt_eq
    (z : Nat) :
    c.byteAt conf uuid z =
      if present (z / conf.blocksize) then 1 else 0 := by
  have hMod : z % conf.blocksize < conf.blocksize :=
    Nat.mod_lt z conf.blocksize_pos
  rw [byteAt, Block.bytes, h]
  cases present (z / conf.blocksize) with
  | true => simp [Buffer.nth, hMod]
  | false => rfl

theorem startsWithin
    (position : Nat) :
    c.StartsWithin conf uuid position := by
  intro block hBlock
  rw [h] at hBlock
  split at hBlock
  · cases hBlock
    rw [List.length_replicate]
    exact Nat.le_of_lt (Nat.mod_lt _ conf.blocksize_pos)
  · cases hBlock

end Ones

/- A hole before a block that exists is seen. -/
theorem exists_shifted
    (hSize : 0 < size)
    (hRange : position + size < 2 ^ 32)
    {x y : Nat}
    (hx : position ≤ x)
    (hxy : x < y)
    (hy : y < position + size)
    (hPresent : present (y / conf.blocksize) = true)
    (hMissing : present (x / conf.blocksize) = false) :
    ∃ c : Cluster, c.HasBlocks conf uuid present ∧
      c.StartsWithin conf uuid position ∧
      ¬ c.KeepsOffsets conf uuid position size := by
  rcases exists_ones conf uuid present with ⟨c, hOnes⟩
  have hBlocks := hOnes.hasBlocks
  refine ⟨c, hBlocks, hOnes.startsWithin position, ?_⟩
  rw [keepsOffsets_iff hSize hRange]
  rintro ⟨bytes, hRead, hKeeps⟩
  have hFound := readBytes_eq_found hRange hRead
  have hKept :
      (c.found conf uuid
        (position + (y - position))).isSome := by
    rw [show position + (y - position) = y by omega,
      found_of_present hBlocks, hPresent]
    rfl
  have hOut :
      c.found conf uuid (position + (x - position)) =
        none := by
    rw [show position + (x - position) = x by omega,
      found_of_present hBlocks, hMissing]
    rfl
  rcases Holes.exists_none_of_not_closed
      (f := fun i => c.found conf uuid (position + i))
      (by omega : x - position < y - position)
      (by omega : y - position < size) hKept hOut with
    ⟨m, hm, hNone⟩
  rw [← hFound] at hm
  -- what is read is a one, and nothing was written there
  have hZero : c.byteAt conf uuid (position + m) = 0 := by
    rw [found_of_present hBlocks] at hNone
    rw [hOnes.byteAt_eq]
    split at hNone
    · cases hNone
    · rename_i hGone
      rw [if_neg hGone]
  have hAll : ∀ v ∈ bytes, v = 1 := by
    intro v hv
    rw [hFound] at hv
    rcases List.mem_filterMap.mp hv with ⟨i, _, hi⟩
    rw [found_of_present hBlocks, hOnes.byteAt_eq] at hi
    split at hi
    · cases hi
      rfl
    · cases hi
  have hOne : Buffer.nth bytes m = 1 :=
    hAll _ (List.mem_of_getElem? (Buffer.getElem?_eq_nth hm))
  have hByte := hKeeps m hm
  rw [hZero, hOne] at hByte
  cases hByte

/-
  Whatever the blocks of a file hold, the reads that start
  within their first block are the ones that hand on every
  byte at its offset, exactly when in the range no block that
  exists comes after one that does not.
-/
theorem reads_keep_offsets_iff
    (conf : StorageConf)
    (uuid : Uuid)
    {position size : Nat}
    (hSize : 0 < size)
    (hRange : position + size < 2 ^ 32)
    (present : Nat → Bool) :
    (∀ c : Cluster, c.HasBlocks conf uuid present →
        (c.KeepsOffsets conf uuid position size ↔
          c.StartsWithin conf uuid position)) ↔
      ∀ x y, position ≤ x → x < y → y < position + size →
        present (y / conf.blocksize) = true →
        present (x / conf.blocksize) = true := by
  constructor
  · intro h x y hx hxy hy hPresent
    by_contra hMissing
    rw [Bool.not_eq_true] at hMissing
    have hShift : ∃ c : Cluster,
        c.HasBlocks conf uuid present ∧
          c.StartsWithin conf uuid position ∧
          ¬ c.KeepsOffsets conf uuid position size :=
      exists_shifted hSize hRange hx hxy hy hPresent hMissing
    rcases hShift with ⟨c, hBlocks, hStart, hShifted⟩
    exact hShifted ((h c hBlocks).mpr hStart)
  · intro h c hBlocks
    rw [← readBytes_isSome_iff hSize hRange,
      keepsOffsets_iff hSize hRange,
      Option.isSome_iff_exists]
    refine exists_congr (fun bytes => and_iff_left_of_imp ?_)
    intro hRead i hi
    have hFound := readBytes_eq_found hRange hRead
    have hGet := Buffer.getElem?_eq_nth hi
    rw [hFound] at hGet
    have hAt := Holes.getElem?_filterMap_range (n := size)
      ?_ hGet
    · rw [← hFound, found_of_present hBlocks] at hAt
      split at hAt
      · exact (Option.some.inj hAt).symm
      · cases hAt
    · intro j k hjk hk hKept
      simp only [found_of_present hBlocks] at hKept ⊢
      by_cases hThere :
          present ((position + k) / conf.blocksize) = true
      · have hBefore := h (position + j) (position + k)
          (by omega) (by omega) (by omega) hThere
        simp [hBefore]
      · simp [hThere] at hKept

/- A file of which only the second block exists. -/
def holed : Cluster :=
  fun _ =>
    { db := Db.put (fun _ => none)
        (BlockKey.name ⟨Vector.replicate 32 7, 1⟩) [5, 6, 7, 8]
      log := fun _ => none }

theorem content_holed
    (n : Nat) :
    (holed.block .small ⟨Vector.replicate 32 7, n⟩).content =
      if n = 1 then some [5, 6, 7, 8] else none := by
  by_cases hn : n = 1
  · subst hn
    simp [block, Ssbd.block, holed]
  · have hName :
        BlockKey.name ⟨Vector.replicate 32 7, n⟩ ≠
          BlockKey.name ⟨Vector.replicate 32 7, 1⟩ := by
      intro hEq
      cases BlockKey.name_injective hEq
      exact hn rfl
    simp [block, Ssbd.block, holed, Db.put_of_ne _ _ hName, hn]

/- The second block and the missing one behind it. -/
theorem reads_keep_offsets_behind :
    holed.KeepsOffsets .small (Vector.replicate 32 7) 4 8 := by
  have hSize : 0 < 8 := by decide
  have hRange : 4 + 8 < 2 ^ 32 := by decide
  refine ((reads_keep_offsets_iff .small _ hSize hRange
    (fun n => decide (n = 1))).mpr ?_ holed ?_).mpr
      (fun block _ => Nat.zero_le block.length)
  · intro x y hx hxy hy hPresent
    have hSize : StorageConf.small.blocksize = 4 := rfl
    rw [hSize, decide_eq_true_eq] at hPresent ⊢
    omega
  · constructor
    · intro n
      rw [content_holed]
      by_cases hn : n = 1
      · simp [hn]
      · simp [hn]
    · intro n
      rw [Block.bytes, content_holed]
      split
      · decide
      · simp

/- The second block is handed on in place of the first. -/
theorem reads_shift_holes :
    holed.startRead .small (Vector.replicate 32 7) 0 8 [0, 1] =
        some [[5, 6, 7, 8]] ∧
      (List.range 4).map
          (holed.byteAt .small (Vector.replicate 32 7)) =
        [0, 0, 0, 0] := by
  decide +kernel

end Cluster

end Slfs
