import Mathlib.Algebra.Order.Ring.Int
import Mathlib.Data.List.Basic
import Mathlib.Data.List.Nodup

/-
  Cutting a range of positions at the multiples of a block
  size.

  `chunks b first last` walks from `first` to `last` and
  emits one piece for every block of size `b` it crosses.

  Main declarations:
    * `Chunks.exists_chunk` (every position is covered)
    * `Chunks.flatMap_chunks` (the pieces join up)
-/

----------
-- The Cutting Loop
----------

namespace Slfs

/- One piece: a block, a window in it, and where it starts. -/
structure Chunk where
  block : Nat
  offset : Nat
  size : Nat
  start : Nat
deriving DecidableEq, Repr

namespace Chunks

/-
  The loop at position `cur`. Every round moves `cur` on, so
  `last - cur` rounds of fuel are enough.
-/
def chunksFrom (b first last : Nat) : Nat → Nat → List Chunk
| 0, _ => []
| fuel + 1, cur =>
    if cur < last then
      let size := min (last - cur) (b - cur % b)
      { block := cur / b, offset := cur % b,
        size := size, start := cur - first } ::
        chunksFrom b first last fuel (cur + size)
    else
      []

/- The pieces of the range from `first` to `last`. -/
def chunks (b first last : Nat) : List Chunk :=
  chunksFrom b first last (last - first) first

variable {b first last : Nat}

/- A loop that has reached its end emits nothing. -/
theorem chunksFrom_of_le
    {fuel cur : Nat}
    (h : last ≤ cur) :
    chunksFrom b first last fuel cur = [] := by
  cases fuel with
  | zero => rfl
  | succ fuel =>
      have hNot : ¬ cur < last := by omega
      simp [chunksFrom, hNot]

/- What one round of the loop emits, and where it goes on. -/
theorem chunksFrom_succ
    {fuel cur : Nat}
    (h : cur < last) :
    chunksFrom b first last (fuel + 1) cur =
      { block := cur / b, offset := cur % b,
        size := min (last - cur) (b - cur % b),
        start := cur - first } ::
        chunksFrom b first last fuel
          (cur + min (last - cur) (b - cur % b)) := by
  simp [chunksFrom, h]

/- An empty range has no pieces. -/
theorem chunks_of_le
    (h : last ≤ first) :
    chunks b first last = [] :=
  chunksFrom_of_le h

/-
  A piece is a non-empty window of its block and lies inside
  the range.
-/
structure Fits (b first last : Nat) (c : Chunk) : Prop where
  size_pos : 0 < c.size
  in_block : c.offset + c.size ≤ b
  position : c.block * b + c.offset = first + c.start
  in_range : first + c.start + c.size ≤ last

theorem fits_of_mem_chunksFrom
    (hb : 0 < b) :
    ∀ {fuel cur : Nat} {c : Chunk},
      first ≤ cur →
      c ∈ chunksFrom b first last fuel cur →
        Fits b first last c
| 0, _, _, _, hMem => by
    simp [chunksFrom] at hMem
| fuel + 1, cur, c, hCur, hMem => by
    by_cases hLt : cur < last
    · rw [chunksFrom_succ hLt] at hMem
      have hMod : cur % b < b := Nat.mod_lt _ hb
      rcases List.mem_cons.mp hMem with hHead | hTail
      · have hDiv : cur / b * b + cur % b = cur :=
          Nat.div_add_mod' cur b
        subst hHead
        constructor
        · simp only
          omega
        · simp only
          omega
        · simp only
          omega
        · simp only
          omega
      · exact fits_of_mem_chunksFrom hb (by omega) hTail
    · rw [chunksFrom_of_le (Nat.le_of_not_lt hLt)] at hMem
      simp at hMem

variable {c : Chunk}

theorem fits_of_mem_chunks
    (hb : 0 < b)
    (hMem : c ∈ chunks b first last) :
    Fits b first last c :=
  fits_of_mem_chunksFrom hb (Nat.le_refl _) hMem

----------
-- Blocks Increase
----------

/- The loop never goes back to an earlier block. -/
theorem div_le_block_of_mem
    (hb : 0 < b) :
    ∀ {fuel cur : Nat} {c : Chunk},
      c ∈ chunksFrom b first last fuel cur →
        cur / b ≤ c.block
| 0, _, _, hMem => by
    simp [chunksFrom] at hMem
| fuel + 1, cur, c, hMem => by
    by_cases hLt : cur < last
    · rw [chunksFrom_succ hLt] at hMem
      rcases List.mem_cons.mp hMem with hHead | hTail
      · subst hHead
        exact Nat.le_refl _
      · have hRec := div_le_block_of_mem hb hTail
        have hStep :
            cur / b ≤
              (cur + min (last - cur) (b - cur % b)) / b :=
          Nat.div_le_div_right (Nat.le_add_right _ _)
        exact Nat.le_trans hStep hRec
    · rw [chunksFrom_of_le (Nat.le_of_not_lt hLt)] at hMem
      simp at hMem

/- The blocks of the pieces increase strictly. -/
theorem pairwise_block_chunksFrom
    (hb : 0 < b) :
    ∀ (fuel cur : Nat),
      (chunksFrom b first last fuel cur).Pairwise
        (fun c d => c.block < d.block)
| 0, _ => by
    simp [chunksFrom]
| fuel + 1, cur => by
    by_cases hLt : cur < last
    · rw [chunksFrom_succ hLt]
      refine List.pairwise_cons.mpr
        ⟨?_, pairwise_block_chunksFrom hb fuel _⟩
      intro d hd
      have hMod : cur % b < b := Nat.mod_lt _ hb
      -- The piece either ends the range or ends its block.
      by_cases hEnd : last - cur ≤ b - cur % b
      · rw [Nat.min_eq_left hEnd,
          chunksFrom_of_le (by omega)] at hd
        simp at hd
      · rw [Nat.min_eq_right (by omega)] at hd
        have hNext : cur + (b - cur % b) = (cur / b + 1) * b := by
          have hDiv := Nat.div_add_mod' cur b
          rw [Nat.add_mul, Nat.one_mul]
          omega
        have hBlock := div_le_block_of_mem hb hd
        rw [hNext, Nat.mul_div_cancel _ hb] at hBlock
        exact hBlock
    · rw [chunksFrom_of_le (Nat.le_of_not_lt hLt)]
      exact List.Pairwise.nil

theorem pairwise_block_chunks
    (hb : 0 < b) :
    (chunks b first last).Pairwise
      (fun c d => c.block < d.block) :=
  pairwise_block_chunksFrom hb _ _

/- No block is visited twice. -/
theorem nodup_map_block_chunks
    (hb : 0 < b) :
    ((chunks b first last).map Chunk.block).Nodup := by
  refine List.pairwise_map.mpr ?_
  exact (pairwise_block_chunks hb).imp (fun h => Nat.ne_of_lt h)

----------
-- Coverage
----------

/- Quotient and rest of a position given by its block. -/
theorem div_mod_of_eq_mul_add
    {x q r : Nat}
    (hr : r < b)
    (hx : x = q * b + r) :
    x / b = q ∧ x % b = r := by
  have hb : 0 < b := by omega
  subst hx
  constructor
  · rw [Nat.mul_comm, Nat.mul_add_div hb, Nat.div_eq_of_lt hr,
      Nat.add_zero]
  · rw [Nat.mul_comm, Nat.mul_add_mod, Nat.mod_eq_of_lt hr]

/- The piece that covers position `x`. -/
structure Covers (b x : Nat) (c : Chunk) : Prop where
  block_eq : c.block = x / b
  offset_le : c.offset ≤ x % b
  lt_end : x % b < c.offset + c.size

theorem exists_chunk_chunksFrom
    (hb : 0 < b) :
    ∀ (fuel cur x : Nat),
      last - cur ≤ fuel → cur ≤ x → x < last →
        ∃ c ∈ chunksFrom b first last fuel cur,
          Covers b x c
| 0, cur, x, hFuel, hCur, hx => by
    omega
| fuel + 1, cur, x, hFuel, hCur, hx => by
    have hLt : cur < last := by omega
    have hMod : cur % b < b := Nat.mod_lt _ hb
    rw [chunksFrom_succ hLt]
    by_cases hHere :
        x < cur + min (last - cur) (b - cur % b)
    · refine ⟨_, List.mem_cons_self, ?_⟩
      -- `x` is in the same block as `cur`, at a later offset.
      have hx' : x = cur / b * b + (cur % b + (x - cur)) := by
        have hDiv := Nat.div_add_mod' cur b
        omega
      rcases div_mod_of_eq_mul_add (by omega) hx' with
        ⟨hBlock, hRest⟩
      constructor
      · simp only [hBlock]
      · simp only [hRest]
        omega
      · simp only [hRest]
        omega
    · rcases exists_chunk_chunksFrom hb fuel
          (cur + min (last - cur) (b - cur % b)) x
          (by omega) (by omega) hx with
        ⟨c, hc, hCov⟩
      exact ⟨c, List.mem_cons_of_mem _ hc, hCov⟩

/- Every position of the range lies in one of the pieces. -/
theorem exists_chunk
    (hb : 0 < b)
    {x : Nat}
    (hFirst : first ≤ x)
    (hLast : x < last) :
    ∃ c ∈ chunks b first last, Covers b x c :=
  exists_chunk_chunksFrom hb _ _ x (Nat.le_refl _)
    hFirst hLast

----------
-- Joining The Pieces
----------

variable {α : Type}

theorem flatMap_chunksFrom
    (hb : 0 < b)
    (f : Nat → List α) :
    ∀ (fuel cur : Nat),
      first ≤ cur → last - cur ≤ fuel →
        (chunksFrom b first last fuel cur).flatMap
            (fun c => (List.range c.size).flatMap
              (fun i => f (first + c.start + i))) =
          (List.range (last - cur)).flatMap
            (fun i => f (cur + i))
| 0, cur, hCur, hFuel => by
    have h : last - cur = 0 := by omega
    simp [chunksFrom, h]
| fuel + 1, cur, hCur, hFuel => by
    by_cases hLt : cur < last
    · have hMod : cur % b < b := Nat.mod_lt _ hb
      rw [chunksFrom_succ hLt, List.flatMap_cons]
      set size := min (last - cur) (b - cur % b) with hSize
      have hSplit :
          last - cur = size + (last - (cur + size)) := by
        omega
      have hHead : first + (cur - first) = cur := by omega
      have hRec := flatMap_chunksFrom hb f fuel (cur + size)
        (by omega) (by omega)
      rw [hRec, hSplit, List.range_add, List.flatMap_append,
        List.flatMap_map]
      simp only [hHead, Nat.add_assoc]
    · rw [chunksFrom_of_le (Nat.le_of_not_lt hLt)]
      have h : last - cur = 0 := by omega
      simp [h]

/-
  The pieces, read one after another, are the range. A
  position may read as several elements or as none.
-/
theorem flatMap_chunks_list
    (hb : 0 < b)
    (first last : Nat)
    (f : Nat → List α) :
    (chunks b first last).flatMap
        (fun c => (List.range c.size).flatMap
          (fun i => f (first + c.start + i))) =
      (List.range (last - first)).flatMap
        (fun i => f (first + i)) :=
  flatMap_chunksFrom hb f _ _ (Nat.le_refl _) (Nat.le_refl _)

theorem flatMap_chunks
    (hb : 0 < b)
    (first last : Nat)
    (f : Nat → α) :
    (chunks b first last).flatMap
        (fun c => (List.range c.size).map
          (fun i => f (first + c.start + i))) =
      (List.range (last - first)).map
        (fun i => f (first + i)) := by
  simpa only [List.map_eq_flatMap] using
    flatMap_chunks_list hb first last (fun x => [f x])

theorem prefix_flatMap_chunksFrom
    (hb : 0 < b)
    (f : Nat → α)
    (g : Chunk → List α)
    (m : Nat) :
    ∀ (fuel cur : Nat),
      first ≤ cur → last - cur ≤ fuel → m ≤ last →
      (∀ c ∈ chunksFrom b first last fuel cur,
        first + c.start < m →
          g c = (List.range c.size).map
            (fun i => f (first + c.start + i))) →
        (List.range (m - cur)).map (fun i => f (cur + i)) <+:
          (chunksFrom b first last fuel cur).flatMap g
| 0, cur, hCur, hFuel, hm, hg => by
    have h : m - cur = 0 := by omega
    simp [h]
| fuel + 1, cur, hCur, hFuel, hm, hg => by
    by_cases hLt : cur < m
    · have hMod : cur % b < b := Nat.mod_lt _ hb
      have hLast : cur < last := by omega
      rw [chunksFrom_succ hLast] at hg ⊢
      set size := min (last - cur) (b - cur % b) with hSize
      have hHead : first + (cur - first) = cur := by omega
      have hRow := hg _ List.mem_cons_self (by
        simp only [hHead]; exact hLt)
      simp only [hHead] at hRow
      rw [List.flatMap_cons, hRow]
      by_cases hShort : m - cur ≤ size
      · -- the prefix ends in this piece
        have hRest : size = (m - cur) + (size - (m - cur)) := by
          omega
        rw [hRest, List.range_add, List.map_append,
          List.append_assoc]
        exact List.prefix_append _ _
      · have hRec := prefix_flatMap_chunksFrom hb f g m fuel
          (cur + size) (by omega) (by omega) hm
          (fun c hc => hg c (List.mem_cons_of_mem _ hc))
        have hSplit : m - cur = size + (m - (cur + size)) := by
          omega
        rw [hSplit, List.range_add, List.map_append,
          List.map_map]
        refine (List.prefix_append_right_inj _).mpr ?_
        simpa [Function.comp_def, Nat.add_assoc] using hRec
    · have h : m - cur = 0 := by omega
      simp [h]

/-
  When the pieces that start before `m` read as the range,
  what the pieces read starts with the range up to `m`.
-/
theorem prefix_flatMap_chunks
    (hb : 0 < b)
    {m : Nat}
    (hm : m ≤ last)
    (f : Nat → α)
    (g : Chunk → List α)
    (hg : ∀ c ∈ chunks b first last, first + c.start < m →
      g c = (List.range c.size).map
        (fun i => f (first + c.start + i))) :
    (List.range (m - first)).map (fun i => f (first + i)) <+:
      (chunks b first last).flatMap g :=
  prefix_flatMap_chunksFrom hb f g m _ _ (Nat.le_refl _)
    (Nat.le_refl _) hm hg

theorem offset_of_mem_chunksFrom
    (hb : 0 < b) :
    ∀ {fuel cur : Nat} {c : Chunk},
      cur % b = 0 →
      c ∈ chunksFrom b first last fuel cur → c.offset = 0
| 0, _, _, _, hMem => by
    simp [chunksFrom] at hMem
| fuel + 1, cur, c, hCur, hMem => by
    by_cases hLt : cur < last
    · rw [chunksFrom_succ hLt, hCur, Nat.sub_zero] at hMem
      rcases List.mem_cons.mp hMem with hHead | hTail
      · rw [hHead]
      · by_cases hLast : last - cur ≤ b
        · rw [Nat.min_eq_left hLast, chunksFrom_of_le (by omega)]
            at hTail
          cases hTail
        · rw [Nat.min_eq_right (by omega)] at hTail
          exact offset_of_mem_chunksFrom hb
            (by rw [Nat.add_mod_right, hCur]) hTail
    · rw [chunksFrom_of_le (Nat.le_of_not_lt hLt)] at hMem
      cases hMem

theorem size_of_mem_chunksFrom :
    ∀ {fuel cur : Nat} {c : Chunk},
      first ≤ cur →
      c ∈ chunksFrom b first last fuel cur →
        c.size = min (last - (first + c.start)) (b - c.offset)
| 0, _, _, _, hMem => by
    simp [chunksFrom] at hMem
| fuel + 1, cur, c, hCur, hMem => by
    by_cases hLt : cur < last
    · rw [chunksFrom_succ hLt] at hMem
      rcases List.mem_cons.mp hMem with hHead | hTail
      · have hStart : first + (cur - first) = cur := by omega
        rw [hHead]
        simp only [hStart]
      · exact size_of_mem_chunksFrom (by omega) hTail
    · rw [chunksFrom_of_le (Nat.le_of_not_lt hLt)] at hMem
      cases hMem

/- A piece ends with its block or with the range. -/
theorem size_of_mem_chunks
    (hMem : c ∈ chunks b first last) :
    c.size = min (last - (first + c.start)) (b - c.offset) :=
  size_of_mem_chunksFrom (Nat.le_refl _) hMem

/- Every piece but the first starts its block. -/
theorem offset_of_mem_chunks
    (hb : 0 < b)
    (hMem : c ∈ chunks b first last) :
    c.offset = 0 ∨
      c.block = first / b ∧ c.offset = first % b := by
  by_cases hLt : first < last
  · have hFuel : last - first = (last - first - 1) + 1 := by
      omega
    rw [chunks, hFuel, chunksFrom_succ hLt] at hMem
    rcases List.mem_cons.mp hMem with hHead | hTail
    · rw [hHead]
      exact Or.inr ⟨rfl, rfl⟩
    · have hMod : first % b < b := Nat.mod_lt first hb
      by_cases hLast : last - first ≤ b - first % b
      · rw [Nat.min_eq_left hLast, chunksFrom_of_le (by omega)]
          at hTail
        cases hTail
      · rw [Nat.min_eq_right (by omega)] at hTail
        -- the second round begins a block
        have hNext :
            first + (b - first % b) = (first / b + 1) * b := by
          have hDiv := Nat.div_add_mod first b
          rw [Nat.add_mul, Nat.mul_comm (first / b)]
          omega
        rw [hNext] at hTail
        exact Or.inl (offset_of_mem_chunksFrom hb
          (Nat.mul_mod_left _ b) hTail)
  · rw [chunks, chunksFrom_of_le (Nat.le_of_not_lt hLt)]
      at hMem
    cases hMem

/- From position zero on every piece starts its block. -/
theorem offset_of_mem_chunks_zero
    (hb : 0 < b)
    (hMem : c ∈ chunks b 0 last) :
    c.offset = 0 :=
  offset_of_mem_chunksFrom hb (Nat.zero_mod b) hMem

/- A piece from position zero on starts where its block does. -/
theorem start_div_of_mem_chunks_zero
    (hb : 0 < b)
    (hMem : c ∈ chunks b 0 last) :
    c.start / b = c.block := by
  have hPos := (fits_of_mem_chunks hb hMem).position
  have hOffset := offset_of_mem_chunks_zero hb hMem
  exact (div_mod_of_eq_mul_add hb
    (show c.start = c.block * b + 0 by omega)).1

----------
-- The Last Piece
----------

/-
  The last piece ends the range. It starts its block unless
  the whole range lies in this block.
-/
structure Ends (b cur last : Nat) (c : Chunk) : Prop where
  reach : c.block * b + c.offset + c.size = last
  offset : c.offset =
    if cur / b = (last - 1) / b then cur % b else 0

theorem getLast?_chunksFrom
    (hb : 0 < b) :
    ∀ (fuel : Nat) {cur : Nat},
      last - cur ≤ fuel →
      cur < last →
        ∃ c, (chunksFrom b first last fuel cur).getLast? =
            some c ∧ Ends b cur last c
| 0, cur, hFuel, hCur => by
    omega
| fuel + 1, cur, hFuel, hCur => by
    have hMod : cur % b < b := Nat.mod_lt _ hb
    have hDiv : cur / b * b + cur % b = cur :=
      Nat.div_add_mod' cur b
    rw [chunksFrom_succ hCur]
    by_cases hLast : last - cur ≤ b - cur % b
    · -- the rest of the range lies in one block
      rw [Nat.min_eq_left hLast, chunksFrom_of_le (by omega),
        List.getLast?_singleton]
      refine ⟨_, rfl, ?_, ?_⟩
      · simp only
        omega
      · have hSame : (last - 1) / b = cur / b :=
          (div_mod_of_eq_mul_add
            (show last - 1 - cur / b * b < b by omega)
            (by omega)).1
        rw [if_pos hSame.symm]
    · rw [Nat.min_eq_right (by omega)]
      have hNext : cur + (b - cur % b) = (cur / b + 1) * b := by
        rw [Nat.succ_mul]
        omega
      rcases getLast?_chunksFrom hb fuel
        (by omega : last - (cur + (b - cur % b)) ≤ fuel)
        (by omega) with
        ⟨c, hc, hEnds⟩
      refine ⟨c, ?_, hEnds.reach, ?_⟩
      · rw [List.getLast?_cons, hc]
        rfl
      · have hZero : (cur + (b - cur % b)) % b = 0 := by
          rw [hNext]
          exact Nat.mul_mod_left _ _
        have hOther : ¬ cur / b = (last - 1) / b := by
          intro hEq
          have hReach := Nat.div_add_mod' (last - 1) b
          have hBound : (last - 1) % b < b := Nat.mod_lt _ hb
          rw [← hEq] at hReach
          omega
        rw [if_neg hOther, hEnds.offset, hZero, ite_self]

theorem getLast?_chunks
    (hb : 0 < b)
    (h : first < last) :
    ∃ c, (chunks b first last).getLast? = some c ∧
      Ends b first last c :=
  getLast?_chunksFrom hb _ (Nat.le_refl _) h

end Chunks

end Slfs
