import Slfs.Lib.Buffer

/-
  Buffers that are kept in blocks of one size.

  Only the last block may be short. A read gets whole blocks,
  filled up with the default element, so it sees the buffer up
  to the end of its last block.

  Main declarations:
    * `Blocks.block`
    * `Blocks.flatMap_range_span`
-/

----------
-- Blocks
----------

namespace Slfs

namespace Blocks

variable {α : Type} [Inhabited α] {b n : Nat}
variable {l m : List α}

omit [Inhabited α] in
/- Block `n` of a buffer, if there is one. -/
def block (b : Nat) (l : List α) (n : Nat) :
    Option (List α) :=
  if n * b < l.length then some ((l.drop (n * b)).take b)
  else none

/- Where the last block of a buffer ends. -/
def span (b : Nat) (l : List α) : Nat :=
  (l.length + (b - 1)) / b * b

omit [Inhabited α] in
theorem block_of_lt
    (h : n * b < l.length) :
    block b l n = some ((l.drop (n * b)).take b) :=
  if_pos h

omit [Inhabited α] in
theorem block_of_le
    (h : l.length ≤ n * b) :
    block b l n = none :=
  if_neg (Nat.not_lt.mpr h)

omit [Inhabited α] in
@[simp] theorem block_nil :
    block b ([] : List α) n = none :=
  block_of_le (Nat.zero_le _)

omit [Inhabited α] in
theorem lt_of_block
    (h : block b l n = some m) :
    n * b < l.length := by
  by_contra hNot
  rw [block_of_le (Nat.le_of_not_lt hNot)] at h
  cases h

omit [Inhabited α] in
theorem length_of_block
    (h : block b l n = some m) :
    m.length = min b (l.length - n * b) := by
  rw [block_of_lt (lt_of_block h)] at h
  cases h
  simp

/- An element of a block, as an element of the buffer. -/
theorem nth_of_block
    (h : block b l n = some m)
    {i : Nat}
    (hi : i < b) :
    Buffer.nth m i = Buffer.nth l (n * b + i) := by
  rw [block_of_lt (lt_of_block h)] at h
  cases h
  rw [Buffer.nth_take, if_pos hi, Buffer.nth_drop]

omit [Inhabited α] in
/- Blocks are there up to the end of the last one. -/
theorem lt_span_iff
    (hb : 0 < b)
    (x : Nat) :
    x < span b l ↔ x / b * b < l.length := by
  have hDiv := Nat.div_add_mod' x b
  have hMod := Nat.mod_lt x hb
  unfold span
  constructor
  · intro hx
    have hLt : x / b < (l.length + (b - 1)) / b :=
      (Nat.div_lt_iff_lt_mul hb).mpr hx
    have hLe : (x / b + 1) * b ≤ l.length + (b - 1) :=
      (Nat.le_div_iff_mul_le hb).mp hLt
    rw [Nat.succ_mul] at hLe
    omega
  · intro hx
    have hLe : (x / b + 1) * b ≤ l.length + (b - 1) := by
      rw [Nat.succ_mul]
      omega
    have hLt : x / b + 1 ≤ (l.length + (b - 1)) / b :=
      (Nat.le_div_iff_mul_le hb).mpr hLe
    exact (Nat.div_lt_iff_lt_mul hb).mp hLt

omit [Inhabited α] in
theorem length_le_span
    (hb : 0 < b) :
    l.length ≤ span b l := by
  by_contra hNot
  have hLt : ¬ span b l < span b l := Nat.lt_irrefl _
  rw [lt_span_iff hb] at hLt
  have hDiv := Nat.div_mul_le_self (span b l) b
  omega

/-
  Laying something over the start of a buffer does so in each
  block that it reaches into.
-/
theorem block_overlay
    (l src : List α)
    (b n : Nat) :
    block b (Buffer.overlay l 0 src) n =
      if n * b < src.length then
        some (Buffer.overlay ((block b l n).getD []) 0
          ((src.drop (n * b)).take b))
      else block b l n := by
  have hLength := Buffer.length_overlay l src 0
  rw [Nat.zero_add] at hLength
  by_cases hSrc : n * b < src.length
  · rw [if_pos hSrc, block_of_lt (by omega)]
    refine congrArg some (Buffer.ext_nth ?_ ?_)
    · by_cases hl : n * b < l.length
      · simp [block_of_lt hl]
        omega
      · simp [block_of_le (Nat.le_of_not_lt hl)]
        omega
    · intro i hi
      have hib : i < b := by
        simp only [List.length_take] at hi
        omega
      rw [Buffer.nth_take, if_pos hib, Buffer.nth_drop,
        Buffer.nth_overlay, Buffer.nth_overlay,
        Buffer.nth_take, if_pos (by omega : i - 0 < b),
        Buffer.nth_drop]
      simp only [List.length_take, List.length_drop,
        Nat.zero_add, Nat.sub_zero, Nat.zero_le, true_and]
      by_cases hIn : n * b + i < src.length
      · rw [if_pos hIn, if_pos (by omega)]
      · rw [if_neg hIn, if_neg (by omega)]
        by_cases hl : n * b < l.length
        · rw [block_of_lt hl, Option.getD_some,
            Buffer.nth_take, if_pos hib, Buffer.nth_drop]
        · rw [block_of_le (Nat.le_of_not_lt hl),
            Option.getD_none, Buffer.nth_of_length_le (by omega),
            Buffer.nth_of_length_le (by simp)]
  · rw [if_neg hSrc]
    by_cases hl : n * b < l.length
    · rw [block_of_lt hl, block_of_lt (by omega)]
      refine congrArg some (Buffer.ext_nth ?_ ?_)
      · simp
        omega
      · intro i hi
        rw [Buffer.nth_take, Buffer.nth_take, Buffer.nth_drop,
          Buffer.nth_drop, Buffer.nth_overlay,
          if_neg (by omega : ¬ (0 ≤ n * b + i ∧
            n * b + i < 0 + src.length))]
    · rw [block_of_le (Nat.le_of_not_lt hl),
        block_of_le (by omega)]

/- Reading block by block from the start of a buffer. -/
theorem flatMap_range_span
    (hb : 0 < b)
    (l : List α)
    (size : Nat) :
    (List.range size).flatMap
        (fun x => if x / b * b < l.length then
          [Buffer.nth l x] else []) =
      Buffer.resize l (min size (span b l)) := by
  have hCut :
      size = min size (span b l) + (size - span b l) := by
    omega
  have hIn : ∀ x ∈ List.range (min size (span b l)),
      (if x / b * b < l.length then [Buffer.nth l x] else []) =
        [Buffer.nth l x] := by
    intro x hx
    have hLt := List.mem_range.mp hx
    rw [if_pos ((lt_span_iff hb x).mp (by omega))]
  have hOut :
      (List.range (size - span b l)).flatMap (fun i =>
        if (min size (span b l) + i) / b * b < l.length then
          [Buffer.nth l (min size (span b l) + i)] else []) =
        [] := by
    refine List.flatMap_eq_nil_iff.mpr ?_
    intro i hi
    have hLt := List.mem_range.mp hi
    refine if_neg ?_
    rw [← lt_span_iff hb]
    omega
  conv_lhs => rw [hCut]
  rw [List.range_add, List.flatMap_append, List.flatMap_map,
    List.flatMap_congr hIn, hOut, ← List.map_eq_flatMap,
    List.append_nil]
  apply Buffer.ext_nth
  · simp
  · intro i hi
    have hLt : i < min size (span b l) := by simpa using hi
    rw [Buffer.nth_map_range, Buffer.nth_resize]

end Blocks

----------
-- Buffers That Agree From Some Index On
----------

namespace Buffer

variable {α : Type} [Inhabited α] {k : Nat}
variable {l m : List α}

/- Buffers of one length that differ before an index only. -/
structure AgreeFrom (k : Nat) (l m : List α) : Prop where
  length : l.length = m.length
  nth : ∀ x, k ≤ x → nth l x = nth m x

theorem AgreeFrom.refl
    (k : Nat)
    (l : List α) :
    AgreeFrom k l l :=
  ⟨rfl, fun _ _ => rfl⟩

/- The same holds after a write at their start. -/
theorem AgreeFrom.overlay
    {src dst : List α}
    (h : AgreeFrom k l m)
    (hData : AgreeFrom k src dst) :
    AgreeFrom k (overlay l 0 src) (overlay m 0 dst) where
  length := by simp [h.length, hData.length]
  nth := by
    intro x hx
    rw [nth_overlay, nth_overlay, hData.length, h.nth x hx]
    by_cases hIn : 0 ≤ x ∧ x < 0 + dst.length
    · rw [if_pos hIn, if_pos hIn, Nat.sub_zero,
        hData.nth x hx]
    · rw [if_neg hIn, if_neg hIn]

theorem AgreeFrom.resize
    (h : AgreeFrom k l m)
    (n : Nat) :
    AgreeFrom k (resize l n) (resize m n) where
  length := by simp
  nth := by
    intro x hx
    rw [nth_resize, nth_resize, h.nth x hx]

/- Data that ends before the index may be any. -/
theorem agreeFrom_of_length_le
    (hLength : l.length = m.length)
    (hk : l.length ≤ k) :
    AgreeFrom k l m where
  length := hLength
  nth := by
    intro x hx
    rw [nth_of_length_le (by omega), nth_of_length_le (by omega)]

end Buffer

end Slfs
