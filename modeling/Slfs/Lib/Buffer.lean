import Mathlib.Algebra.Order.Ring.Int
import Mathlib.Data.List.Basic

/-
  Byte buffers as lists: growing a buffer with a default
  element, copying a piece into it, and reading a window that
  runs past the end. Every operation is characterised by its
  length and by its element at each index.

  Main declarations:
    * `Buffer.resize`
    * `Buffer.copyInto`
    * `Buffer.overlay`
-/

----------
-- Element-Wise Equality
----------

namespace Slfs

namespace Buffer

variable {α : Type} [Inhabited α]

/- Element of a buffer, or the default past its end. -/
def nth (l : List α) (i : Nat) : α :=
  l.getD i default

variable {l m src : List α} {i pos : Nat}

/- The elements inside of a buffer. -/
theorem getElem?_eq_nth
    (hi : i < l.length) :
    l[i]? = some (nth l i) := by
  simp [nth, List.getD_eq_getElem?_getD, hi]

/- Buffers of one length with the same elements are equal. -/
theorem ext_nth
    (hLen : l.length = m.length)
    (hNth : ∀ i, i < l.length → nth l i = nth m i) :
    l = m := by
  apply List.ext_getElem hLen
  intro i hl hm
  have h := hNth i hl
  simpa [nth, List.getD_eq_getElem?_getD, hl, hm] using h

theorem nth_of_length_le
    (h : l.length ≤ i) :
    nth l i = default := by
  simp [nth, List.getD_eq_getElem?_getD, h]

theorem nth_append
    (l m : List α)
    (i : Nat) :
    nth (l ++ m) i =
      if i < l.length then nth l i else nth m (i - l.length) := by
  by_cases h : i < l.length
  · simp [nth, List.getD_eq_getElem?_getD, h,
      List.getElem?_append_left h]
  · simp [nth, List.getD_eq_getElem?_getD, h,
      List.getElem?_append_right (Nat.le_of_not_lt h)]

theorem nth_take
    (l : List α)
    (n i : Nat) :
    nth (l.take n) i = if i < n then nth l i else default := by
  by_cases h : i < n
  · simp [nth, List.getD_eq_getElem?_getD, h]
  · have hLen : (l.take n).length ≤ i := by
      simp only [List.length_take]
      omega
    rw [nth_of_length_le hLen, if_neg h]

theorem nth_drop
    (l : List α)
    (n i : Nat) :
    nth (l.drop n) i = nth l (n + i) := by
  simp [nth, List.getD_eq_getElem?_getD, List.getElem?_drop]

theorem nth_replicate
    (n i : Nat) :
    nth (List.replicate n (default : α)) i = default := by
  by_cases h : i < n
  · simp [nth, List.getD_eq_getElem?_getD, h]
  · simp [nth, List.getD_eq_getElem?_getD, h]

theorem nth_map_range
    (f : Nat → α)
    (n i : Nat) :
    nth ((List.range n).map f) i =
      if i < n then f i else default := by
  by_cases h : i < n
  · simp [nth, List.getD_eq_getElem?_getD, h]
  · simp [nth, List.getD_eq_getElem?_getD, h]

/- A buffer is the table of its own elements. -/
theorem eq_map_range
    (l : List α) :
    l = (List.range l.length).map (nth l) := by
  apply ext_nth
  · simp
  · intro i hi
    simp [nth_map_range, hi]

----------
-- Resizing
----------

/- Cut or grow a buffer to `n` elements; new ones are default. -/
def resize (l : List α) (n : Nat) : List α :=
  l.take n ++ List.replicate (n - l.length) default

@[simp] theorem length_resize
    (l : List α)
    (n : Nat) :
    (resize l n).length = n := by
  simp only [resize, List.length_append, List.length_take,
    List.length_replicate]
  omega

theorem nth_resize
    (l : List α)
    (n i : Nat) :
    nth (resize l n) i = if i < n then nth l i else default := by
  by_cases hn : i < n
  · by_cases hl : i < l.length
    · have h : i < (l.take n).length := by
        simp only [List.length_take]
        omega
      rw [resize, nth_append, if_pos h, nth_take]
    · have h : ¬ i < (l.take n).length := by
        simp only [List.length_take]
        omega
      rw [resize, nth_append, if_neg h, nth_replicate,
        if_pos hn, nth_of_length_le (Nat.le_of_not_lt hl)]
  · rw [nth_of_length_le (by simp; omega), if_neg hn]

----------
-- Copying A Piece Into A Buffer
----------

/-
  Overwrite `src.length` elements of `l` from `pos` on. The
  caller makes the buffer long enough first.
-/
def copyInto (l : List α) (pos : Nat) (src : List α) :
    List α :=
  l.take pos ++ src ++ l.drop (pos + src.length)

omit [Inhabited α] in
theorem length_copyInto
    (h : pos + src.length ≤ l.length) :
    (copyInto l pos src).length = l.length := by
  simp only [copyInto, List.length_append, List.length_take,
    List.length_drop]
  omega

theorem nth_copyInto
    (h : pos + src.length ≤ l.length)
    (i : Nat) :
    nth (copyInto l pos src) i =
      if pos ≤ i ∧ i < pos + src.length then
        nth src (i - pos)
      else
        nth l i := by
  have hTake : (l.take pos).length = pos := by
    simp only [List.length_take]
    omega
  simp only [copyInto, nth_append, List.length_append, hTake,
    nth_take, nth_drop]
  by_cases hLow : i < pos
  · have hIn : i < pos + src.length := by omega
    have hOut : ¬ (pos ≤ i ∧ i < pos + src.length) := by omega
    rw [if_pos hIn, if_pos hLow, if_pos hLow, if_neg hOut]
  · by_cases hHigh : i < pos + src.length
    · have hIn : pos ≤ i ∧ i < pos + src.length := by omega
      simp [hLow, hHigh, hIn]
    · have hOut : ¬ (pos ≤ i ∧ i < pos + src.length) := by
        omega
      have hIdx :
          pos + src.length + (i - (pos + src.length)) = i := by
        omega
      simp [hHigh, hIdx]

/-
  Lay `src` over `l` at `pos`, growing `l` when the piece
  ends past it.
-/
def overlay (l : List α) (pos : Nat) (src : List α) :
    List α :=
  copyInto (resize l (max (pos + src.length) l.length))
    pos src

@[simp] theorem length_overlay
    (l src : List α)
    (pos : Nat) :
    (overlay l pos src).length =
      max (pos + src.length) l.length := by
  unfold overlay
  rw [length_copyInto (by rw [length_resize]; omega),
    length_resize]

theorem nth_overlay
    (l src : List α)
    (pos i : Nat) :
    nth (overlay l pos src) i =
      if pos ≤ i ∧ i < pos + src.length then
        nth src (i - pos)
      else
        nth l i := by
  unfold overlay
  rw [nth_copyInto (by rw [length_resize]; omega),
    nth_resize]
  by_cases hLen : i < max (pos + src.length) l.length
  · simp [hLen]
  · have hOut : l.length ≤ i := by omega
    simp [hLen, nth_of_length_le hOut]

/- Something laid over nothing. -/
@[simp] theorem nil_overlay
    (src : List α) :
    overlay [] 0 src = src := by
  refine ext_nth (by simp) ?_
  intro x hx
  have hLt : x < src.length := by simpa using hx
  rw [nth_overlay, if_pos (by omega), Nat.sub_zero]

/- What was laid over the start is there. -/
theorem resize_overlay
    (l src : List α) :
    resize (overlay l 0 src) src.length = src := by
  refine ext_nth (by simp) ?_
  intro x hx
  have hLt : x < src.length := by simpa using hx
  rw [nth_resize, if_pos hLt, nth_overlay, if_pos (by omega),
    Nat.sub_zero]

----------
-- Windows
----------

/-
  The `n` elements of `l` from `pos` on, default where `l`
  has ended.
-/
def window (l : List α) (pos n : Nat) : List α :=
  resize ((l.drop pos).take n) n

@[simp] theorem length_window
    (l : List α)
    (pos n : Nat) :
    (window l pos n).length = n :=
  length_resize _ _

theorem nth_window
    (l : List α)
    (pos n i : Nat) :
    nth (window l pos n) i =
      if i < n then nth l (pos + i) else default := by
  unfold window
  rw [nth_resize, nth_take, nth_drop]
  by_cases h : i < n
  · simp [h]
  · simp [h]

/- A window is the table of the elements under it. -/
theorem window_eq_map
    (l : List α)
    (pos n : Nat) :
    window l pos n =
      (List.range n).map (fun i => nth l (pos + i)) := by
  apply ext_nth
  · simp
  · intro i hi
    have hi' : i < n := by simpa using hi
    simp [nth_window, nth_map_range, hi']

/- A window depends on the elements under it. -/
theorem window_congr
    {n : Nat}
    (h : ∀ i, i < n → nth l (pos + i) = nth m (pos + i)) :
    window l pos n = window m pos n := by
  rw [window_eq_map, window_eq_map]
  apply List.map_congr_left
  intro i hi
  exact h i (List.mem_range.mp hi)

----------
-- Records Of A Fixed Width
----------

/- A field of a record that is laid out field by field. -/
theorem window_flatten
    (fields : List (List α))
    (i pos n : Nat)
    {field : List α}
    (h : fields[i]? = some field)
    (hPos : ((fields.take i).map List.length).sum = pos)
    (hLen : field.length = n) :
    window fields.flatten pos n = field := by
  subst hPos hLen
  have hFlat : fields.flatten = (fields.take i).flatten ++
      (field ++ (fields.drop (i + 1)).flatten) := by
    rcases List.getElem?_eq_some_iff.mp h with ⟨hLt, hGet⟩
    rw [← hGet, ← List.flatten_cons, ← List.flatten_append,
      ← List.drop_eq_getElem_cons hLt, List.take_append_drop]
  apply ext_nth
  · simp
  · intro j hj
    have hLt : j < field.length := by simpa using hj
    rw [nth_window, if_pos hLt, hFlat, nth_append,
      List.length_flatten, if_neg (by omega),
      Nat.add_sub_cancel_left, nth_append, if_pos hLt]

/- Record `i` of a buffer of records of width `w`. -/
def slot (w : Nat) (l : List α) (i : Nat) : List α :=
  window l (w * i) w

@[simp] theorem length_slot
    (w : Nat)
    (l : List α)
    (i : Nat) :
    (slot w l i).length = w :=
  length_window _ _ _

/- A record depends on the elements under it. -/
theorem slot_congr
    {w : Nat}
    (h : ∀ x, w * i ≤ x → x < w * (i + 1) → nth l x = nth m x) :
    slot w l i = slot w m i := by
  unfold slot
  apply window_congr
  intro j hj
  exact h (w * i + j) (by omega) (by rw [Nat.mul_succ]; omega)

theorem slot_resize
    {w n : Nat}
    (l : List α)
    (h : w * (i + 1) ≤ n) :
    slot w (resize l n) i = slot w l i := by
  refine slot_congr ?_
  intro x _ hx
  rw [nth_resize, if_pos (by omega)]

/- Writing one record leaves the others as they are. -/
theorem slot_copyInto
    {w : Nat}
    (hSrc : src.length = w)
    (hFits : w * (i + 1) ≤ l.length)
    (j : Nat) :
    slot w (copyInto l (w * i) src) j =
      if j = i then src else slot w l j := by
  rw [Nat.mul_succ] at hFits
  by_cases hEq : j = i
  · subst hEq
    rw [if_pos rfl]
    apply ext_nth
    · simp [hSrc]
    · intro x hx
      have hLt : x < w := by simpa using hx
      rw [slot, nth_window, if_pos hLt,
        nth_copyInto (by omega), if_pos (by omega)]
      congr 1
      omega
  · rw [if_neg hEq]
    refine slot_congr ?_
    intro x hLow hHigh
    rw [nth_copyInto (by omega), if_neg ?_]
    intro hIn
    rw [hSrc] at hIn
    -- the two records do not overlap
    rcases Nat.lt_or_gt_of_ne hEq with hLt | hGt
    · have hMul : w * (j + 1) ≤ w * i := Nat.mul_le_mul_left w hLt
      omega
    · have hMul : w * (i + 1) ≤ w * j := Nat.mul_le_mul_left w hGt
      rw [Nat.mul_succ] at hMul
      omega

omit [Inhabited α] in
/- A list is made of its parts of `w` elements. -/
theorem flatMap_range_parts
    (w : Nat) :
    ∀ (n : Nat) (l : List α), l.length ≤ w * n →
      (List.range n).flatMap
        (fun k => (l.drop (w * k)).take w) = l
| 0, l, h => by
    have hNil : l = [] :=
      List.length_eq_zero_iff.mp (by omega)
    simp [hNil]
| n + 1, l, h => by
    have hRest :=
      flatMap_range_parts w n (l.drop w) (by
        rw [List.length_drop]
        rw [Nat.mul_succ] at h
        omega)
    rw [List.range_succ_eq_map, List.flatMap_cons,
      List.flatMap_map]
    simp only [Nat.mul_zero, List.drop_zero, Nat.mul_succ]
    simp only [List.drop_drop, Nat.add_comm w] at hRest
    rw [hRest, List.take_append_drop]

end Buffer

end Slfs
