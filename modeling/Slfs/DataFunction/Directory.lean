import Slfs.Lib.Table
import Slfs.Jsre.Meta

/-
  Editing the content of a directory file.

  Metadata operations look for a name in a directory file and
  write it back with an entry added, removed or changed. The
  edits of the bytes are edits of a list of entries. Every
  position in a content fits in 32 bits.

  Main declarations:
    * `Directory.Holds`, a content and its entries
    * `Directory.Holds.replace`
-/

----------
-- Edits
----------

namespace Slfs

namespace Directory

open Jsre

/- The first record of a content. -/
def stats (content : Bytes) : Stats :=
  Stats.parse (Buffer.slot recordSize content 0)

/- Entry `i`, counted from zero. -/
def entry (content : Bytes) (i : Nat) : FilemetaServer :=
  FilemetaServer.parse
    (Buffer.slot recordSize content (i + 1))

/- Size of a content with some number of entries. -/
def size (count : Nat) : Nat :=
  recordSize + count * recordSize

/- The loop that looks for a name and stops at the first. -/
def find (content : Bytes) (count : Nat) (name : Bytes) :
    Option Nat :=
  (List.range count).find?
    (fun i => (entry content i).name = name)

/- Add an entry at the end. -/
def append
    (content : Bytes)
    (stat : Stats)
    (r : FilemetaServer) :
    Bytes :=
  let stat := { stat with fileCount := stat.fileCount + 1 }
  let position := recordSize * stat.fileCount.toNat
  let content := Buffer.resize content (position + recordSize)
  let content := Buffer.copyInto content position r.serialize
  Buffer.copyInto content 0 stat.serialize

/- Move the last entry over entry `i` and drop the last. -/
def remove (content : Bytes) (stat : Stats) (i : Nat) :
    Bytes :=
  let content :=
    if i + 1 < stat.fileCount.toNat then
      Buffer.copyInto content (recordSize * (i + 1))
        (Buffer.slot recordSize content stat.fileCount.toNat)
    else
      content
  let stat := { stat with fileCount := stat.fileCount - 1 }
  let content :=
    Buffer.resize content (size stat.fileCount.toNat)
  Buffer.copyInto content 0 stat.serialize

/- Write entry `i` again. -/
def replace
    (content : Bytes)
    (stat : Stats)
    (i : Nat)
    (r : FilemetaServer) :
    Bytes :=
  Buffer.resize
    (Buffer.copyInto content (recordSize * (i + 1))
      r.serialize)
    (size stat.fileCount.toNat)

----------
-- The Entries Of A Content
----------

theorem size_eq
    (count : Nat) :
    size count = 64 * (count + 1) := by
  unfold size recordSize
  omega

/- A content counts and holds these entries, in this order. -/
structure Holds
    (content : Bytes)
    (entries : List FilemetaServer) :
    Prop where
  size_le : size entries.length ≤ content.length
  count : (stats content).fileCount.toNat = entries.length
  entry :
    ∀ i r, entries[i]? = some r →
      Directory.entry content i = r

variable {content : Bytes}
variable {entries : List FilemetaServer}
variable {content' : Bytes} {i : Nat}

/- Only the counted records matter. -/
theorem Holds.congr
    (h : Holds content entries)
    (hSize : size entries.length ≤ content'.length)
    (hNth : ∀ x < size entries.length,
      Buffer.nth content' x = Buffer.nth content x) :
    Holds content' entries := by
  have hSlot :
      ∀ i ≤ entries.length,
        Buffer.slot recordSize content' i =
          Buffer.slot recordSize content i := by
    intro i hi
    refine Buffer.slot_congr ?_
    intro x _ hx
    refine hNth x ?_
    rw [size_eq]
    change x < 64 * (i + 1) at hx
    omega
  refine
    { size_le := hSize
      count := ?_
      entry := ?_ }
  · unfold stats
    rw [hSlot 0 (Nat.zero_le _)]
    exact h.count
  · intro i r hr
    have hLt : i < entries.length :=
      (List.getElem?_eq_some_iff.mp hr).1
    unfold Directory.entry
    rw [hSlot (i + 1) hLt]
    exact h.entry i r hr

/- The count depends on the first record only. -/
theorem stats_congr
    (hNth : ∀ x < recordSize,
      Buffer.nth content' x = Buffer.nth content x) :
    stats content' = stats content := by
  refine congrArg Stats.parse (Buffer.slot_congr ?_)
  intro x _ hx
  exact hNth x (by rwa [Nat.mul_one] at hx)

/- Contents of one size whose records parse to the entries. -/
theorem holds_of_slots
    (stat : Stats)
    (hSize : content.length = size entries.length)
    (hStat : Buffer.slot recordSize content 0 = stat.serialize)
    (hCount : stat.fileCount.toNat = entries.length)
    (hEntry :
      ∀ i r, entries[i]? = some r →
        FilemetaServer.parse
          (Buffer.slot recordSize content (i + 1)) = r) :
    Holds content entries := by
  refine
    { size_le := Nat.le_of_eq hSize.symm
      count := ?_
      entry := hEntry }
  unfold stats
  rw [hStat, Stats.parse_serialize]
  exact hCount

/- The entries of a content, in their order. -/
theorem Holds.map_entry
    (h : Holds content entries) :
    (List.range entries.length).map (Directory.entry content) =
      entries := by
  apply List.ext_getElem (by simp)
  intro i hi hi'
  rw [List.getElem_map, List.getElem_range]
  exact h.entry i _ (List.getElem?_eq_getElem hi')

/- The loop finds the place of the first entry with a name. -/
theorem Holds.find_eq
    (h : Holds content entries)
    (name : Bytes) :
    find content entries.length name =
      entries.findIdx? (fun r => r.name = name) := by
  have hEntry : ∀ (i : Nat) (hi : i < entries.length),
      Directory.entry content i = entries[i] := by
    intro i hi
    exact h.entry i _ (List.getElem?_eq_getElem hi)
  ext i
  rw [find, List.find?_range_eq_some,
    List.findIdx?_eq_some_iff_getElem]
  constructor
  · rintro ⟨hName, hMem, hBefore⟩
    have hi := List.mem_range.mp hMem
    rw [hEntry i hi] at hName
    refine ⟨hi, hName, ?_⟩
    intro j hj hOther
    have hNot := hBefore j hj
    rw [hEntry j (Nat.lt_trans hj hi), hOther] at hNot
    cases hNot
  · rintro ⟨hi, hName, hBefore⟩
    rw [← hEntry i hi] at hName
    refine ⟨hName, List.mem_range.mpr hi, ?_⟩
    intro j hj
    have hNot := hBefore j hj
    rw [← hEntry j (Nat.lt_trans hj hi)] at hNot
    rw [Bool.not_eq_true', Bool.eq_false_iff]
    exact hNot

/- A name that is found. -/
theorem Holds.find_eq_some
    (h : Holds content entries)
    {name : Bytes}
    (hFind : find content entries.length name = some i) :
    ∃ r, entries[i]? = some r ∧ r.name = name := by
  rw [h.find_eq, List.findIdx?_eq_some_iff_getElem] at hFind
  rcases hFind with ⟨hLt, hName, _⟩
  exact ⟨entries[i], List.getElem?_eq_getElem hLt,
    of_decide_eq_true hName⟩

/- A name that is not found is not there. -/
theorem Holds.find_eq_none
    (h : Holds content entries)
    {name : Bytes} :
    find content entries.length name = none ↔
      name ∉ entries.map FilemetaServer.name := by
  rw [h.find_eq, List.findIdx?_eq_none_iff]
  simp

----------
-- Edits Of The Entries
----------

/- The content of a directory without entries. -/
theorem holds_nil
    {stat : Stats}
    (hZero : stat.fileCount = 0) :
    Holds stat.serialize [] := by
  refine holds_of_slots stat ?_ ?_ ?_ ?_
  · simp [size, recordSize]
  · apply Buffer.ext_nth
    · simp
    · intro i hi
      have hLt : i < recordSize := by simpa using hi
      rw [Buffer.slot, Buffer.nth_window, if_pos hLt,
        Nat.mul_zero, Nat.zero_add]
  · rw [hZero]
    rfl
  · intro i r hr
    simp at hr

/- Writing the first record leaves the entries alone. -/
theorem slot_stamp
    (stat : Stats)
    (h : recordSize ≤ content.length)
    (j : Nat) :
    Buffer.slot recordSize
        (Buffer.copyInto content 0 stat.serialize) j =
      if j = 0 then stat.serialize
      else Buffer.slot recordSize content j := by
  have hSlot := Buffer.slot_copyInto (l := content) (i := 0)
    stat.length_serialize (by rwa [Nat.mul_one]) j
  rwa [Nat.mul_zero] at hSlot

variable (h : Holds content entries)
include h

/- One more entry, as the 32-bit counter has it. -/
theorem Holds.count_succ
    (hBound : entries.length + 1 < 2 ^ 32) :
    ((stats content).fileCount + 1).toNat =
      entries.length + 1 := by
  rw [UInt32.toNat_add, h.count]
  exact Nat.mod_eq_of_lt hBound

theorem Holds.length_append
    (hBound : entries.length + 1 < 2 ^ 32)
    (r : FilemetaServer) :
    (append content (stats content) r).length =
      size (entries.length + 1) := by
  unfold append
  simp only [h.count_succ hBound]
  rw [Buffer.length_copyInto, Buffer.length_copyInto,
    Buffer.length_resize, size_eq]
  · unfold recordSize
    omega
  · simp
  · rw [Buffer.length_copyInto]
    · simp [recordSize]
    · simp

theorem Holds.append
    (hBound : entries.length + 1 < 2 ^ 32)
    (r : FilemetaServer) :
    Holds (append content (stats content) r)
      (entries ++ [r]) := by
  have hLength := h.length_append hBound r
  have hCount := h.count_succ hBound
  -- records of the grown content with the entry written
  have hGrown :
      ∀ j ≤ entries.length + 1,
        Buffer.slot recordSize
          (Buffer.copyInto
            (Buffer.resize content
              (recordSize * (entries.length + 1) + recordSize))
            (recordSize * (entries.length + 1)) r.serialize) j =
        if j = entries.length + 1 then r.serialize
        else Buffer.slot recordSize content j := by
    intro j hj
    rw [Buffer.slot_copyInto r.length_serialize
      (by rw [Buffer.length_resize, Nat.mul_succ])]
    by_cases hLast : j = entries.length + 1
    · rw [if_pos hLast, if_pos hLast]
    · rw [if_neg hLast, if_neg hLast, Buffer.slot_resize]
      unfold recordSize
      omega
  have hSlot :
      ∀ j ≤ entries.length + 1,
        Buffer.slot recordSize
            (Directory.append content (stats content) r) j =
          if j = 0 then
            ({ stats content with
              fileCount := (stats content).fileCount + 1 } :
                Stats).serialize
          else if j = entries.length + 1 then r.serialize
          else Buffer.slot recordSize content j := by
    intro j hj
    unfold Directory.append
    simp only [hCount]
    rw [slot_stamp]
    · rw [hGrown j hj]
    · rw [Buffer.length_copyInto]
      · simp [recordSize]
      · simp
  refine holds_of_slots
    { stats content with
      fileCount := (stats content).fileCount + 1 } ?_ ?_ ?_ ?_
  · rw [hLength]
    simp
  · rw [hSlot 0 (Nat.zero_le _), if_pos rfl]
  · rw [hCount]
    simp
  · intro i r' hr'
    have hLt : i < (entries ++ [r]).length :=
      (List.getElem?_eq_some_iff.mp hr').1
    rw [List.length_append, List.length_singleton] at hLt
    rw [hSlot (i + 1) hLt, if_neg (Nat.succ_ne_zero i)]
    by_cases hLast : i = entries.length
    · subst hLast
      have hEq : r = r' := by simpa using hr'
      rw [if_pos rfl, FilemetaServer.parse_serialize, hEq]
    · rw [if_neg (by omega)]
      rw [List.getElem?_append_left (by omega)] at hr'
      exact h.entry i r' hr'

/- One entry less, as the 32-bit counter has it. -/
theorem Holds.count_pred
    (hPos : 0 < entries.length) :
    ((stats content).fileCount - 1).toNat =
      entries.length - 1 := by
  have hLe : (1 : UInt32) ≤ (stats content).fileCount := by
    rw [UInt32.le_iff_toNat_le, h.count]
    exact hPos
  rw [UInt32.toNat_sub_of_le _ _ hLe, h.count]
  rfl

theorem Holds.length_le_moved
    (hi : i < entries.length)
    {record : Bytes}
    (hRecord : record.length = recordSize) :
    recordSize * (i + 1) + record.length ≤ content.length := by
  have hSize := h.size_le
  rw [size_eq] at hSize
  rw [hRecord]
  unfold recordSize
  omega

theorem Holds.length_remove
    (hi : i < entries.length) :
    (remove content (stats content) i).length =
      size (entries.length - 1) := by
  unfold remove
  simp only [h.count_pred (Nat.zero_lt_of_lt hi)]
  rw [Buffer.length_copyInto, Buffer.length_resize]
  rw [Stats.length_serialize, Buffer.length_resize, Nat.zero_add]
  exact Nat.le_add_right _ _

theorem Holds.remove
    {i : Nat}
    (hi : i < entries.length) :
    Holds (remove content (stats content) i)
      (Table.swapRemove entries i) := by
  have hLength := h.length_remove hi
  have hCount := h.count_pred (Nat.zero_lt_of_lt hi)
  have hSlot :
      ∀ j < entries.length,
        Buffer.slot recordSize
            (Directory.remove content (stats content) i) j =
          if j = 0 then
            ({ stats content with
              fileCount := (stats content).fileCount - 1 } :
                Stats).serialize
          else if j = i + 1 then
            Buffer.slot recordSize content entries.length
          else Buffer.slot recordSize content j := by
    intro j hj
    have hFits : recordSize * (j + 1) ≤
        size (entries.length - 1) := by
      rw [size_eq]
      unfold recordSize
      omega
    unfold Directory.remove
    simp only [hCount, h.count]
    rw [slot_stamp _ (by
      rw [Buffer.length_resize]
      exact Nat.le_add_right _ _), Buffer.slot_resize _ hFits]
    by_cases hLast : i + 1 < entries.length
    · rw [if_pos hLast, Buffer.slot_copyInto (by simp)]
      have hMoved := h.length_le_moved hi
        (Buffer.length_slot recordSize content entries.length)
      rwa [Buffer.length_slot, ← Nat.mul_succ] at hMoved
    · have hNe : ¬ j = i + 1 := by omega
      rw [if_neg hLast, if_neg hNe]
  have hSwap := Table.length_swapRemove entries i
  refine holds_of_slots
    { stats content with
      fileCount := (stats content).fileCount - 1 } ?_ ?_ ?_ ?_
  · rw [hLength, hSwap]
  · rw [hSlot 0 (Nat.zero_lt_of_lt hi), if_pos rfl]
  · rw [hCount, hSwap]
  · intro k r hr
    have hLt : k < entries.length - 1 := by
      rw [← hSwap]
      exact (List.getElem?_eq_some_iff.mp hr).1
    rw [Table.getElem?_swapRemove _ hLt] at hr
    rw [hSlot (k + 1) (by omega), if_neg (Nat.succ_ne_zero k)]
    by_cases hHole : k = i
    · rw [if_pos hHole] at hr
      rw [if_pos (by rw [hHole])]
      have hEntry := h.entry _ r hr
      unfold Directory.entry at hEntry
      rwa [Nat.sub_add_cancel (by omega)] at hEntry
    · rw [if_neg hHole] at hr
      rw [if_neg (by omega)]
      exact h.entry k r hr

theorem Holds.length_replace
    (i : Nat)
    (r : FilemetaServer) :
    (replace content (stats content) i r).length =
      size entries.length := by
  unfold replace
  rw [Buffer.length_resize, h.count]

theorem Holds.replace
    {i : Nat}
    (hi : i < entries.length)
    (r : FilemetaServer) :
    Holds (replace content (stats content) i r)
      (entries.set i r) := by
  have hFits := h.length_le_moved hi r.length_serialize
  have hSlot :
      ∀ j ≤ entries.length,
        Buffer.slot recordSize
            (Directory.replace content (stats content) i r) j =
          if j = i + 1 then r.serialize
          else Buffer.slot recordSize content j := by
    intro j hj
    unfold Directory.replace
    rw [h.count, Buffer.slot_resize,
      Buffer.slot_copyInto r.length_serialize]
    · rwa [r.length_serialize, ← Nat.mul_succ] at hFits
    · rw [size_eq]
      unfold recordSize
      omega
  refine
    { size_le := ?_
      count := ?_
      entry := ?_ }
  · rw [h.length_replace, List.length_set]
  · have hStats :
        stats (Directory.replace content (stats content) i r) =
          stats content :=
      congrArg Stats.parse ((hSlot 0 (Nat.zero_le _)).trans
        (if_neg (Nat.succ_ne_zero i).symm))
    rw [hStats, List.length_set]
    exact h.count
  · intro k r' hr'
    have hLt : k < entries.length := by
      simpa using (List.getElem?_eq_some_iff.mp hr').1
    unfold Directory.entry
    rw [hSlot (k + 1) hLt]
    rw [List.getElem?_set] at hr'
    by_cases hEq : i = k
    · subst hEq
      have hSame : r = r' := by simpa [hLt] using hr'
      rw [if_pos rfl, FilemetaServer.parse_serialize, hSame]
    · rw [if_neg hEq] at hr'
      rw [if_neg (by omega)]
      exact h.entry k r' hr'

end Directory

end Slfs
