import Mathlib.Algebra.BigOperators.Group.List.Basic
import Mathlib.Algebra.Order.Ring.Int
import Mathlib.Data.List.Basic

/-
  Records that begin with a key and end with a separator.

  The reader takes a key and goes on behind the next
  separator. A separator inside a record makes it go on too
  early, and it never comes back into step without having read
  a wrong key or a record too many.

  Main declarations:
    * `Delimited.readKeys`
    * `Delimited.readKeys_iff`
-/

----------
-- Records
----------

namespace Slfs

namespace Delimited

variable {α : Type}

structure Record (α : Type) where
  key : List α
  body : List α

def Record.write (sep : α) (r : Record α) : List α :=
  r.key ++ (r.body ++ [sep])

variable [DecidableEq α]

/- Go on behind the next separator, or at the end. -/
def skip (sep : α) : List α → List α
| [] => []
| x :: xs => if x = sep then xs else skip sep xs

/- The keys of at most `n` records. -/
def readUpTo (width : Nat) (sep : α) :
    Nat → List α → Option (List (List α))
| _, [] => some []
| 0, _ :: _ => none
| n + 1, x :: xs =>
    if (x :: xs).length < width then none
    else
      (readUpTo width sep n
        (skip sep ((x :: xs).drop width))).map
        (fun keys => (x :: xs).take width :: keys)

/-
  The keys of all records. There is nothing if a key would
  reach beyond the end.
-/
def readKeys
    (width : Nat)
    (sep : α)
    (stream : List α) : Option (List (List α)) :=
  readUpTo width sep stream.length stream

----------
-- One Record
----------

variable {α : Type} [DecidableEq α] {sep : α}
variable {width : Nat}
variable {body rest stream before : List α} {n : Nat}

theorem skip_of_not_mem
    (h : sep ∉ body)
    (rest : List α) :
    skip sep (body ++ sep :: rest) = rest := by
  induction body with
  | nil => simp [skip]
  | cons b body ih =>
      rw [List.mem_cons, not_or] at h
      rw [List.cons_append, skip, if_neg (Ne.symm h.1), ih h.2]

/- A search that stops inside leaves all that follows. -/
theorem skip_of_mem
    (h : sep ∈ body)
    (rest : List α) :
    ∃ left, skip sep (body ++ rest) = left ++ rest := by
  rcases List.eq_append_cons_of_mem h with
    ⟨before, after, hEq, hFirst⟩
  refine ⟨after, ?_⟩
  rw [hEq, List.append_assoc, List.cons_append,
    skip_of_not_mem hFirst]

/- What is read after the key of a record. -/
theorem readUpTo_append
    {key : List α}
    (hKey : key.length = width)
    (hSome : key ++ rest ≠ []) :
    readUpTo width sep (n + 1) (key ++ rest) =
      (readUpTo width sep n (skip sep rest)).map
        (fun keys => key :: keys) := by
  rcases List.exists_cons_of_ne_nil hSome with ⟨x, xs, hEq⟩
  have hLong : ¬ (x :: xs).length < width := by
    rw [← hEq, List.length_append]
    omega
  rw [hEq, readUpTo, if_neg hLong, ← hEq, ← hKey,
    List.drop_left, List.take_left]

/- A reader that finds keys has found a whole first one. -/
theorem readUpTo_cons
    {key : List α}
    {keys : List (List α)}
    (h : readUpTo width sep n stream = some (key :: keys)) :
    ∃ m rest, n = m + 1 ∧ key.length = width ∧
      stream = key ++ rest ∧
      readUpTo width sep m (skip sep rest) = some keys := by
  cases stream with
  | nil => simp [readUpTo] at h
  | cons x xs =>
      cases n with
      | zero => simp [readUpTo] at h
      | succ m =>
          rw [readUpTo] at h
          by_cases hShort : (x :: xs).length < width
          · rw [if_pos hShort] at h
            cases h
          · rw [if_neg hShort] at h
            rcases Option.map_eq_some_iff.mp h with
              ⟨tail, hTail, hCons⟩
            cases hCons
            refine ⟨m, (x :: xs).drop width, rfl, ?_,
              (List.take_append_drop _ _).symm, hTail⟩
            rw [List.length_take]
            omega

/- All keys that are found are whole. -/
theorem length_of_readUpTo
    {keys : List (List α)}
    (h : readUpTo width sep n stream = some keys) :
    ∀ key ∈ keys, key.length = width := by
  induction keys generalizing n stream with
  | nil => simp
  | cons key keys ih =>
      rcases readUpTo_cons h with
        ⟨m, rest, _, hKey, _, hRest⟩
      rw [List.forall_mem_cons]
      exact ⟨hKey, ih hRest⟩

----------
-- All Records
----------

/-
  When the key is read at a place before its own, there is a
  separator between the end of what is read and the end of
  the key: the stretch has as many separators as the part of
  it that lies before the key.
-/
theorem sep_mem_of_behind
    {key tail : List α}
    (hSep : sep ∈ before)
    (hEq : before ++ key ++ tail = key ++ rest) :
    ∃ gap, sep ∈ gap ∧ rest = gap ++ tail := by
  have hLong : key.length ≤ (before ++ key).length := by
    rw [List.length_append]
    omega
  have hTake : (before ++ key).take key.length = key := by
    have hPrefix := congrArg (List.take key.length) hEq
    rwa [List.take_append_of_le_length hLong,
      List.take_left] at hPrefix
  have hCount :=
    congrArg (List.count sep)
      (List.take_append_drop key.length (before ++ key))
  rw [hTake, List.count_append, List.count_append] at hCount
  have hPos := List.count_pos_iff.mpr hSep
  refine ⟨(before ++ key).drop key.length,
    List.count_pos_iff.mp (by omega), ?_⟩
  have hDrop := congrArg (List.drop key.length) hEq
  rw [List.drop_append_of_le_length hLong,
    List.drop_left] at hDrop
  exact hDrop.symm

variable {records : List (Record α)}

/-
  A reader that is behind the records reads a wrong key, or
  too much.
-/
theorem readUpTo_of_behind
    (hSep : sep ∈ before) :
    readUpTo width sep n
        (before ++ records.flatMap (Record.write sep)) ≠
      some (records.map Record.key) := by
  induction records generalizing n before with
  | nil =>
      intro h
      rcases List.exists_cons_of_ne_nil
          (List.ne_nil_of_mem hSep) with ⟨x, xs, hEq⟩
      rw [List.flatMap_nil, List.append_nil, hEq] at h
      cases n with
      | zero => simp [readUpTo] at h
      | succ n =>
          rw [readUpTo] at h
          split at h
          · cases h
          · simp at h
  | cons r records ih =>
      intro h
      rw [List.map_cons] at h
      rcases readUpTo_cons h with
        ⟨m, rest, _, _, hStream, hRead⟩
      have hSplit :
          before ++ r.key ++
              (r.body ++ [sep] ++
                records.flatMap (Record.write sep)) =
            r.key ++ rest := by
        rw [← hStream, List.flatMap_cons, Record.write]
        simp only [List.append_assoc]
      rcases sep_mem_of_behind hSep hSplit with
        ⟨gap, hGap, hRest⟩
      rcases skip_of_mem hGap
          (r.body ++ [sep] ++
            records.flatMap (Record.write sep)) with
        ⟨left, hLeft⟩
      rw [hRest, hLeft, ← List.append_assoc] at hRead
      exact ih (by simp) hRead

/-
  The reader finds the keys of the records exactly when no
  record has a separator inside.
-/
theorem readUpTo_iff
    (hWidth : ∀ r ∈ records, r.key.length = width)
    (hn : records.length ≤ n) :
    readUpTo width sep n
        (records.flatMap (Record.write sep)) =
      some (records.map Record.key) ↔
        ∀ r ∈ records, sep ∉ r.body := by
  induction records generalizing n with
  | nil => simp [readUpTo]
  | cons r records ih =>
      rw [List.length_cons] at hn
      rcases Nat.exists_eq_succ_of_ne_zero
          (by omega : n ≠ 0) with ⟨m, hm⟩
      subst hm
      rw [List.forall_mem_cons] at hWidth
      have hStream :
          (r :: records).flatMap (Record.write sep) =
            r.key ++ (r.body ++ sep ::
              records.flatMap (Record.write sep)) := by
        rw [List.flatMap_cons, Record.write]
        simp only [List.append_assoc, List.singleton_append]
      rw [hStream, readUpTo_append hWidth.1 (by simp),
        List.forall_mem_cons, List.map_cons]
      by_cases hBody : sep ∈ r.body
      · -- the reader is behind from here on
        rcases skip_of_mem hBody
            (sep :: records.flatMap (Record.write sep)) with
          ⟨left, hLeft⟩
        have hBehind :
            readUpTo width sep m
                (left ++ [sep] ++
                  records.flatMap (Record.write sep)) ≠
              some (records.map Record.key) :=
          readUpTo_of_behind (by simp)
        rw [List.append_assoc, List.singleton_append,
          ← hLeft] at hBehind
        constructor
        · intro h
          rcases Option.map_eq_some_iff.mp h with
            ⟨keys, hKeys, hCons⟩
          cases hCons
          exact absurd hKeys hBehind
        · intro h
          exact absurd hBody h.1
      · rw [skip_of_not_mem hBody, ← ih (n := m) hWidth.2 (by omega)]
        constructor
        · intro h
          rcases Option.map_eq_some_iff.mp h with
            ⟨keys, hKeys, hCons⟩
          cases hCons
          exact ⟨hBody, hKeys⟩
        · intro h
          rw [h.2, Option.map_some]

theorem readKeys_iff
    (hWidth : ∀ r ∈ records, r.key.length = width) :
    readKeys width sep
        (records.flatMap (Record.write sep)) =
      some (records.map Record.key) ↔
        ∀ r ∈ records, sep ∉ r.body := by
  apply readUpTo_iff hWidth
  -- every record has at least its separator
  have hSum :=
    List.length_le_sum_of_one_le
      (records.map (fun r => (r.write sep).length)) (by
        intro n hn
        rcases List.mem_map.mp hn with ⟨r, _, hEq⟩
        rw [← hEq, Record.write]
        simp only [List.length_append, List.length_singleton]
        omega)
  rwa [List.length_map, ← List.length_flatMap] at hSum

end Delimited

end Slfs
