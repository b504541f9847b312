import Mathlib.Algebra.Order.Ring.Int

/-
  Maps that keep their keys in order.

  Main declarations:
    * `OrderedMap`
    * `OrderedMap.find`
    * `OrderedMap.mem_keys_iff_find`
-/

----------
-- Maps
----------

namespace Slfs

/- Entries with increasing keys. -/
structure OrderedMap (κ ν : Type) [LinearOrder κ] where
  entries : List (κ × ν)
  sorted : (entries.map Prod.fst).Pairwise (· < ·)

namespace OrderedMap

variable {κ ν : Type} [LinearOrder κ]

def empty : OrderedMap κ ν :=
  { entries := [], sorted := List.Pairwise.nil }

def keys (m : OrderedMap κ ν) : List κ :=
  m.entries.map Prod.fst

def size (m : OrderedMap κ ν) : Nat :=
  m.entries.length

def find (m : OrderedMap κ ν) (k : κ) : Option ν :=
  m.entries.lookup k

/- An entry in its place, unless its key is there already. -/
def insertSorted (e : κ × ν) : List (κ × ν) → List (κ × ν)
| [] => [e]
| f :: rest =>
    if e.1 < f.1 then e :: f :: rest
    else if e.1 = f.1 then f :: rest
    else f :: insertSorted e rest

theorem mem_keys_insertSorted
    (e : κ × ν)
    (l : List (κ × ν))
    (k : κ) :
    k ∈ (insertSorted e l).map Prod.fst ↔
      k = e.1 ∨ k ∈ l.map Prod.fst := by
  induction l with
  | nil => simp [insertSorted]
  | cons f rest ih =>
      unfold insertSorted
      split
      · simp
      · split
        · next hEq =>
            simp only [List.map_cons, List.mem_cons]
            rw [hEq]
            tauto
        · rw [List.map_cons, List.mem_cons, ih, List.map_cons,
            List.mem_cons]
          tauto

theorem sorted_insertSorted
    (e : κ × ν)
    {l : List (κ × ν)}
    (h : (l.map Prod.fst).Pairwise (· < ·)) :
    ((insertSorted e l).map Prod.fst).Pairwise (· < ·) := by
  induction l with
  | nil => simp [insertSorted]
  | cons f rest ih =>
      rw [List.map_cons, List.pairwise_cons] at h
      unfold insertSorted
      split
      · next hLt =>
          rw [List.map_cons, List.pairwise_cons]
          refine ⟨?_, List.pairwise_cons.mpr h⟩
          intro k hk
          rw [List.map_cons, List.mem_cons] at hk
          rcases hk with rfl | hk
          · exact hLt
          · exact lt_trans hLt (h.1 k hk)
      · next hNotLt =>
          split
          · exact List.pairwise_cons.mpr h
          · next hNe =>
              rw [List.map_cons, List.pairwise_cons]
              refine ⟨?_, ih h.2⟩
              intro k hk
              rcases (mem_keys_insertSorted e rest k).mp hk with
                rfl | hk
              · exact lt_of_le_of_ne (le_of_not_gt hNotLt)
                  (Ne.symm hNe)
              · exact h.1 k hk

def emplace (m : OrderedMap κ ν) (k : κ) (v : ν) :
    OrderedMap κ ν :=
  { entries := insertSorted (k, v) m.entries
    sorted := sorted_insertSorted (k, v) m.sorted }

@[simp] theorem keys_empty :
    (empty : OrderedMap κ ν).keys = [] := rfl

/- Emplacing adds its key and no other. -/
theorem mem_keys_emplace
    (m : OrderedMap κ ν)
    (k l : κ)
    (v : ν) :
    l ∈ (m.emplace k v).keys ↔ l = k ∨ l ∈ m.keys :=
  mem_keys_insertSorted (k, v) m.entries l

/- The keys are those that are found. -/
theorem mem_keys_iff_find
    (m : OrderedMap κ ν)
    (k : κ) :
    k ∈ m.keys ↔ (m.find k).isSome = true := by
  unfold keys find
  induction m.entries with
  | nil => simp
  | cons e rest ih =>
      rw [List.map_cons, List.mem_cons, List.lookup_cons]
      by_cases hEq : k = e.1
      · simp [hEq]
      · have hNot : (k == e.1) = false := by simpa using hEq
        rw [hNot, ← ih]
        simp [hEq]

end OrderedMap

end Slfs
