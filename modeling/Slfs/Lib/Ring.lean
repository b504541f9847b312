import Mathlib.Algebra.Order.Ring.Int
import Mathlib.Order.Bounds.Basic

/-
  Owners on a ring.

  The points of a ring own keys: a key belongs to the first
  point above it, and past the last point to the first one.
  Owners are searched for in sorted lists, by a walk or by
  halving the range.

  Main declarations:
    * `Ring.Owns`
    * `Ring.above_or_head_iff`
-/

----------
-- Owners
----------

namespace Slfs

namespace Ring

variable {α : Type} [LinearOrder α]

/- The point of a set that owns a key. -/
def Owns (P : Set α) (k o : α) : Prop :=
  IsLeast {x ∈ P | k < x} o ∨
    (∀ x ∈ P, ¬ k < x) ∧ IsLeast P o

variable {P : Set α} {k o q : α}

theorem Owns.mem
    (h : Owns P k o) :
    o ∈ P := by
  rcases h with h | ⟨_, h⟩
  · exact h.1.1
  · exact h.1

variable {o' : α} {r : Nat}

/- A key has one owner. -/
theorem Owns.unique
    (h : Owns P k o)
    (h' : Owns P k o') :
    o = o' := by
  rcases h with h | ⟨hNone, h⟩
  · rcases h' with h' | ⟨hNone', _⟩
    · exact h.unique h'
    · exact absurd h.1.2 (hNone' o h.1.1)
  · rcases h' with h' | ⟨_, h'⟩
    · exact absurd h'.1.2 (hNone o' h'.1.1)
    · exact h.unique h'

/- A point that stays among fewer points stays the owner. -/
theorem Owns.mono
    {Q : Set α}
    (h : Owns P k o)
    (hSubset : Q ⊆ P)
    (hMem : o ∈ Q) :
    Owns Q k o := by
  rcases h with h | ⟨hNone, h⟩
  · refine Or.inl ⟨⟨hMem, h.1.2⟩, ?_⟩
    intro x hx
    exact h.2 ⟨hSubset hx.1, hx.2⟩
  · refine Or.inr ⟨fun x hx => hNone x (hSubset hx), hMem, ?_⟩
    intro x hx
    exact h.2 (hSubset hx)

/- A new point takes keys for itself only. -/
theorem Owns.insert
    {o' : α}
    (h : Owns P k o)
    (h' : Owns (insert q P) k o') :
    o' = o ∨ o' = q := by
  rcases h'.mem with hNew | hOld
  · exact Or.inr hNew
  · exact Or.inl
      ((h'.mono (Set.subset_insert q P) hOld).unique h)

/- A point that goes gives away its own keys only. -/
theorem Owns.erase
    (h : Owns P k o)
    (h' : Owns (P \ {q}) k o') :
    o' = o ∨ o = q := by
  by_cases hGone : o = q
  · exact Or.inr hGone
  · have hStays : o ∈ P \ {q} := ⟨h.mem, hGone⟩
    exact Or.inl
      (h'.unique (h.mono Set.sdiff_subset hStays))

----------
-- Searches In Sorted Lists
----------

/- The first element above a key. -/
def above (l : List α) (k : α) : Option α :=
  l.find? (fun x => decide (k < x))

/-
  Search the elements from `first` on, `count` of them, for
  the first one above a key. Each round halves the count.
-/
def upperBoundLoop (l : List α) (k : α) :
    Nat → Nat → Nat → Nat
| 0, first, _ => first
| fuel + 1, first, count =>
    if count = 0 then first
    else
      let step := count / 2
      match l[first + step]? with
      | none => first
      | some x =>
          if k < x then
            upperBoundLoop l k fuel first step
          else
            upperBoundLoop l k fuel (first + step + 1)
              (count - (step + 1))

/- The place of the first element above a key. -/
def upperBound (l : List α) (k : α) : Nat :=
  upperBoundLoop l k l.length 0 l.length

/- The elements above a key are those from `r` on. -/
def Boundary (l : List α) (k : α) (r : Nat) : Prop :=
  ∀ i x, l[i]? = some x → (k < x ↔ r ≤ i)

variable {l : List α} {k : α}

theorem le_of_getElem?
    (hSorted : l.Pairwise (· ≤ ·))
    {i j : Nat}
    {x y : α}
    (hi : l[i]? = some x)
    (hj : l[j]? = some y)
    (hLe : i ≤ j) :
    x ≤ y := by
  rcases List.getElem?_eq_some_iff.mp hi with ⟨hLti, rfl⟩
  rcases List.getElem?_eq_some_iff.mp hj with ⟨hLtj, rfl⟩
  rcases Nat.lt_or_eq_of_le hLe with hLt | rfl
  · exact List.pairwise_iff_getElem.mp hSorted i j hLti hLtj hLt
  · exact le_refl _

/- Nothing is left to search. -/
theorem boundary_of_sides
    (hBelow : ∀ i x, l[i]? = some x → i < r → ¬ k < x)
    (hBehind : ∀ i x, l[i]? = some x → r ≤ i → k < x) :
    Boundary l k r := by
  intro i x hi
  constructor
  · intro hLt
    by_contra hNot
    exact hBelow i x hi (Nat.lt_of_not_le hNot) hLt
  · exact hBehind i x hi

/-
  The range that is still searched holds the boundary: below
  it nothing is above the key, behind it everything is.
-/
theorem boundary_upperBoundLoop
    (hSorted : l.Pairwise (· ≤ ·))
    {fuel first count : Nat}
    (hFuel : count ≤ fuel)
    (hRange : first + count ≤ l.length)
    (hBelow : ∀ i x, l[i]? = some x → i < first → ¬ k < x)
    (hBehind :
      ∀ i x, l[i]? = some x → first + count ≤ i → k < x) :
    Boundary l k (upperBoundLoop l k fuel first count) := by
  induction fuel generalizing first count with
  | zero =>
      have hZero : count = 0 := by omega
      subst hZero
      exact boundary_of_sides hBelow hBehind
  | succ fuel ih =>
      unfold upperBoundLoop
      by_cases hZero : count = 0
      · subst hZero
        rw [if_pos rfl]
        exact boundary_of_sides hBelow hBehind
      · have hIn : first + count / 2 < l.length := by omega
        have hMiddle :
            l[first + count / 2]? =
              some (l.get ⟨first + count / 2, hIn⟩) :=
          List.getElem?_eq_getElem hIn
        rw [if_neg hZero]
        simp only [hMiddle]
        split
        · next hAbove =>
            apply ih
            · omega
            · omega
            · exact hBelow
            · intro i x hi hLe
              exact lt_of_lt_of_le hAbove
                (le_of_getElem? hSorted hMiddle hi hLe)
        · next hNotAbove =>
            apply ih
            · omega
            · omega
            · intro i x hi hLt hAbove
              have hLe := le_of_getElem? hSorted hi hMiddle
                (Nat.le_of_lt_succ hLt)
              exact hNotAbove (lt_of_lt_of_le hAbove hLe)
            · intro i x hi hLe
              exact hBehind i x hi (by omega)

theorem boundary_upperBound
    (hSorted : l.Pairwise (· ≤ ·)) :
    Boundary l k (upperBound l k) := by
  apply boundary_upperBoundLoop hSorted
  · exact Nat.le_refl _
  · omega
  · intro i x _ hLt
    omega
  · intro i x hi hLe
    rw [List.getElem?_eq_none (by omega)] at hi
    cases hi

/- The search stays in its range. -/
theorem upperBoundLoop_le
    (l : List α)
    (k : α)
    (fuel first count : Nat) :
    upperBoundLoop l k fuel first count ≤ first + count := by
  induction fuel generalizing first count with
  | zero => exact Nat.le_add_right _ _
  | succ fuel ih =>
      unfold upperBoundLoop
      by_cases hZero : count = 0
      · rw [if_pos hZero]
        exact Nat.le_add_right _ _
      · have hLeft := ih first (count / 2)
        have hRight := ih (first + count / 2 + 1)
          (count - (count / 2 + 1))
        rw [if_neg hZero]
        dsimp only
        split
        · exact Nat.le_add_right _ _
        · split
          · omega
          · omega

theorem upperBound_le
    (l : List α)
    (k : α) :
    upperBound l k ≤ l.length := by
  have h := upperBoundLoop_le l k l.length 0 l.length
  rwa [Nat.zero_add] at h

/- The search finds what a walk over the list finds. -/
theorem getElem?_of_boundary
    (h : Boundary l k r) :
    l[r]? = above l k := by
  cases hGet : l[r]? with
  | none =>
      symm
      unfold above
      rw [List.find?_eq_none]
      intro x hx hAbove
      rcases List.getElem?_of_mem hx with ⟨i, hi⟩
      have hLe := (h i x hi).mp (of_decide_eq_true hAbove)
      rw [List.getElem?_eq_none_iff] at hGet
      rw [List.getElem?_eq_none (by omega)] at hi
      cases hi
  | some x =>
      symm
      unfold above
      rw [List.find?_eq_some_iff_getElem]
      rcases List.getElem?_eq_some_iff.mp hGet with
        ⟨hLt, hEq⟩
      refine ⟨?_, r, hLt, hEq, ?_⟩
      · exact decide_eq_true
          ((h r x hGet).mpr (Nat.le_refl _))
      · intro j hj
        have hBefore := h j (l.get ⟨j, by omega⟩)
          (List.getElem?_eq_getElem (by omega))
        simp only [Bool.not_eq_true', decide_eq_false_iff_not]
        intro hAbove
        exact absurd (hBefore.mp hAbove) (by omega)

theorem getElem?_upperBound
    (hSorted : l.Pairwise (· ≤ ·)) :
    l[upperBound l k]? = above l k :=
  getElem?_of_boundary (boundary_upperBound hSorted)

/-
  The first element above a key, or else the first one, is
  the owner.
-/
theorem owns_of_above_or_head
    (hSorted : l.Pairwise (· ≤ ·))
    (h : (above l k).or l.head? = some o) :
    Owns {x | x ∈ l} k o := by
  cases hAbove : above l k with
  | some x =>
      rw [hAbove] at h
      cases h
      rcases List.find?_eq_some_iff_getElem.mp hAbove with
        ⟨hLt, i, hi, rfl, hBefore⟩
      refine Or.inl
        ⟨⟨List.getElem_mem hi, of_decide_eq_true hLt⟩, ?_⟩
      rintro y ⟨hMem, hy⟩
      rcases List.getElem_of_mem hMem with ⟨j, hj, rfl⟩
      by_cases hPlace : i ≤ j
      · exact le_of_getElem? hSorted
          (List.getElem?_eq_getElem hi)
          (List.getElem?_eq_getElem hj) hPlace
      · have hNot := hBefore j (by omega)
        simp only [Bool.not_eq_true', decide_eq_false_iff_not]
          at hNot
        exact absurd hy hNot
  | none =>
      rw [hAbove, Option.none_or] at h
      rcases List.head?_eq_some_iff.mp h with ⟨rest, rfl⟩
      refine Or.inr ⟨?_, List.mem_cons_self, ?_⟩
      · intro x hx hLt
        have hNone := List.find?_eq_none.mp hAbove x hx
        exact hNone (decide_eq_true hLt)
      · intro x hx
        rcases List.mem_cons.mp hx with rfl | hx
        · exact le_refl _
        · exact (List.pairwise_cons.mp hSorted).1 x hx

/- There is an owner unless there are no points. -/
theorem above_or_head_eq_none
    (h : (above l k).or l.head? = none) :
    l = [] := by
  rw [Option.or_eq_none_iff] at h
  exact List.head?_eq_none_iff.mp h.2

theorem above_or_head_iff
    (hSorted : l.Pairwise (· ≤ ·))
    (o : α) :
    (above l k).or l.head? = some o ↔
      Owns {x | x ∈ l} k o := by
  constructor
  · exact owns_of_above_or_head hSorted
  · intro hOwns
    cases hFound : (above l k).or l.head? with
    | none =>
        have hNil := above_or_head_eq_none hFound
        subst hNil
        exact absurd hOwns.mem List.not_mem_nil
    | some o' =>
        have hSame :=
          (owns_of_above_or_head hSorted hFound).unique hOwns
        rw [hSame]

end Ring

end Slfs
