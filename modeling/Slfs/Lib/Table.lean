import Mathlib.Algebra.Order.Ring.Int
import Mathlib.Data.Finmap
import Mathlib.Data.List.AList
import Mathlib.Data.List.Perm.Basic

/-
  Unordered tables of records as finite maps.

  A table is a list of records with distinct keys. Its order
  does not matter: removing a record moves the last one into
  the hole.

  Main declarations:
    * `Table.Represents`, a table and its finite map
    * `Table.Represents.append`
    * `Table.Represents.swapRemove`
-/

----------
-- Removing A Record
----------

namespace Slfs

namespace Table

variable {ρ : Type}

/- Drop record `i` and put the last one in its place. -/
def swapRemove (l : List ρ) (i : Nat) : List ρ :=
  match l.getLast? with
  | none => []
  | some last => (l.set i last).dropLast

theorem swapRemove_append_singleton
    (l : List ρ)
    (last : ρ)
    (i : Nat) :
    swapRemove (l ++ [last]) i =
      if i < l.length then l.set i last else l := by
  unfold swapRemove
  rw [List.getLast?_concat]
  by_cases h : i < l.length
  · simp [h, List.set_append_left]
  · have hNil : ([last].set (i - l.length) last).dropLast = [] :=
      List.length_eq_zero_iff.mp (by simp)
    simp [h, List.set_append_right _ _ (Nat.le_of_not_lt h),
      hNil]

theorem length_swapRemove
    (l : List ρ)
    (i : Nat) :
    (swapRemove l i).length = l.length - 1 := by
  unfold swapRemove
  cases hLast : l.getLast? with
  | none =>
      have hNil : l = [] := List.getLast?_eq_none_iff.mp hLast
      simp [hNil]
  | some last => simp

/- Where the records are after a removal. -/
theorem getElem?_swapRemove
    (l : List ρ)
    {i j : Nat}
    (hj : j < l.length - 1) :
    (swapRemove l i)[j]? =
      if j = i then l[l.length - 1]? else l[j]? := by
  rcases List.eq_nil_or_concat l with hNil | ⟨init, last, hEq⟩
  · simp [hNil] at hj
  · rw [List.concat_eq_append] at hEq
    subst hEq
    have hLt : j < init.length := by simpa using hj
    rw [swapRemove_append_singleton,
      List.getElem?_append_left hLt]
    by_cases hi : j = i
    · subst hi
      simp [hLt]
    · have hNe : ¬ i = j := fun h => hi h.symm
      by_cases hInit : i < init.length
      · simp [hInit, hi, hNe]
      · simp [hInit, hi]

variable {i : Nat}

/- Nothing but record `i` is lost. -/
theorem perm_swapRemove
    {l : List ρ}
    {r : ρ}
    (h : l[i]? = some r) :
    l.Perm (r :: swapRemove l i) := by
  rcases List.getElem?_eq_some_iff.mp h with ⟨hLt, hGet⟩
  rcases List.eq_nil_or_concat l with hNil | ⟨init, last, hEq⟩
  · simp [hNil] at hLt
  · rw [List.concat_eq_append] at hEq
    subst hEq
    rw [swapRemove_append_singleton]
    by_cases hInit : i < init.length
    · rw [List.getElem_append_left hInit] at hGet
      subst hGet
      rw [if_pos hInit]
      have hLast : (init ++ [last]).Perm
          (last :: init[i] :: init.eraseIdx i) :=
        (List.perm_append_singleton _ _).trans
          ((List.getElem_cons_eraseIdx_perm hInit).symm.cons _)
      have hHole : (init[i] :: last :: init.eraseIdx i).Perm
          (init[i] :: init.set i last) :=
        (List.set_perm_cons_eraseIdx hInit _).symm.cons _
      exact (hLast.trans (List.Perm.swap _ _ _)).trans hHole
    · have hi : i = init.length := by
        simp only [List.length_append,
          List.length_singleton] at hLt
        omega
      subst hi
      have hLast : last = r := by simpa using h
      subst hLast
      rw [if_neg hInit]
      exact List.perm_append_singleton _ _

/- The first record that a search finds is the one erased. -/
theorem perm_eraseP
    {p : ρ → Bool}
    {l : List ρ}
    {r : ρ}
    (h : l.find? p = some r) :
    l.Perm (r :: l.eraseP p) := by
  rcases List.find?_eq_some_iff_append.mp h with
    ⟨hp, before, after, hEq, hBefore⟩
  have hSkip : ∀ b ∈ before, ¬ p b = true := by
    simpa using hBefore
  rw [hEq, List.eraseP_append_right _ hSkip,
    List.eraseP_cons_of_pos hp]
  exact List.perm_middle

/- Erasing the one record with a key. -/
theorem eraseP_eq_filter
    {κ : Type}
    [DecidableEq κ]
    (key : ρ → κ)
    {l : List ρ}
    (hNodup : (l.map key).Nodup)
    (k : κ) :
    l.eraseP (fun r => key r = k) =
      l.filter (fun r => key r ≠ k) := by
  induction l with
  | nil => rfl
  | cons r l ih =>
      rw [List.map_cons, List.nodup_cons] at hNodup
      by_cases hKey : key r = k
      · rw [List.eraseP_cons_of_pos (by simp [hKey]),
          List.filter_cons_of_neg (by simp [hKey])]
        apply (List.filter_eq_self.mpr _).symm
        intro x hx
        rw [decide_eq_true_eq]
        intro hSame
        apply hNodup.1
        rw [hKey, ← hSame]
        exact List.mem_map_of_mem hx
      · rw [List.eraseP_cons_of_neg (by simp [hKey]),
          List.filter_cons_of_pos (by simp [hKey]),
          ih hNodup.2]

/- A new record at the end keeps keys distinct if its is new. -/
theorem nodup_map_append_singleton
    {κ : Type}
    (key : ρ → κ)
    {l : List ρ}
    (hNodup : (l.map key).Nodup)
    {r : ρ}
    (hNew : key r ∉ l.map key) :
    ((l ++ [r]).map key).Nodup := by
  have hPerm :=
    (List.perm_append_singleton r l).map key
  rw [hPerm.nodup_iff, List.map_cons]
  exact List.nodup_cons.mpr ⟨hNew, hNodup⟩

theorem nodup_map_swapRemove
    {κ : Type}
    (key : ρ → κ)
    {l : List ρ}
    (hNodup : (l.map key).Nodup)
    {r : ρ}
    (h : l[i]? = some r) :
    ((swapRemove l i).map key).Nodup := by
  have hPerm := (perm_swapRemove h).map key
  rw [hPerm.nodup_iff, List.map_cons] at hNodup
  exact (List.nodup_cons.mp hNodup).2

/- Records with distinct keys are told apart by them. -/
theorem index_eq_of_key
    {κ : Type}
    {key : ρ → κ}
    {l : List ρ}
    (hNodup : (l.map key).Nodup)
    {i j : Nat}
    {r a : ρ}
    (hi : l[i]? = some r)
    (hj : l[j]? = some a)
    (hKey : key a = key r) :
    j = i := by
  have hi' : (l.map key)[i]? = some (key r) := by
    rw [List.getElem?_map, hi]
    rfl
  have hj' : (l.map key)[j]? = some (key r) := by
    rw [List.getElem?_map, hj, ← hKey]
    rfl
  exact (List.getElem?_inj
    (List.getElem?_eq_some_iff.mp hj').1 hNodup).mp
    (hj'.trans hi'.symm)

/- The records after one has been replaced. -/
theorem mem_set
    {l : List ρ}
    {r a : ρ}
    (h : a ∈ l.set i r) :
    a = r ∨ ∃ j, j ≠ i ∧ l[j]? = some a := by
  rcases List.getElem?_of_mem h with ⟨j, hj⟩
  by_cases hPlace : i = j
  · subst hPlace
    rw [List.getElem?_set_self'] at hj
    rcases Option.map_eq_some_iff.mp hj with ⟨_, _, hEq⟩
    exact Or.inl hEq.symm
  · rw [List.getElem?_set_ne hPlace] at hj
    exact Or.inr ⟨j, Ne.symm hPlace, hj⟩

/- A record that keeps its key keeps all keys. -/
theorem map_set_of_key
    {κ : Type}
    (key : ρ → κ)
    {l : List ρ}
    {r r' : ρ}
    (h : l[i]? = some r)
    (hKey : key r' = key r) :
    (l.set i r').map key = l.map key := by
  rcases List.getElem?_eq_some_iff.mp h with ⟨hLt, hGet⟩
  rw [List.map_set, hKey, ← hGet, ← List.map_set,
    List.set_getElem_self]

/- A record with another key, in the place of an old one. -/
theorem nodup_map_set_iff
    {κ : Type}
    (key : ρ → κ)
    {l : List ρ}
    (hNodup : (l.map key).Nodup)
    {r r' : ρ}
    (h : l[i]? = some r)
    (hKey : key r' ≠ key r) :
    ((l.set i r').map key).Nodup ↔ key r' ∉ l.map key := by
  rcases List.getElem?_eq_some_iff.mp h with ⟨hLt, hGet⟩
  have hSet := (List.set_perm_cons_eraseIdx hLt r').map key
  have hOld := (List.getElem_cons_eraseIdx_perm hLt).map key
  rw [hGet] at hOld
  rw [List.map_cons] at hSet hOld
  have hRest := hOld.nodup_iff.mpr hNodup
  rw [hSet.nodup_iff, List.nodup_cons, ← hOld.mem_iff,
    List.mem_cons]
  constructor
  · rintro ⟨hNot, _⟩ (hEq | hMem)
    · exact hKey hEq
    · exact hNot hMem
  · intro hNot
    exact ⟨fun hMem => hNot (Or.inr hMem),
      (List.nodup_cons.mp hRest).2⟩

/- A total over the records, after one has been replaced. -/
theorem sum_map_set
    (f : ρ → Nat)
    {l : List ρ}
    {r : ρ}
    (h : l[i]? = some r)
    (r' : ρ) :
    ((l.set i r').map f).sum + f r = (l.map f).sum + f r' := by
  rcases List.getElem?_eq_some_iff.mp h with ⟨hLt, hGet⟩
  have hSet :=
    ((List.set_perm_cons_eraseIdx hLt r').map f).sum_nat
  have hOld :=
    ((List.getElem_cons_eraseIdx_perm hLt).map f).sum_nat
  rw [hGet] at hOld
  simp only [List.map_cons, List.sum_cons] at hSet hOld
  omega

/- How many numbers have a property that one of them gains. -/
theorem countP_range_gain
    {p q : Nat → Bool}
    {n k : Nat}
    (hk : k < n)
    (hSame : ∀ i, i ≠ k → q i = p i)
    (hOld : p k = false) :
    (List.range n).countP q =
      (List.range n).countP p + if q k then 1 else 0 := by
  induction n with
  | zero => omega
  | succ n ih =>
      simp only [List.range_succ, List.countP_append,
        List.countP_singleton]
      by_cases hLast : k = n
      · subst hLast
        have hRest :
            (List.range k).countP q = (List.range k).countP p := by
          apply List.countP_congr
          intro i hi
          rw [hSame i (Nat.ne_of_lt (List.mem_range.mp hi))]
        simp [hRest, hOld]
      · rw [ih (by omega), hSame n (Ne.symm hLast)]
        omega

----------
-- Tables And Finite Maps
----------

variable {ρ κ ν : Type} (key : ρ → κ) (val : ρ → ν)

/- The records have distinct keys and are the map's entries. -/
structure Represents
    [DecidableEq κ]
    (l : List ρ)
    (m : Finmap (fun _ : κ => ν)) :
    Prop where
  nodup : (l.map key).Nodup
  lookup :
    ∀ k v, m.lookup k = some v ↔
      ∃ r ∈ l, key r = k ∧ val r = v

variable [DecidableEq κ] {key : ρ → κ} {val : ρ → ν}
variable {l l' : List ρ} {m : Finmap (fun _ : κ => ν)}

theorem represents_nil :
    Represents key val [] ∅ := by
  refine { nodup := List.nodup_nil, lookup := ?_ }
  intro k v
  simp

/- The order of a table does not matter. -/
theorem Represents.perm
    (h : Represents key val l m)
    (hPerm : l.Perm l') :
    Represents key val l' m := by
  refine
    { nodup := (hPerm.map key).nodup_iff.mp h.nodup
      lookup := ?_ }
  intro k v
  rw [h.lookup]
  simp only [hPerm.mem_iff]

theorem Represents.mem_iff
    (h : Represents key val l m)
    (k : κ) :
    k ∈ m ↔ k ∈ l.map key := by
  rw [Finmap.mem_iff, List.mem_map]
  constructor
  · rintro ⟨v, hv⟩
    rcases (h.lookup k v).mp hv with ⟨r, hr, hKey, _⟩
    exact ⟨r, hr, hKey⟩
  · rintro ⟨r, hr, hKey⟩
    exact ⟨val r, (h.lookup k (val r)).mpr ⟨r, hr, hKey, rfl⟩⟩

/- A record with a new key. -/
theorem Represents.cons
    (h : Represents key val l m)
    {r : ρ}
    (hNew : key r ∉ l.map key) :
    Represents key val (r :: l) (m.insert (key r) (val r)) := by
  refine
    { nodup := List.nodup_cons.mpr ⟨hNew, h.nodup⟩
      lookup := ?_ }
  intro k v
  by_cases hKey : k = key r
  · subst hKey
    rw [Finmap.lookup_insert]
    constructor
    · intro hv
      exact ⟨r, List.mem_cons_self, rfl, Option.some.inj hv⟩
    · rintro ⟨r', hr', hKey', hVal⟩
      rcases List.mem_cons.mp hr' with hEq | hMem
      · rw [← hVal, hEq]
      · exact absurd (List.mem_map.mpr ⟨r', hMem, hKey'⟩) hNew
  · rw [Finmap.lookup_insert_of_ne _ hKey, h.lookup]
    constructor
    · rintro ⟨r', hr', hKey', hVal⟩
      exact ⟨r', List.mem_cons_of_mem _ hr', hKey', hVal⟩
    · rintro ⟨r', hr', hKey', hVal⟩
      rcases List.mem_cons.mp hr' with hEq | hMem
      · exact absurd (hEq ▸ hKey').symm hKey
      · exact ⟨r', hMem, hKey', hVal⟩

theorem Represents.append
    (h : Represents key val l m)
    {r : ρ}
    (hNew : key r ∉ l.map key) :
    Represents key val (l ++ [r])
      (m.insert (key r) (val r)) :=
  (h.cons hNew).perm (List.perm_append_singleton r l).symm

/- The first record of a table taken out. -/
theorem Represents.tail
    {r : ρ}
    (h : Represents key val (r :: l) m) :
    Represents key val l (m.erase (key r)) := by
  have hNodup : key r ∉ l.map key ∧ (l.map key).Nodup :=
    List.nodup_cons.mp h.nodup
  refine { nodup := hNodup.2, lookup := ?_ }
  intro k v
  by_cases hKey : k = key r
  · subst hKey
    rw [Finmap.lookup_erase]
    constructor
    · intro hv
      cases hv
    · rintro ⟨r', hr', hKey', _⟩
      exact absurd (List.mem_map.mpr ⟨r', hr', hKey'⟩) hNodup.1
  · rw [Finmap.lookup_erase_ne hKey, h.lookup]
    constructor
    · rintro ⟨r', hr', hKey', hVal⟩
      rcases List.mem_cons.mp hr' with hEq | hMem
      · exact absurd (hEq ▸ hKey').symm hKey
      · exact ⟨r', hMem, hKey', hVal⟩
    · rintro ⟨r', hr', hKey', hVal⟩
      exact ⟨r', List.mem_cons_of_mem _ hr', hKey', hVal⟩

theorem Represents.swapRemove
    (h : Represents key val l m)
    {r : ρ}
    (hr : l[i]? = some r) :
    Represents key val (Table.swapRemove l i)
      (m.erase (key r)) :=
  (h.perm (perm_swapRemove hr)).tail

/- There are as many keys as records. -/
theorem Represents.card_keys
    (h : Represents key val l m) :
    m.keys.card = l.length := by
  have hKeys : m.keys = (l.map key).toFinset := by
    ext k
    rw [Finmap.mem_keys, h.mem_iff, List.mem_toFinset]
  rw [hKeys, List.toFinset_card_of_nodup h.nodup,
    List.length_map]

end Table

----------
-- Maps That Keep Their Values
----------

/- Add a key; one that is there keeps its value. -/
def emplace
    {κ β : Type}
    [DecidableEq κ]
    (k : κ)
    (v : β)
    (m : AList (fun _ : κ => β)) :
    AList (fun _ : κ => β) :=
  match m.lookup k with
  | some _ => m
  | none => m.insert k v

theorem lookup_emplace
    {κ β : Type}
    [DecidableEq κ]
    (k : κ)
    (v : β)
    (m : AList (fun _ : κ => β))
    (j : κ) :
    (emplace k v m).lookup j =
      if j = k then some ((m.lookup k).getD v)
      else m.lookup j := by
  unfold emplace
  by_cases hKey : j = k
  · subst hKey
    cases hFind : m.lookup j with
    | none => simp
    | some w => simp [hFind]
  · cases m.lookup k with
    | none => simp [hKey]
    | some w => simp [hKey]

----------
-- Lists Of Entries
----------

namespace Table

variable {κ β γ : Type}
variable [DecidableEq κ] [BEq κ] [LawfulBEq κ]

theorem lookup_cons_eq
    (k : κ)
    (v : β)
    (l : List (κ × β))
    (j : κ) :
    ((k, v) :: l).lookup j =
      if j = k then some v else l.lookup j := by
  rw [List.lookup_cons]
  by_cases hKey : j = k
  · simp [hKey]
  · have hFalse : (j == k) = false := by simp [hKey]
    rw [hFalse, if_neg hKey]

/- Change the value of one key. -/
theorem lookup_map_update
    (l : List (κ × β))
    (k : κ)
    (f : β → β)
    (j : κ) :
    (l.map (fun e =>
        if e.1 = k then (k, f e.2) else e)).lookup j =
      if j = k then (l.lookup k).map f else l.lookup j := by
  induction l with
  | nil => simp
  | cons e l ih =>
      obtain ⟨i, v⟩ := e
      by_cases hEntry : i = k
      · subst hEntry
        by_cases hKey : j = i
        · simp [hKey]
        · simp [lookup_cons_eq, hKey, ih]
      · have hNe : ¬ k = i := fun h => hEntry h.symm
        by_cases hKey : j = k
        · simp [lookup_cons_eq, hEntry, hNe, hKey ▸ ih, hKey]
        · simp [lookup_cons_eq, hEntry, hKey, ih]

/- Change every value. -/
omit [DecidableEq κ] [LawfulBEq κ] in
theorem lookup_map_values
    (l : List (κ × β))
    (f : β → γ)
    (j : κ) :
    (l.map (fun e => (e.1, f e.2))).lookup j =
      (l.lookup j).map f := by
  induction l with
  | nil => rfl
  | cons e l ih =>
      obtain ⟨i, v⟩ := e
      rw [List.map_cons, List.lookup_cons, List.lookup_cons,
        ih]
      cases j == i with
      | true => rfl
      | false => rfl

end Table

end Slfs
