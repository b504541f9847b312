import Mathlib.Data.List.Perm.Basic
import Slfs.Lib.Table

/-
  Least-recently-used lists with a limit on the total size.

  Setting a key makes it the most recent one and drops the
  least recent ones until everything fits. The total is kept
  in a 32-bit counter.

  Main declarations:
    * `Lru.set`
    * `Lru.set_spec`, what setting a key does
    * `Lru.set_longest`, what is kept is the longest part
-/

----------
-- Least-Recently-Used Lists
----------

namespace Slfs

/- Keys and sizes, the least recently set one first. -/
structure Lru (κ : Type) where
  cap : Nat
  curSize : Nat
  entries : List (κ × Nat)
deriving DecidableEq, Repr

namespace Lru

variable {κ : Type} [DecidableEq κ]

def empty (cap : Nat) : Lru κ :=
  { cap := cap, curSize := 0, entries := [] }

/- Take the entry of a key out. -/
def remove (k : κ) (l : Lru κ) : Lru κ :=
  match l.entries.find? (fun e => e.1 = k) with
  | none => l
  | some e =>
      { l with
        curSize := (l.curSize + 2 ^ 32 - e.2) % 2 ^ 32
        entries := l.entries.eraseP (fun e => e.1 = k) }

/-
  Drop the oldest entries until `need` more bytes fit: the
  keys that were dropped, the entries left and their size.
  There must be something to drop.
-/
def evict (cap need : Nat) :
    List (κ × Nat) → Nat →
      Option (List κ × List (κ × Nat) × Nat)
| [], cur =>
    if (cur + need) % 2 ^ 32 ≤ cap then some ([], [], cur)
    else none
| e :: rest, cur =>
    if (cur + need) % 2 ^ 32 ≤ cap then
      some ([], e :: rest, cur)
    else
      (evict cap need rest
        ((cur + 2 ^ 32 - e.2) % 2 ^ 32)).map
        (fun r => (e.1 :: r.1, r.2))

/- Make a key the newest; also returns the dropped keys. -/
def set (k : κ) (size : Nat) (l : Lru κ) :
    Option (List κ × Lru κ) :=
  (evict l.cap size (l.remove k).entries
    (l.remove k).curSize).map
    (fun r =>
      (r.1,
        { cap := l.cap
          curSize := (r.2.2 + size) % 2 ^ 32
          entries := r.2.1 ++ [(k, size)] }))

----------
-- The Counter
----------

variable {κ : Type}

def total (entries : List (κ × Nat)) : Nat :=
  (entries.map Prod.snd).sum

@[simp] theorem total_nil :
    total ([] : List (κ × Nat)) = 0 := rfl

@[simp] theorem total_cons
    (e : κ × Nat)
    (entries : List (κ × Nat)) :
    total (e :: entries) = e.2 + total entries := by
  simp [total]

@[simp] theorem total_append
    (xs ys : List (κ × Nat)) :
    total (xs ++ ys) = total xs + total ys := by
  simp [total]

/- The counter is the total size and within the limit. -/
structure Consistent (l : Lru κ) : Prop where
  small : ∀ e ∈ l.entries, e.2 < 2 ^ 32
  size : l.curSize = total l.entries % 2 ^ 32
  bounded : l.curSize ≤ l.cap

theorem consistent_empty
    (cap : Nat) :
    (empty cap : Lru κ).Consistent where
  small := by simp [empty]
  size := by simp [empty]
  bounded := Nat.zero_le _

/- Taking `s` bytes off a counter that includes them. -/
theorem sub_counter
    {n s : Nat}
    (hs : s < 2 ^ 32) :
    ((s + n) % 2 ^ 32 + 2 ^ 32 - s) % 2 ^ 32 = n % 2 ^ 32 := by
  omega

theorem total_of_perm
    {xs ys : List (κ × Nat)}
    (h : xs.Perm ys) :
    total xs = total ys :=
  (h.map Prod.snd).sum_nat

variable [DecidableEq κ]

theorem total_eraseP_le
    (k : κ)
    (entries : List (κ × Nat)) :
    total (entries.eraseP (fun e => e.1 = k)) ≤
      total entries := by
  cases hFind : entries.find? (fun e => e.1 = k) with
  | none =>
      rw [List.find?_eq_none] at hFind
      rw [List.eraseP_of_forall_not hFind]
  | some e =>
      rw [total_of_perm (Table.perm_eraseP hFind), total_cons]
      omega

theorem remove_of_find_none
    {k : κ}
    {l : Lru κ}
    (h : l.entries.find? (fun e => e.1 = k) = none) :
    l.remove k = l := by
  simp [remove, h]

@[simp] theorem entries_remove
    (k : κ)
    (l : Lru κ) :
    (l.remove k).entries =
      l.entries.eraseP (fun e => e.1 = k) := by
  cases hFind : l.entries.find? (fun e => e.1 = k) with
  | none =>
      rw [remove_of_find_none hFind]
      rw [List.find?_eq_none] at hFind
      exact (List.eraseP_of_forall_not hFind).symm
  | some e => simp [remove, hFind]

theorem curSize_remove
    {l : Lru κ}
    (h : l.Consistent)
    (k : κ) :
    (l.remove k).curSize =
      total (l.remove k).entries % 2 ^ 32 := by
  cases hFind : l.entries.find? (fun e => e.1 = k) with
  | none =>
      rw [remove_of_find_none hFind]
      exact h.size
  | some e =>
      have hSmall :=
        h.small e (List.mem_of_find?_eq_some hFind)
      have hTotal := total_of_perm (Table.perm_eraseP hFind)
      rw [entries_remove]
      simp only [remove, hFind]
      rw [h.size, hTotal, total_cons, sub_counter hSmall]

----------
-- What Is Dropped
----------

variable {κ : Type}

theorem evict_of_fits
    {cap need cur : Nat}
    (h : (cur + need) % 2 ^ 32 ≤ cap)
    (entries : List (κ × Nat)) :
    evict cap need entries cur = some ([], entries, cur) := by
  cases entries with
  | nil => rw [evict, if_pos h]
  | cons e rest => rw [evict, if_pos h]

/-
  Entries at the new end that fit together with what is
  needed are never dropped.
-/
theorem evict_append
    {cap need : Nat}
    {kept : List (κ × Nat)}
    (hCap : cap < 2 ^ 32)
    (hKept : total kept + need ≤ cap) :
    ∀ (old : List (κ × Nat)) (cur : Nat),
      (∀ e ∈ old, e.2 < 2 ^ 32) →
      cur = total (old ++ kept) % 2 ^ 32 →
        ∃ gone rest cur', old = gone ++ rest ∧
          evict cap need (old ++ kept) cur =
            some (gone.map Prod.fst, rest ++ kept, cur') ∧
          cur' = total (rest ++ kept) % 2 ^ 32 ∧
          (cur' + need) % 2 ^ 32 ≤ cap := by
  intro old
  induction old with
  | nil =>
      intro cur _ hCur
      have hFits : (cur + need) % 2 ^ 32 ≤ cap := by
        simp only [List.nil_append] at hCur
        omega
      exact ⟨[], [], cur, rfl, evict_of_fits hFits _, hCur, hFits⟩
  | cons e old ih =>
      intro cur hSmall hCur
      by_cases hFits : (cur + need) % 2 ^ 32 ≤ cap
      · exact ⟨[], e :: old, cur, rfl, evict_of_fits hFits _,
          hCur, hFits⟩
      · have hNext :
            (cur + 2 ^ 32 - e.2) % 2 ^ 32 =
              total (old ++ kept) % 2 ^ 32 := by
          rw [hCur, List.cons_append, total_cons]
          exact sub_counter (hSmall e List.mem_cons_self)
        rcases ih _ (fun x hx =>
            hSmall x (List.mem_cons_of_mem _ hx)) hNext with
          ⟨gone, rest, cur', hOld, hEvict, hSize, hEnd⟩
        refine ⟨e :: gone, rest, cur', by rw [hOld]; rfl, ?_,
          hSize, hEnd⟩
        rw [List.cons_append, evict, if_neg hFits, hEvict]
        rfl

variable [DecidableEq κ] {size : Nat}

/- The list after a set, from what the dropping leaves. -/
theorem set_of_evict
    {l : Lru κ}
    {k : κ}
    {gone : List κ}
    {entries : List (κ × Nat)}
    {cur : Nat}
    (hSmall : ∀ e ∈ entries, e.2 < 2 ^ 32)
    (hNew : size < 2 ^ 32)
    (hEvict :
      evict l.cap size (l.remove k).entries
        (l.remove k).curSize = some (gone, entries, cur))
    (hCur : cur = total entries % 2 ^ 32)
    (hFits : (cur + size) % 2 ^ 32 ≤ l.cap) :
    ∃ l', l.set k size = some (gone, l') ∧
      l'.Consistent ∧ l'.cap = l.cap ∧
      l'.entries = entries ++ [(k, size)] := by
  have hSet : l.set k size =
      some (gone,
        { cap := l.cap
          curSize := (cur + size) % 2 ^ 32
          entries := entries ++ [(k, size)] }) := by
    rw [set, hEvict, Option.map_some]
  refine ⟨_, hSet, ⟨?_, ?_, hFits⟩, rfl, rfl⟩
  · intro e he
    rcases List.mem_append.mp he with hOld | hLast
    · exact hSmall e hOld
    · rw [List.mem_singleton.mp hLast]
      exact hNew
  · simp only [total_append, total_cons, total_nil]
    omega

/-
  Setting a key keeps the entries that fit together with it.
  Of the others, one with another key is kept or its key is
  reported.
-/
theorem set_of_fits
    {l : Lru κ}
    {old kept : List (κ × Nat)}
    {k : κ}
    (h : l.Consistent)
    (hCap : l.cap < 2 ^ 32)
    (hEntries : l.entries = old ++ kept)
    (hKey : ∀ e ∈ kept, e.1 ≠ k)
    (hFits : total kept + size ≤ l.cap) :
    ∃ gone rest l', l.set k size = some (gone, l') ∧
      l'.Consistent ∧ l'.cap = l.cap ∧
      l'.entries = rest ++ kept ++ [(k, size)] ∧
      (∀ e ∈ rest, e ∈ old) ∧
      ∀ e ∈ old, e.1 ≠ k → e ∈ rest ∨ e.1 ∈ gone := by
  have hErase :
      (l.remove k).entries =
        old.eraseP (fun e => e.1 = k) ++ kept := by
    have hSame :
        kept.eraseP (fun e => decide (e.1 = k)) = kept :=
      List.eraseP_of_forall_not (by simpa using hKey)
    rw [entries_remove, hEntries, List.eraseP_append, hSame]
    by_cases hAny : old.any (fun e => decide (e.1 = k))
    · rw [if_pos hAny]
    · rw [if_neg hAny, List.eraseP_of_forall_not]
      intro e he hEq
      exact hAny (List.any_eq_true.mpr ⟨e, he, hEq⟩)
  have hSmall : ∀ e ∈ old, e.2 < 2 ^ 32 := by
    intro e he
    refine h.small e ?_
    rw [hEntries]
    exact List.mem_append_left _ he
  have hCur := curSize_remove h k
  rw [hErase] at hCur
  rcases evict_append hCap hFits _ _
      (fun e he => hSmall e (List.mem_of_mem_eraseP he))
      hCur with
    ⟨gone, rest, cur, hOld, hEvict, hSize, hEnd⟩
  have hRest : ∀ e ∈ rest, e ∈ old := by
    intro e he
    refine List.mem_of_mem_eraseP (p := fun e => e.1 = k) ?_
    rw [hOld]
    exact List.mem_append_right _ he
  rw [← hErase] at hEvict
  have hLeft : ∀ e ∈ rest ++ kept, e.2 < 2 ^ 32 := by
    intro e he
    rcases List.mem_append.mp he with hIn | hKept
    · exact hSmall e (hRest e hIn)
    · refine h.small e ?_
      rw [hEntries]
      exact List.mem_append_right _ hKept
  rcases set_of_evict hLeft (by omega) hEvict hSize hEnd with
    ⟨l', hSet, hCons, hSameCap, hNew⟩
  refine ⟨_, rest, l', hSet, hCons, hSameCap, hNew, hRest, ?_⟩
  intro e he hNe
  have hStays : e ∈ old.eraseP (fun e => e.1 = k) :=
    (List.mem_eraseP_of_neg (by simpa using hNe)).mpr he
  rw [hOld] at hStays
  rcases List.mem_append.mp hStays with hGone | hIn
  · exact Or.inr (List.mem_map_of_mem hGone)
  · exact Or.inl hIn

/- Setting a key to the size that it has drops nothing. -/
theorem set_of_mem
    {l : Lru κ}
    {k : κ}
    (h : l.Consistent)
    (hMem : ∃ e ∈ l.entries, e.1 = k)
    (hSize : ∀ e ∈ l.entries, e.1 = k → e.2 = size) :
    ∃ l', l.set k size = some ([], l') ∧
      l'.Consistent ∧ l'.cap = l.cap ∧
      l'.entries =
        l.entries.eraseP (fun e => e.1 = k) ++
          [(k, size)] := by
  rcases hMem with ⟨x, hx, hKey⟩
  have hNew : size < 2 ^ 32 := by
    rw [← hSize x hx hKey]
    exact h.small x hx
  have hCur := curSize_remove h k
  rw [entries_remove] at hCur
  cases hFind : l.entries.find? (fun e => e.1 = k) with
  | none =>
      rw [List.find?_eq_none] at hFind
      exact absurd (by simpa using hKey) (hFind x hx)
  | some e =>
      have hTotal := total_of_perm (Table.perm_eraseP hFind)
      have hFound : e.1 = k := by
        simpa using List.find?_some hFind
      have hFits :
          ((l.remove k).curSize + size) % 2 ^ 32 ≤ l.cap := by
        have hSame :=
          hSize e (List.mem_of_find?_eq_some hFind) hFound
        have hOld := h.size
        have hBound := h.bounded
        rw [hTotal, total_cons, hSame] at hOld
        omega
      refine set_of_evict ?_ hNew ?_ hCur hFits
      · intro e he
        exact h.small e (List.mem_of_mem_eraseP he)
      · rw [entries_remove]
        exact evict_of_fits hFits _

----------
-- What A Set Can Do
----------

variable {κ : Type}

/- The oldest entries are dropped, until the rest fits. -/
theorem evict_spec
    {cap need cur cur' : Nat}
    {entries rest : List (κ × Nat)}
    {gone : List κ}
    (hSmall : ∀ e ∈ entries, e.2 < 2 ^ 32)
    (hCur : cur = total entries % 2 ^ 32)
    (h :
      evict cap need entries cur = some (gone, rest, cur')) :
    ∃ old, entries = old ++ rest ∧ gone = old.map Prod.fst ∧
      cur' = total rest % 2 ^ 32 ∧
      (cur' + need) % 2 ^ 32 ≤ cap := by
  induction entries generalizing cur gone with
  | nil =>
      rw [evict] at h
      by_cases hFits : (cur + need) % 2 ^ 32 ≤ cap
      · rw [if_pos hFits] at h
        cases h
        exact ⟨[], rfl, rfl, hCur, hFits⟩
      · rw [if_neg hFits] at h
        cases h
  | cons e entries ih =>
      rw [evict] at h
      by_cases hFits : (cur + need) % 2 ^ 32 ≤ cap
      · rw [if_pos hFits] at h
        cases h
        exact ⟨[], rfl, rfl, hCur, hFits⟩
      · rw [if_neg hFits] at h
        rcases Option.map_eq_some_iff.mp h with
          ⟨⟨gone', rest', last⟩, hRest, hEq⟩
        cases hEq
        have hNext :
            (cur + 2 ^ 32 - e.2) % 2 ^ 32 =
              total entries % 2 ^ 32 := by
          rw [hCur, total_cons]
          exact sub_counter (hSmall e List.mem_cons_self)
        rcases ih
            (fun x hx => hSmall x (List.mem_cons_of_mem _ hx))
            hNext hRest with
          ⟨old, hOld, hGone, hSize, hEnd⟩
        refine ⟨e :: old, ?_, ?_, hSize, hEnd⟩
        · rw [hOld, List.cons_append]
        · rw [hGone, List.map_cons]

variable [DecidableEq κ]

theorem small_remove
    {l : Lru κ}
    (h : l.Consistent)
    (k : κ) :
    ∀ e ∈ (l.remove k).entries, e.2 < 2 ^ 32 := by
  intro e he
  rw [entries_remove] at he
  exact h.small e (List.mem_of_mem_eraseP he)

/-
  A set takes the entry of its key out, drops the oldest of
  the others, and adds the key at the new end.
-/
theorem set_spec
    {l l' : Lru κ}
    {k : κ}
    {gone : List κ}
    (hCons : l.Consistent)
    (hSize : size < 2 ^ 32)
    (h : l.set k size = some (gone, l')) :
    ∃ old rest,
      l.entries.eraseP (fun e => e.1 = k) = old ++ rest ∧
      gone = old.map Prod.fst ∧
      l'.entries = rest ++ [(k, size)] ∧
      l'.cap = l.cap ∧ l'.Consistent ∧
      (total rest % 2 ^ 32 + size) % 2 ^ 32 ≤ l.cap := by
  rw [set] at h
  rcases Option.map_eq_some_iff.mp h with
    ⟨⟨gone', rest, cur⟩, hEvict, hEq⟩
  cases hEq
  have hSmall := small_remove hCons k
  rcases evict_spec hSmall (curSize_remove hCons k) hEvict with
    ⟨old, hOld, hGone, hCur, hFits⟩
  rcases set_of_evict
      (fun e he => hSmall e (by
        rw [hOld]
        exact List.mem_append_right _ he))
      hSize hEvict hCur hFits with
    ⟨l', hSet, hNew, _, _⟩
  rw [set, hEvict, Option.map_some] at hSet
  cases hSet
  rw [entries_remove] at hOld
  refine ⟨old, rest, hOld, hGone, rfl, rfl, hNew, ?_⟩
  rw [← hCur]
  exact hFits

/- Without the entry of a key, no entry has the key. -/
theorem nodup_eraseP
    {entries : List (κ × Nat)}
    (hNodup : (entries.map Prod.fst).Nodup)
    (k : κ) :
    ((entries.eraseP (fun e => e.1 = k)).map
        Prod.fst).Nodup ∧
      k ∉ (entries.eraseP (fun e => e.1 = k)).map
        Prod.fst := by
  cases hFind : entries.find? (fun e => e.1 = k) with
  | none =>
      rw [List.find?_eq_none] at hFind
      rw [List.eraseP_of_forall_not hFind]
      refine ⟨hNodup, ?_⟩
      intro hMem
      rcases List.mem_map.mp hMem with ⟨e, he, hKey⟩
      exact hFind e he (by simpa using hKey)
  | some e =>
      have hPerm := (Table.perm_eraseP hFind).map Prod.fst
      have hKey : e.1 = k := by
        simpa using List.find?_some hFind
      rw [hPerm.nodup_iff, List.map_cons, List.nodup_cons,
        hKey] at hNodup
      exact hNodup.symm

/- There is room exactly if some newest entries fit. -/
omit [DecidableEq κ] in
theorem evict_isSome_iff
    {cap need cur : Nat}
    {entries : List (κ × Nat)}
    (hSmall : ∀ e ∈ entries, e.2 < 2 ^ 32)
    (hCur : cur = total entries % 2 ^ 32) :
    (evict cap need entries cur).isSome ↔
      ∃ rest, rest <:+ entries ∧
        (total rest + need) % 2 ^ 32 ≤ cap := by
  induction entries generalizing cur with
  | nil =>
      have hZero : cur = total ([] : List (κ × Nat)) := hCur
      rw [evict, hZero]
      constructor
      · intro hSome
        split at hSome
        · rename_i hFits
          exact ⟨[], List.suffix_rfl, hFits⟩
        · cases hSome
      · rintro ⟨rest, hRest, hFits⟩
        rw [List.suffix_nil.mp hRest] at hFits
        rw [if_pos hFits]
        rfl
  | cons e rest ih =>
      rw [List.forall_mem_cons] at hSmall
      have hNext :
          (cur + 2 ^ 32 - e.2) % 2 ^ 32 =
            total rest % 2 ^ 32 := by
        rw [hCur, total_cons]
        exact sub_counter hSmall.1
      rw [evict]
      split
      · rename_i hFits
        refine ⟨fun _ => ⟨_, List.suffix_rfl, ?_⟩, fun _ => rfl⟩
        rw [← Nat.mod_add_mod, ← hCur]
        exact hFits
      · rename_i hNot
        rw [Option.isSome_map, ih hSmall.2 hNext]
        constructor
        · rintro ⟨kept, hKept, hFits⟩
          exact ⟨kept, List.suffix_cons_iff.mpr (Or.inr hKept),
            hFits⟩
        · rintro ⟨kept, hKept, hFits⟩
          rcases List.suffix_cons_iff.mp hKept with hAll | hIn
          · rw [hAll, ← Nat.mod_add_mod, ← hCur] at hFits
            exact absurd hFits hNot
          · exact ⟨kept, hIn, hFits⟩

/- No more is dropped than has to be. -/
omit [DecidableEq κ] in
theorem evict_longest
    {cap need cur cur' : Nat}
    {entries rest more : List (κ × Nat)}
    {gone : List κ}
    (hSmall : ∀ e ∈ entries, e.2 < 2 ^ 32)
    (hCur : cur = total entries % 2 ^ 32)
    (h :
      evict cap need entries cur = some (gone, rest, cur'))
    (hMore : more <:+ entries)
    (hLonger : rest.length < more.length) :
    cap < (total more + need) % 2 ^ 32 := by
  induction entries generalizing cur gone with
  | nil =>
      rw [List.suffix_nil.mp hMore] at hLonger
      cases hLonger
  | cons e entries ih =>
      rw [List.forall_mem_cons] at hSmall
      rw [evict] at h
      split at h
      · cases h
        have hLe := hMore.length_le
        omega
      · rename_i hNot
        rcases Option.map_eq_some_iff.mp h with
          ⟨⟨gone', rest', cur₁⟩, hRest, hEq⟩
        cases hEq
        rcases List.suffix_cons_iff.mp hMore with hAll | hIn
        · rw [hAll, ← Nat.mod_add_mod, ← hCur]
          omega
        · apply ih hSmall.2 _ hRest hIn
          rw [hCur, total_cons]
          exact sub_counter hSmall.1

/- A key can be set exactly if some newest entries fit. -/
theorem set_isSome_iff
    {l : Lru κ}
    (h : l.Consistent)
    (k : κ)
    (size : Nat) :
    (l.set k size).isSome ↔
      ∃ rest,
        rest <:+ l.entries.eraseP (fun e => e.1 = k) ∧
        (total rest + size) % 2 ^ 32 ≤ l.cap := by
  rw [set, Option.isSome_map,
    evict_isSome_iff (small_remove h k) (curSize_remove h k),
    entries_remove]

/- Setting a key drops no more than it has to. -/
theorem set_longest
    {l l' : Lru κ}
    {k : κ}
    {gone : List κ}
    {rest more : List (κ × Nat)}
    (h : l.Consistent)
    (hSet : l.set k size = some (gone, l'))
    (hEntries : l'.entries = rest ++ [(k, size)])
    (hMore :
      more <:+ l.entries.eraseP (fun e => e.1 = k))
    (hLonger : rest.length < more.length) :
    l.cap < (total more + size) % 2 ^ 32 := by
  rw [set] at hSet
  rcases Option.map_eq_some_iff.mp hSet with
    ⟨⟨gone', rest', cur⟩, hEvict, hEq⟩
  cases hEq
  have hRest := List.append_inj_left' hEntries rfl
  rw [← entries_remove] at hMore
  rw [← hRest] at hLonger
  exact evict_longest (small_remove h k) (curSize_remove h k)
    hEvict hMore hLonger

/- Keys stay distinct. -/
theorem nodup_of_set
    {l l' : Lru κ}
    {k : κ}
    {gone : List κ}
    (hCons : l.Consistent)
    (hSize : size < 2 ^ 32)
    (hNodup : (l.entries.map Prod.fst).Nodup)
    (h : l.set k size = some (gone, l')) :
    (l'.entries.map Prod.fst).Nodup := by
  rcases set_spec hCons hSize h with
    ⟨old, rest, hErase, _, hNew, _⟩
  have hOthers := nodup_eraseP hNodup k
  rw [hErase] at hOthers
  rw [hNew]
  apply Table.nodup_map_append_singleton
  · exact (List.nodup_append.mp
      (by simpa using hOthers.1)).2.1
  · intro hMem
    exact hOthers.2 (by
      rw [List.map_append]
      exact List.mem_append_right _ hMem)

/- A new key that fits is added, and nothing is dropped. -/
theorem set_of_new
    {l : Lru κ}
    {k : κ}
    (hNew : k ∉ l.entries.map Prod.fst)
    (hFits : (l.curSize + size) % 2 ^ 32 ≤ l.cap) :
    l.set k size =
      some ([],
        { cap := l.cap
          curSize := (l.curSize + size) % 2 ^ 32
          entries := l.entries ++ [(k, size)] }) := by
  have hNone :
      l.entries.find? (fun e => decide (e.1 = k)) = none := by
    rw [List.find?_eq_none]
    intro e he hKey
    exact hNew (List.mem_map.mpr
      ⟨e, he, of_decide_eq_true hKey⟩)
  rw [set, remove_of_find_none hNone, evict_of_fits hFits,
    Option.map_some]

----------
-- Setting All Entries Again
----------

variable {κ : Type}

/-
  The entries can be set one after another, from the oldest
  one on, and the counter never passes the limit.
-/
def Refills (l : Lru κ) : Prop :=
  ∀ first, first <+: l.entries →
    total first % 2 ^ 32 ≤ l.cap

/- Entries that fit together do. -/
theorem refills_of_total_le
    {l : Lru κ}
    (h : total l.entries ≤ l.cap) :
    l.Refills := by
  intro first hFirst
  rcases hFirst with ⟨later, hEq⟩
  rw [← hEq, total_append] at h
  have hMod := Nat.mod_le (total first) (2 ^ 32)
  omega

end Lru

end Slfs
