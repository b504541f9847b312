import Mathlib.Data.List.AList
import Slfs.Lib.LinkedList
import Slfs.Lib.Lru
import Slfs.Lib.Transition
import Slfs.Ssbd.Packet

/-
  The list of recently used blocks, with its pointers.

  Entries are nodes of a doubly linked list, and a map leads
  from keys to nodes. To make room the last nodes are dropped,
  and if the entry still does not fit into the empty list, the
  first sentinel, which has no node before it. The size of the
  list is a signed number that is compared as an unsigned one.

  Main declarations:
    * `LruCache.Represents`, the entries of a list
    * `LruCache.set_refines`, setting a key follows `Lru.set`
-/

----------
-- The List
----------

namespace Slfs

open Transition

/- An entry is found by its file and its block. -/
structure CacheEntry where
  fileKey : Uuid
  blockId : UInt32
  dataSize : UInt32
deriving DecidableEq, Repr

def CacheEntry.key (entry : CacheEntry) : Uuid × UInt32 :=
  (entry.fileKey, entry.blockId)

/- How a call ends. -/
inductive Ending (α : Type) where
| returns (a : α)
| undefined
| unfinished
deriving DecidableEq, Repr

def Ending.map {α β : Type} (f : α → β) :
    Ending α → Ending β
| .returns a => .returns (f a)
| .undefined => .undefined
| .unfinished => .unfinished

/- Addresses from `fresh` on have never been used. -/
structure LruCache where
  heap : Heap CacheEntry
  fresh : Nat
  head : Nat
  tail : Nat
  cap : UInt32
  curSize : Int32
  m : AList (fun _ : Uuid × UInt32 => Nat)

namespace LruCache

/- The key of the two sentinels. -/
def sentinel : CacheEntry :=
  { fileKey := Vector.replicate 32 0
    blockId := 0
    dataSize := 0 }

/- Two sentinels that point to each other. -/
def init (capacity : UInt32) : LruCache :=
  { heap :=
      (Heap.empty.store 0 (some ⟨sentinel, none, some 1⟩)).store
        1 (some ⟨sentinel, some 0, none⟩)
    fresh := 2
    head := 0
    tail := 1
    cap := capacity
    curSize := 0
    m := ∅ }

/- A signed number plus or minus an unsigned one. -/
def addSize (curSize : Int32) (size : UInt32) : Int32 :=
  (curSize.toUInt32 + size).toInt32

def subSize (curSize : Int32) (size : UInt32) : Int32 :=
  (curSize.toUInt32 - size).toInt32

def addnode (temp : Nat) (s : LruCache) : Option LruCache := do
  let entry ← s.heap.key temp
  let heap ← s.heap.addFirst s.head temp
  some { s with
    heap := heap
    curSize := addSize s.curSize entry.dataSize }

def deletenode (temp : Nat) (s : LruCache) :
    Option LruCache := do
  let entry ← s.heap.key temp
  let heap ← s.heap.unlink temp
  some { s with
    heap := heap
    curSize := subSize s.curSize entry.dataSize }

/- An entry with the same key goes first. -/
def replaceExisting (entry : CacheEntry) (s : LruCache) :
    Option LruCache :=
  match s.m.lookup entry.key with
  | none => some s
  | some exist =>
      { s with m := s.m.erase entry.key }.deletenode exist

/- The node before the last sentinel goes. -/
def dropOldest (s : LruCache) :
    Option (CacheEntry × LruCache) := do
  let oldest ← s.heap.prev s.tail
  let entry ← s.heap.key oldest
  let s ← { s with m := s.m.erase entry.key }.deletenode oldest
  some (entry, s)

/- The loop that makes room, for at most so many rounds. -/
def makeRoom (entry : CacheEntry) :
    Nat → LruCache → Ending (List CacheEntry × LruCache)
| 0, _ => .unfinished
| rounds + 1, s =>
    if s.cap < s.curSize.toUInt32 + entry.dataSize then
      match s.dropOldest with
      | none => .undefined
      | some (gone, s) =>
          (makeRoom entry rounds s).map
            (fun r => (gone :: r.1, r.2))
    else .returns ([], s)

def insertNew (entry : CacheEntry) (s : LruCache) :
    Option LruCache := do
  let temp := s.fresh
  let s ←
    { s with
      heap := s.heap.alloc temp entry
      fresh := temp + 1 }.addnode temp
  let first ← s.heap.next s.head
  some { s with m := s.m.insert entry.key first }

/-
  Set an entry: the entries that were dropped, and the list
  after it. Every round frees a node, so that there are fewer
  rounds than addresses.
-/
def set (rounds : Nat) (entry : CacheEntry) (s : LruCache) :
    Ending (List CacheEntry × LruCache) :=
  match s.replaceExisting entry with
  | none => .undefined
  | some s =>
      match s.makeRoom entry rounds with
      | .undefined => .undefined
      | .unfinished => .unfinished
      | .returns (gone, s) =>
          match s.insertNew entry with
          | none => .undefined
          | some s => .returns (gone, s)

/- The nodes from the first to the last, and their entries. -/
def nodes (s : LruCache) : List Nat :=
  s.heap.walk s.tail s.fresh s.head

def entries (s : LruCache) : List CacheEntry :=
  s.nodes.filterMap s.heap.key

----------
-- Entries Of A List
----------

/- What an entry is without its types. -/
def plain (entry : CacheEntry) : (Uuid × Nat) × Nat :=
  ((entry.fileKey, entry.blockId.toNat),
    entry.dataSize.toNat)

/-
  The nodes and the entries of a list, from the last one that
  was set on, and a map that leads to the nodes.
-/
structure Represents
    (s : LruCache)
    (ps : List Nat)
    (es : List CacheEntry) : Prop where
  list : s.heap.IsList s.head s.tail ps
  keys : ps.map s.heap.key = es.map some
  nodup : (es.map CacheEntry.key).Nodup
  map :
    ∀ k p, s.m.lookup k = some p ↔
      p ∈ ps ∧ (s.heap.key p).map CacheEntry.key = some k
  fresh : ∀ p, (s.heap.key p).isSome → p < s.fresh
  size :
    s.curSize.toUInt32.toNat =
      Lru.total (es.map plain) % 2 ^ 32

/- The list without its pointers, the oldest entry first. -/
def toLru (s : LruCache) (es : List CacheEntry) :
    Lru (Uuid × Nat) :=
  { cap := s.cap.toNat
    curSize := s.curSize.toUInt32.toNat
    entries := (es.map plain).reverse }

variable {s s' : LruCache} {ps : List Nat}
variable {es : List CacheEntry}

theorem represents_init
    (capacity : UInt32) :
    Represents (init capacity) [] [] where
  list :=
    { linked := ⟨rfl, rfl, trivial⟩
      nodup := by simp [init]
      prev_head := rfl }
  keys := rfl
  nodup := List.nodup_nil
  map := by simp [init]
  fresh := by
    intro p hLive
    by_contra hNot
    have hZero : p ≠ 0 := by
      intro hEq
      rw [hEq] at hNot
      exact hNot (show 0 < 2 by decide)
    have hOne : p ≠ 1 := by
      intro hEq
      rw [hEq] at hNot
      exact hNot (show 1 < 2 by decide)
    simp only [init, Heap.key_store, if_neg hZero,
      if_neg hOne] at hLive
    cases hLive
  size := rfl

namespace Represents

theorem length_eq
    (h : Represents s ps es) :
    ps.length = es.length := by
  have hLength := congrArg List.length h.keys
  rwa [List.length_map, List.length_map] at hLength

/- There are fewer nodes than addresses. -/
theorem length_lt
    (h : Represents s ps es) :
    ps.length < s.fresh := by
  have hSub :
      s.head :: (ps ++ [s.tail]) ⊆ List.range s.fresh := by
    intro p hp
    rw [List.mem_range]
    apply h.fresh
    rcases List.mem_cons.mp hp with hHead | hRest
    · rw [hHead]
      exact h.list.isSome_head
    · exact h.list.linked.isSome_key p hRest
  have hLe := (List.subperm_of_subset h.list.nodup hSub).length_le
  rw [List.length_cons, List.length_append,
    List.length_singleton, List.length_range] at hLe
  omega

theorem nodes_eq
    (h : Represents s ps es) :
    s.nodes = ps :=
  h.list.walk_eq h.length_lt

theorem entries_eq
    (h : Represents s ps es) :
    s.entries = es := by
  have hKeys := congrArg (List.filterMap id) h.keys
  rw [List.filterMap_map, List.filterMap_map] at hKeys
  rw [entries, h.nodes_eq]
  simpa using hKeys

variable {fs gs : List CacheEntry} {p : Nat}

/- The entry of a node. -/
theorem key_of_split
    {xs ys : List Nat}
    {entry : CacheEntry}
    (h : Represents s (xs ++ p :: ys) (fs ++ entry :: gs))
    (hLength : xs.length = fs.length) :
    s.heap.key p = some entry := by
  have hKeys := h.keys
  rw [List.map_append, List.map_append] at hKeys
  have hRest := List.append_inj_right hKeys
    (by rw [List.length_map, List.length_map, hLength])
  exact (List.cons.inj hRest).1

/- The entry of a node that the map leads to. -/
theorem exists_entry
    {k : Uuid × UInt32}
    (h : Represents s ps es)
    (hp : p ∈ ps)
    (hKey : (s.heap.key p).map CacheEntry.key = some k) :
    ∃ x ∈ es, x.key = k := by
  rcases Option.map_eq_some_iff.mp hKey with ⟨x, hx, hxk⟩
  have hMem : some x ∈ es.map some := by
    rw [← h.keys, ← hx]
    exact List.mem_map_of_mem hp
  rcases List.mem_map.mp hMem with ⟨y, hy, hEq⟩
  cases hEq
  exact ⟨x, hy, hxk⟩

/- A node goes together with the way to it. -/
theorem deletenode
    {xs ys : List Nat}
    {entry : CacheEntry}
    (h : Represents s (xs ++ p :: ys) (fs ++ entry :: gs))
    (hLength : xs.length = fs.length) :
    ∃ s',
      { s with m := s.m.erase entry.key }.deletenode p =
        some s' ∧
      Represents s' (xs ++ ys) (fs ++ gs) ∧
      s'.cap = s.cap ∧
      s'.curSize.toUInt32 =
        s.curSize.toUInt32 - entry.dataSize := by
  have hKey := h.key_of_split hLength
  rcases h.list.unlink with ⟨heap, hUnlink, hList, hHeap⟩
  have hNodup : (xs ++ p :: ys).Nodup := by
    have hAll := (List.nodup_cons.mp h.list.nodup).2
    exact List.Nodup.of_append_left hAll
  have hOther : ∀ q ∈ xs ++ ys, q ≠ p := by
    intro q hq hEq
    rw [List.nodup_middle, List.nodup_cons] at hNodup
    exact hNodup.1 (hEq ▸ hq)
  have hPath : s.m.lookup entry.key = some p := by
    rw [h.map, hKey]
    exact ⟨by simp, rfl⟩
  refine ⟨{ s with
      heap := heap
      curSize := subSize s.curSize entry.dataSize
      m := s.m.erase entry.key }, ?_, ?_, rfl, rfl⟩
  · simp only [LruCache.deletenode, Option.bind_eq_bind, hKey,
      hUnlink, Option.bind_some]
  · constructor
    · exact hList
    · have hKeys := h.keys
      rw [List.map_append, List.map_append] at hKeys
      have hLengths :
          (xs.map s.heap.key).length =
            (fs.map some).length := by
        rw [List.length_map, List.length_map, hLength]
      have hLeft := List.append_inj_left hKeys hLengths
      have hRight := List.append_inj_right hKeys hLengths
      have hSame :
          (xs ++ ys).map heap.key =
            (xs ++ ys).map s.heap.key := by
        apply List.map_congr_left
        intro q hq
        rw [hHeap, if_neg (hOther q hq)]
      rw [hSame, List.map_append, List.map_append, hLeft]
      congr 1
      exact (List.cons.inj hRight).2
    · have hKeys := h.nodup
      rw [List.map_append, List.map_cons, List.nodup_middle,
        List.nodup_cons] at hKeys
      rw [List.map_append]
      exact hKeys.2
    · intro k q
      simp only [hHeap]
      by_cases hk : k = entry.key
      · subst hk
        rw [AList.lookup_erase]
        constructor
        · intro hNone
          cases hNone
        · rintro ⟨hq, hEntry⟩
          rw [if_neg (hOther q hq)] at hEntry
          have hIn : q ∈ xs ++ p :: ys := by
            rcases List.mem_append.mp hq with hx | hy
            · exact List.mem_append_left _ hx
            · exact List.mem_append_right _
                (List.mem_cons_of_mem _ hy)
          have hAlso := (h.map entry.key q).mpr ⟨hIn, hEntry⟩
          rw [hPath] at hAlso
          exact absurd (Option.some.inj hAlso).symm
            (hOther q hq)
      · rw [AList.lookup_erase_ne hk, h.map]
        constructor
        · rintro ⟨hq, hEntry⟩
          have hNe : q ≠ p := by
            intro hEq
            rw [hEq, hKey] at hEntry
            exact hk (Option.some.inj hEntry).symm
          rw [if_neg hNe]
          refine ⟨?_, hEntry⟩
          simpa [hNe] using hq
        · rintro ⟨hq, hEntry⟩
          rw [if_neg (hOther q hq)] at hEntry
          refine ⟨?_, hEntry⟩
          simp only [List.mem_append, List.mem_cons] at hq ⊢
          tauto
    · intro q hLive
      simp only [hHeap] at hLive
      split at hLive
      · cases hLive
      · exact h.fresh q hLive
    · have hSize := h.size
      have hEntry := entry.dataSize.toNat_lt
      simp only [subSize, List.map_append, List.map_cons,
        Lru.total_append, Lru.total_cons, plain] at hSize ⊢
      change (s.curSize.toUInt32 - entry.dataSize).toNat = _
      rw [UInt32.toNat_sub, hSize]
      omega

/- Where a node of the list is. -/
theorem split_of_mem
    {entry : CacheEntry}
    (h : Represents s ps es)
    (hEntry : entry ∈ es) :
    ∃ xs p ys fs gs, ps = xs ++ p :: ys ∧
      es = fs ++ entry :: gs ∧ xs.length = fs.length := by
  rcases List.append_of_mem hEntry with ⟨fs, gs, hEs⟩
  have hLength := h.length_eq
  rw [hEs, List.length_append, List.length_cons] at hLength
  have hDrop : ps.drop fs.length ≠ [] := by
    intro hNil
    have hLe := List.drop_eq_nil_iff.mp hNil
    omega
  rcases List.exists_cons_of_ne_nil hDrop with ⟨p, ys, hRest⟩
  refine ⟨ps.take fs.length, p, ys, fs, gs, ?_, hEs, ?_⟩
  · rw [← hRest, List.take_append_drop]
  · rw [List.length_take]
    omega

end Represents

theorem plain_key_eq_iff
    (x entry : CacheEntry) :
    (plain x).1 = (plain entry).1 ↔ x.key = entry.key := by
  simp [plain, CacheEntry.key, UInt32.toNat_inj]

/- The other entries, with and without their types. -/
theorem eraseP_plain
    {entry : CacheEntry}
    (hNodup : (es.map CacheEntry.key).Nodup) :
    (es.map plain).reverse.eraseP
        (fun x => x.1 = (plain entry).1) =
      ((es.filter (fun x => x.key ≠ entry.key)).map
        plain).reverse := by
  have hKeys :
      ((es.map plain).reverse.map Prod.fst).Nodup := by
    rw [List.map_reverse, List.nodup_reverse, List.map_map]
    have hInj :
        (es.map (Prod.fst ∘ plain)) =
          (es.map CacheEntry.key).map
            (fun k => (k.1, k.2.toNat)) := by
      rw [List.map_map]
      rfl
    rw [hInj]
    apply List.Nodup.map _ hNodup
    intro a b hab
    simpa [Prod.ext_iff, UInt32.toNat_inj] using hab
  rw [Table.eraseP_eq_filter Prod.fst hKeys, List.filter_reverse,
    List.filter_map]
  congr 2
  apply List.filter_congr
  intro x _
  simp only [Function.comp_apply, ne_eq, decide_not,
    plain_key_eq_iff]

/- Taking out an entry that is listed. -/
theorem toLru_remove
    {x entry : CacheEntry}
    (s : LruCache)
    (hNodup : (es.map CacheEntry.key).Nodup)
    (hx : x ∈ es)
    (hKey : x.key = entry.key) :
    (s.toLru es).remove (plain entry).1 =
      { cap := s.cap.toNat
        curSize :=
          (s.curSize.toUInt32.toNat + 2 ^ 32 -
            x.dataSize.toNat) % 2 ^ 32
        entries :=
          ((es.filter (fun y => y.key ≠ entry.key)).map
            plain).reverse } := by
  have hFind :
      (s.toLru es).entries.find?
          (fun y => y.1 = (plain entry).1) =
        some (plain x) := by
    cases hFound : (s.toLru es).entries.find?
        (fun y => y.1 = (plain entry).1) with
    | none =>
        rw [List.find?_eq_none] at hFound
        have hNot := hFound (plain x)
          (List.mem_reverse.mpr (List.mem_map_of_mem hx))
        rw [decide_eq_true_eq, plain_key_eq_iff] at hNot
        exact absurd hKey hNot
    | some y =>
        have hSame := List.find?_some hFound
        rcases List.mem_map.mp (List.mem_reverse.mp
          (List.mem_of_find?_eq_some hFound)) with
          ⟨z, hz, hzy⟩
        rw [← hzy, decide_eq_true_eq, plain_key_eq_iff,
          ← hKey] at hSame
        rw [← hzy,
          List.inj_on_of_nodup_map hNodup hz hx hSame]
  simp only [Lru.remove, hFind]
  congr 1
  exact eraseP_plain hNodup

namespace Represents

/- The entry with the same key, if there is one, is gone. -/
theorem replaceExisting
    (h : Represents s ps es)
    (entry : CacheEntry) :
    ∃ s' ps', s.replaceExisting entry = some s' ∧
      Represents s' ps'
        (es.filter (fun x => x.key ≠ entry.key)) ∧
      s'.cap = s.cap ∧
      s'.toLru (es.filter (fun x => x.key ≠ entry.key)) =
        (s.toLru es).remove (plain entry).1 := by
  by_cases hListed : ∃ x ∈ es, x.key = entry.key
  · rcases hListed with ⟨x, hx, hKey⟩
    rcases h.split_of_mem hx with
      ⟨xs, p, ys, fs, gs, hPs, hEs, hLength⟩
    have hNodupAll := h.nodup
    rw [hPs, hEs] at h
    have hNodup := h.nodup
    rw [List.map_append, List.map_cons, List.nodup_middle,
      List.nodup_cons, ← List.map_append, hKey] at hNodup
    have hOthers :
        es.filter (fun x => x.key ≠ entry.key) = fs ++ gs := by
      rw [hEs, List.filter_append, List.filter_cons_of_neg
        (by simp [hKey]), ← List.filter_append]
      apply List.filter_eq_self.mpr
      intro y hy
      rw [decide_eq_true_eq]
      intro hSame
      apply hNodup.1
      rw [← hSame]
      exact List.mem_map_of_mem hy
    rcases h.deletenode hLength with
      ⟨s', hDelete, hNew, hCap, hSize⟩
    have hPath : s.m.lookup entry.key = some p := by
      rw [h.map, h.key_of_split hLength, ← hKey]
      exact ⟨by simp, rfl⟩
    refine ⟨s', xs ++ ys, ?_, ?_, hCap, ?_⟩
    · rw [LruCache.replaceExisting, hPath]
      simp only
      rw [← hKey]
      exact hDelete
    · rw [hOthers]
      exact hNew
    · rw [toLru_remove s hNodupAll hx hKey]
      simp only [toLru, hCap]
      congr 1
      rw [hSize, UInt32.toNat_sub]
      have hLt := x.dataSize.toNat_lt
      omega
  · have hNone : s.m.lookup entry.key = none := by
      rw [Option.eq_none_iff_forall_ne_some]
      intro p hp
      rcases (h.map entry.key p).mp hp with ⟨hIn, hEntry⟩
      exact hListed (h.exists_entry hIn hEntry)
    have hOthers :
        es.filter (fun x => x.key ≠ entry.key) = es := by
      apply List.filter_eq_self.mpr
      intro y hy
      rw [decide_eq_true_eq]
      intro hSame
      exact hListed ⟨y, hy, hSame⟩
    refine ⟨s, ps, ?_, ?_, rfl, ?_⟩
    · rw [LruCache.replaceExisting, hNone]
    · rw [hOthers]
      exact h
    · rw [hOthers, Lru.remove_of_find_none]
      apply List.find?_eq_none.mpr
      intro x hx hEq
      rcases List.mem_map.mp (List.mem_reverse.mp hx) with
        ⟨y, hy, hxy⟩
      rw [← hxy, decide_eq_true_eq, plain_key_eq_iff] at hEq
      exact hListed ⟨y, hy, hEq⟩

/- The node before the last sentinel is dropped. -/
theorem dropOldest
    {p : Nat}
    {entry : CacheEntry}
    (h : Represents s (ps ++ [p]) (es ++ [entry])) :
    ∃ s', s.dropOldest = some (entry, s') ∧
      Represents s' ps es ∧ s'.cap = s.cap ∧
      s'.curSize.toUInt32 =
        s.curSize.toUInt32 - entry.dataSize := by
  have hLength : ps.length = es.length := by
    have hAll := h.length_eq
    rw [List.length_append, List.length_append] at hAll
    exact Nat.add_right_cancel hAll
  rcases h.deletenode hLength with
    ⟨s', hDelete, hNew, hCap, hSize⟩
  rw [List.append_nil, List.append_nil] at hNew
  refine ⟨s', ?_, hNew, hCap, hSize⟩
  simp only [LruCache.dropOldest, Option.bind_eq_bind,
    h.list.prev_tail, h.key_of_split hLength,
    Option.bind_some, hDelete]

/- In an empty list the first sentinel would be dropped. -/
theorem dropOldest_nil
    (h : Represents s [] []) :
    s.dropOldest = none := by
  rcases Option.isSome_iff_exists.mp h.list.isSome_head with
    ⟨entry, hHead⟩
  simp only [LruCache.dropOldest, LruCache.deletenode,
    Option.bind_eq_bind, h.list.prev_tail_nil, hHead,
    h.list.unlink_head, Option.bind_some, Option.bind_none]

theorem room_iff
    (s : LruCache)
    (entry : CacheEntry) :
    s.cap < s.curSize.toUInt32 + entry.dataSize ↔
      ¬ (s.curSize.toUInt32.toNat + entry.dataSize.toNat) %
        2 ^ 32 ≤ s.cap.toNat := by
  rw [UInt32.lt_iff_toNat_lt, UInt32.toNat_add]
  omega

variable {rounds : Nat}

/-
  The loop follows the dropping of the oldest entries. The
  induction is on the entries, from the oldest one on.
-/
theorem makeRoom
    (h : Represents s ps es)
    (entry : CacheEntry)
    (hRounds : ps.length < rounds) :
    match Lru.evict s.cap.toNat entry.dataSize.toNat
        (es.map plain).reverse s.curSize.toUInt32.toNat with
    | none => s.makeRoom entry rounds = .undefined
    | some (gone, rest, cur) =>
        ∃ dropped s' ps' es',
          s.makeRoom entry rounds = .returns (dropped, s') ∧
          Represents s' ps' es' ∧ s'.cap = s.cap ∧
          s'.curSize.toUInt32.toNat = cur ∧
          es = es' ++ dropped.reverse ∧
          gone = dropped.map (fun x => (plain x).1) ∧
          rest = (es'.map plain).reverse := by
  induction es using List.reverseRecOn
    generalizing s ps rounds with
  | nil =>
      have hPs : ps = [] :=
        List.length_eq_zero_iff.mp h.length_eq
      subst hPs
      cases rounds with
      | zero => cases hRounds
      | succ rounds =>
          simp only [List.map_nil, List.reverse_nil, Lru.evict,
            LruCache.makeRoom, room_iff]
          by_cases hFits :
              (s.curSize.toUInt32.toNat +
                entry.dataSize.toNat) % 2 ^ 32 ≤ s.cap.toNat
          · rw [if_pos hFits]
            exact ⟨[], s, [], [], by rw [if_neg (by simpa)],
              h, rfl, rfl, rfl, rfl, rfl⟩
          · rw [if_neg hFits, if_pos hFits, h.dropOldest_nil]
  | append_singleton es oldest ih =>
      have hLength := h.length_eq
      rw [List.length_append, List.length_singleton] at hLength
      rcases List.eq_nil_or_concat' ps with hNil | ⟨ps', p, hPs⟩
      · rw [hNil] at hLength
        cases hLength
      subst hPs
      cases rounds with
      | zero => cases hRounds
      | succ rounds =>
          simp only [List.map_append, List.map_cons,
            List.map_nil, List.reverse_append,
            List.reverse_cons, List.reverse_nil,
            List.nil_append, List.cons_append, Lru.evict,
            LruCache.makeRoom, room_iff]
          by_cases hFits :
              (s.curSize.toUInt32.toNat +
                entry.dataSize.toNat) % 2 ^ 32 ≤ s.cap.toNat
          · rw [if_pos hFits]
            refine ⟨[], s, _, _, by rw [if_neg (by simpa)],
              h, rfl, rfl, ?_, rfl, ?_⟩
            · rw [List.reverse_nil, List.append_nil]
            · simp
          · rcases h.dropOldest with
              ⟨s₁, hDrop, h₁, hCap, hSize⟩
            have hCur :
                s₁.curSize.toUInt32.toNat =
                  (s.curSize.toUInt32.toNat + 2 ^ 32 -
                    (plain oldest).2) % 2 ^ 32 := by
              rw [hSize, UInt32.toNat_sub, plain]
              have hLt := oldest.dataSize.toNat_lt
              omega
            have hFewer : ps'.length < rounds := by
              rw [List.length_append] at hRounds
              exact Nat.lt_of_succ_lt_succ hRounds
            have hNext := ih h₁ hFewer
            rw [hCap, hCur] at hNext
            rw [if_neg hFits, if_pos hFits, hDrop]
            cases hEvict :
                Lru.evict s.cap.toNat entry.dataSize.toNat
                  (es.map plain).reverse
                  ((s.curSize.toUInt32.toNat + 2 ^ 32 -
                    (plain oldest).2) % 2 ^ 32) with
            | none =>
                rw [hEvict] at hNext
                simp only [Option.map_none]
                rw [hNext]
                rfl
            | some r =>
                rcases r with ⟨gone, rest, cur⟩
                rw [hEvict] at hNext
                rcases hNext with
                  ⟨dropped, s', ps'', es', hLoop, hNew, hCap',
                    hCur', hEs, hGone, hRest⟩
                simp only [Option.map_some]
                refine ⟨oldest :: dropped, s', ps'', es', ?_,
                  hNew, hCap', hCur', ?_, ?_, hRest⟩
                · rw [hLoop]
                  rfl
                · rw [hEs, List.reverse_cons,
                    List.append_assoc]
                · rw [hGone, List.map_cons]

/- A new node is the first one, and the map leads to it. -/
theorem insertNew
    (h : Represents s ps es)
    {entry : CacheEntry}
    (hNew : entry.key ∉ es.map CacheEntry.key) :
    ∃ s', s.insertNew entry = some s' ∧
      Represents s' (s.fresh :: ps) (entry :: es) ∧
      s'.cap = s.cap ∧
      s'.curSize.toUInt32 =
        s.curSize.toUInt32 + entry.dataSize := by
  have hUnused : s.heap.key s.fresh = none := by
    rw [← Option.not_isSome_iff_eq_none]
    intro hLive
    exact Nat.lt_irrefl _ (h.fresh _ hLive)
  have hFree :
      s.fresh ∉ s.head :: (ps ++ [s.tail]) := by
    intro hIn
    have hLive : (s.heap.key s.fresh).isSome := by
      rcases List.mem_cons.mp hIn with hHead | hRest
      · rw [hHead]
        exact h.list.isSome_head
      · exact h.list.linked.isSome_key _ hRest
    rw [hUnused] at hLive
    cases hLive
  have hTemp :
      ((s.heap.alloc s.fresh entry).key s.fresh).isSome := by
    rw [Heap.alloc, Heap.key_store, if_pos rfl]
    rfl
  rcases (h.list.alloc hFree entry).addFirst hTemp hFree with
    ⟨heap, hAdd, hList, hHeap⟩
  have hKey :
      ∀ x, heap.key x =
        if x = s.fresh then some entry
        else s.heap.key x := by
    intro x
    rw [hHeap, Heap.alloc, Heap.key_store]
    rfl
  have hOther : ∀ x ∈ ps, x ≠ s.fresh := by
    intro x hx hEq
    apply hFree
    rw [← hEq]
    exact List.mem_cons_of_mem _ (List.mem_append_left _ hx)
  refine ⟨{ s with
      heap := heap
      fresh := s.fresh + 1
      curSize := addSize s.curSize entry.dataSize
      m := s.m.insert entry.key s.fresh }, ?_, ?_, rfl, rfl⟩
  · have hNext : heap.next s.head = some s.fresh :=
      hList.linked.1
    simp only [LruCache.insertNew, LruCache.addnode,
      Option.bind_eq_bind, Heap.alloc, Heap.key_store, if_true,
      Option.map_some, Option.bind_some]
    rw [Heap.alloc] at hAdd
    rw [hAdd]
    simp only [Option.bind_some, hNext]
  · constructor
    · exact hList
    · rw [List.map_cons, List.map_cons, hKey, if_pos rfl,
        ← h.keys]
      congr 1
      apply List.map_congr_left
      intro x hx
      rw [hKey, if_neg (hOther x hx)]
    · rw [List.map_cons, List.nodup_cons]
      exact ⟨hNew, h.nodup⟩
    · intro k p
      simp only [hKey]
      by_cases hk : k = entry.key
      · subst hk
        rw [AList.lookup_insert]
        constructor
        · intro hEq
          have hSame : s.fresh = p := Option.some.inj hEq
          rw [if_pos hSame.symm]
          exact ⟨hSame ▸ List.mem_cons_self, rfl⟩
        · rintro ⟨hIn, hEntry⟩
          by_cases hp : p = s.fresh
          · rw [hp]
          · rw [if_neg hp] at hEntry
            have hp' := (List.mem_cons.mp hIn).resolve_left hp
            rcases h.exists_entry hp' hEntry with
              ⟨x, hx, hxk⟩
            exact absurd (hxk ▸ List.mem_map_of_mem hx) hNew
      · rw [AList.lookup_insert_ne hk, h.map]
        constructor
        · rintro ⟨hIn, hEntry⟩
          rw [if_neg (hOther p hIn)]
          exact ⟨List.mem_cons_of_mem _ hIn, hEntry⟩
        · rintro ⟨hIn, hEntry⟩
          by_cases hp : p = s.fresh
          · rw [if_pos hp] at hEntry
            exact absurd (Option.some.inj hEntry).symm hk
          · rw [if_neg hp] at hEntry
            exact ⟨(List.mem_cons.mp hIn).resolve_left hp,
              hEntry⟩
    · intro p hLive
      simp only [hKey] at hLive
      split at hLive
      · rename_i hp
        rw [hp]
        exact Nat.lt_succ_self _
      · exact Nat.lt_succ_of_lt (h.fresh p hLive)
    · have hSize := h.size
      simp only [addSize, List.map_cons, Lru.total_cons]
      change (s.curSize.toUInt32 + entry.dataSize).toNat = _
      rw [UInt32.toNat_add, hSize, plain]
      omega

/-
  Setting an entry follows the list without its pointers: it
  returns the same, or both are undefined.
-/
theorem set_refines
    (h : Represents s ps es)
    (entry : CacheEntry)
    (hRounds : s.fresh ≤ rounds) :
    match (s.toLru es).set (plain entry).1 (plain entry).2 with
    | none => s.set rounds entry = .undefined
    | some (gone, lru) =>
        ∃ dropped s' ps' kept,
          s.set rounds entry = .returns (dropped, s') ∧
          Represents s' ps' (entry :: kept) ∧
          s'.cap = s.cap ∧
          s'.toLru (entry :: kept) = lru ∧
          gone = dropped.map (fun x => (plain x).1) ∧
          es.filter (fun x => x.key ≠ entry.key) =
            kept ++ dropped.reverse := by
  rcases h.replaceExisting entry with
    ⟨s₁, ps₁, hReplace, h₁, hCap₁, hLru⟩
  have hFewer : ps₁.length < rounds := by
    have hLe := List.length_filter_le
      (fun x => x.key ≠ entry.key) es
    have hLength := h.length_eq
    have hLength₁ := h₁.length_eq
    have hLt := h.length_lt
    omega
  have hRoom := h₁.makeRoom entry hFewer
  have hEvict :
      (s.toLru es).set (plain entry).1 (plain entry).2 =
        (Lru.evict s₁.cap.toNat entry.dataSize.toNat
          ((es.filter (fun x => x.key ≠ entry.key)).map
            plain).reverse
          s₁.curSize.toUInt32.toNat).map (fun r =>
            (r.1,
              { cap := s.cap.toNat
                curSize :=
                  (r.2.2 + (plain entry).2) % 2 ^ 32
                entries := r.2.1 ++ [plain entry] })) := by
    rw [Lru.set, ← hLru, hCap₁]
    rfl
  rw [hEvict]
  cases hResult :
      Lru.evict s₁.cap.toNat entry.dataSize.toNat
        ((es.filter (fun x => x.key ≠ entry.key)).map
          plain).reverse
        s₁.curSize.toUInt32.toNat with
  | none =>
      rw [hResult] at hRoom
      simp only [Option.map_none]
      rw [LruCache.set, hReplace]
      simp only [hRoom]
  | some r =>
      rcases r with ⟨gone, rest, cur⟩
      rw [hResult] at hRoom
      rcases hRoom with
        ⟨dropped, s₂, ps₂, kept, hLoop, h₂, hCap₂, hCur, hEs,
          hGone, hRest⟩
      have hNew : entry.key ∉ kept.map CacheEntry.key := by
        intro hIn
        rcases List.mem_map.mp hIn with ⟨x, hx, hxk⟩
        have hMem :
            x ∈ es.filter (fun x => x.key ≠ entry.key) := by
          rw [hEs]
          exact List.mem_append_left _ hx
        have hNe := (List.mem_filter.mp hMem).2
        rw [decide_eq_true_eq] at hNe
        exact hNe hxk
      rcases h₂.insertNew hNew with
        ⟨s₃, hInsert, h₃, hCap₃, hSize⟩
      simp only [Option.map_some]
      refine ⟨dropped, s₃, s₂.fresh :: ps₂, kept, ?_, h₃, ?_,
        ?_, hGone, hEs⟩
      · rw [LruCache.set, hReplace]
        simp only [hLoop, hInsert]
      · rw [hCap₃, hCap₂, hCap₁]
      · simp only [toLru, hCap₃, hCap₂, hCap₁, hSize,
          UInt32.toNat_add, hCur, hRest, List.map_cons,
          List.reverse_cons]
        rfl

end Represents

----------
-- Sequences Of Calls
----------

/- A call that returns, and the list after it. -/
def next (s : LruCache) (entry : CacheEntry) :
    Option LruCache :=
  match s.set s.fresh entry with
  | .returns (_, s') => some s'
  | .undefined => none
  | .unfinished => none

/- How many bytes some entries stand for. -/
def bytes (es : List CacheEntry) : Nat :=
  (es.map (fun x => x.dataSize.toNat)).sum

/- The entries with another key. -/
def others (s : LruCache) (entry : CacheEntry) :
    List CacheEntry :=
  s.entries.filter (fun x => x.key ≠ entry.key)

/- The last calls for each key, the last one first. -/
def recent (calls : List CacheEntry) : List CacheEntry :=
  calls.foldl
    (fun es entry =>
      entry :: es.filter (fun x => x.key ≠ entry.key))
    []

variable {entry : CacheEntry}

theorem recent_append
    (calls : List CacheEntry)
    (entry : CacheEntry) :
    recent (calls ++ [entry]) =
      entry ::
        (recent calls).filter (fun x => x.key ≠ entry.key) := by
  rw [recent, List.foldl_append]
  rfl

theorem total_plain
    (es : List CacheEntry) :
    Lru.total (es.map plain) = bytes es := by
  rw [Lru.total, List.map_map]
  rfl

theorem total_reverse
    (es : List CacheEntry) :
    Lru.total (es.map plain).reverse = bytes es := by
  rw [Lru.total_of_perm (List.reverse_perm _), total_plain]

theorem Represents.consistent_iff
    (h : Represents s ps es) :
    (s.toLru es).Consistent ↔
      s.curSize.toUInt32.toNat ≤ s.cap.toNat := by
  constructor
  · intro hConsistent
    exact hConsistent.bounded
  · intro hLe
    refine ⟨?_, ?_, hLe⟩
    · intro x hx
      rcases List.mem_map.mp (List.mem_reverse.mp hx) with
        ⟨y, _, hxy⟩
      rw [← hxy]
      exact y.dataSize.toNat_lt
    · simp only [toLru]
      rw [h.size, total_plain, total_reverse]

/- The newest of the other entries, with and without types. -/
theorem suffix_iff
    {rest : List ((Uuid × Nat) × Nat)} :
    rest <:+ (es.map plain).reverse ↔
      ∃ kept, kept <+: es ∧
        rest = (kept.map plain).reverse := by
  constructor
  · intro hSuffix
    have hPrefix := List.reverse_prefix.mpr hSuffix
    rw [List.reverse_reverse] at hPrefix
    rcases List.prefix_map_iff.mp hPrefix with
      ⟨kept, hKept, hEq⟩
    refine ⟨kept, hKept, ?_⟩
    rw [← hEq, List.reverse_reverse]
  · rintro ⟨kept, hKept, hEq⟩
    rw [hEq]
    exact List.reverse_suffix.mpr (hKept.map plain)

/- What a call does. -/
theorem Represents.next
    (h : Represents s ps es)
    (hLe : s.curSize.toUInt32.toNat ≤ s.cap.toNat)
    (hNext : s.next entry = some s') :
    ∃ ps' kept, Represents s' ps' (entry :: kept) ∧
      s'.cap = s.cap ∧
      s'.curSize.toUInt32.toNat ≤ s'.cap.toNat ∧
      kept <+: es.filter (fun x => x.key ≠ entry.key) ∧
      (bytes kept % 2 ^ 32 + entry.dataSize.toNat) % 2 ^ 32 ≤
        s.cap.toNat ∧
      ∀ longer,
        longer <+: es.filter (fun x => x.key ≠ entry.key) →
        kept.length < longer.length →
        s.cap.toNat <
          (bytes longer + entry.dataSize.toNat) % 2 ^ 32 := by
  have hRefines := h.set_refines entry (Nat.le_refl _)
  have hConsistent := h.consistent_iff.mpr hLe
  cases hSet :
      (s.toLru es).set (plain entry).1 (plain entry).2 with
  | none =>
      rw [hSet] at hRefines
      rw [LruCache.next, hRefines] at hNext
      cases hNext
  | some r =>
      rcases r with ⟨gone, lru⟩
      rw [hSet] at hRefines
      rcases hRefines with
        ⟨dropped, s₁, ps', kept, hReturns, h', hCap, hLru, _,
          hOthers⟩
      rw [LruCache.next, hReturns] at hNext
      cases hNext
      rcases Lru.set_spec hConsistent entry.dataSize.toNat_lt
          hSet with
        ⟨old, rest, _, _, hEntries, _, hNew, hFits⟩
      have hRest : rest = (kept.map plain).reverse := by
        rw [← hLru] at hEntries
        simp only [toLru, List.map_cons,
          List.reverse_cons] at hEntries
        exact (List.append_inj_left' hEntries rfl).symm
      refine ⟨ps', kept, h', hCap, ?_, ⟨_, hOthers.symm⟩, ?_,
        ?_⟩
      · rw [← hLru] at hNew
        exact hNew.bounded
      · rw [hRest, total_reverse] at hFits
        exact hFits
      · intro longer hLonger hLength
        have hMore :
            (longer.map plain).reverse <:+
              (s.toLru es).entries.eraseP
                (fun x => x.1 = (plain entry).1) := by
          simp only [toLru]
          rw [eraseP_plain h.nodup]
          exact suffix_iff.mpr ⟨longer, hLonger, rfl⟩
        have hLast := Lru.set_longest hConsistent hSet hEntries
          hMore (by
            rw [hRest, List.length_reverse,
              List.length_reverse, List.length_map,
              List.length_map]
            exact hLength)
        rw [total_reverse] at hLast
        exact hLast

/- A call returns exactly if some newest entries fit. -/
theorem Represents.isSome_next
    (h : Represents s ps es)
    (hLe : s.curSize.toUInt32.toNat ≤ s.cap.toNat)
    (entry : CacheEntry) :
    (s.next entry).isSome ↔
      ∃ kept,
        kept <+: es.filter (fun x => x.key ≠ entry.key) ∧
        (bytes kept + entry.dataSize.toNat) % 2 ^ 32 ≤
          s.cap.toNat := by
  have hSome :
      (s.next entry).isSome ↔
        ((s.toLru es).set (plain entry).1
          (plain entry).2).isSome := by
    have hRefines := h.set_refines entry (Nat.le_refl _)
    cases hSet :
        (s.toLru es).set (plain entry).1 (plain entry).2 with
    | none =>
        rw [hSet] at hRefines
        rw [LruCache.next, hRefines]
        simp
    | some r =>
        rcases r with ⟨gone, lru⟩
        rw [hSet] at hRefines
        rcases hRefines with
          ⟨dropped, s₁, ps', kept, hReturns, _⟩
        rw [LruCache.next, hReturns]
        simp
  rw [hSome, Lru.set_isSome_iff (h.consistent_iff.mpr hLe)]
  simp only [toLru]
  rw [eraseP_plain h.nodup]
  constructor
  · rintro ⟨rest, hRest, hFits⟩
    rcases suffix_iff.mp hRest with ⟨kept, hKept, hEq⟩
    rw [hEq, total_reverse] at hFits
    exact ⟨kept, hKept, hFits⟩
  · rintro ⟨kept, hKept, hFits⟩
    refine ⟨_, suffix_iff.mpr ⟨kept, hKept, rfl⟩, ?_⟩
    rw [total_reverse]
    exact hFits

----------
-- Order And Size
----------

/-
  A list after some calls: linked in both directions, one
  entry a key, a map to its nodes, its size, which is within
  the limit, and its order.
-/
structure Orderly
    (calls : List CacheEntry)
    (s : LruCache) : Prop where
  linked : s.heap.IsList s.head s.tail s.nodes
  nodup : (s.entries.map CacheEntry.key).Nodup
  map :
    ∀ k p, s.m.lookup k = some p ↔
      p ∈ s.nodes ∧
        (s.heap.key p).map CacheEntry.key = some k
  size : s.curSize.toInt = bytes s.entries
  bounded : bytes s.entries ≤ s.cap.toNat
  order : s.entries <+: recent calls

/-
  A call puts its entry first and keeps the longest beginning
  of the other entries with which it fits.
-/
def DropsShortest
    (s : LruCache)
    (entry : CacheEntry)
    (s' : LruCache) : Prop :=
  ∃ kept dropped,
    s.others entry = kept ++ dropped ∧
    s'.entries = entry :: kept ∧
    bytes kept + entry.dataSize.toNat ≤ s.cap.toNat ∧
    ∀ longer, longer <+: s.others entry →
      kept.length < longer.length →
      s.cap.toNat < bytes longer + entry.dataSize.toNat

variable {capacity : UInt32} {calls : List CacheEntry}

theorem bytes_append
    (xs ys : List CacheEntry) :
    bytes (xs ++ ys) = bytes xs + bytes ys := by
  rw [bytes, List.map_append, List.sum_append]
  rfl

theorem bytes_filter_le
    (f : CacheEntry → Bool)
    (es : List CacheEntry) :
    bytes (es.filter f) ≤ bytes es := by
  induction es with
  | nil => exact Nat.le_refl _
  | cons x es ih =>
      rw [List.filter_cons]
      split
      · simp only [bytes, List.map_cons, List.sum_cons] at ih ⊢
        omega
      · simp only [bytes, List.map_cons, List.sum_cons] at ih ⊢
        omega

theorem toInt_of_lt
    {n : Int32}
    (h : n.toUInt32.toNat < 2 ^ 31) :
    n.toInt = n.toUInt32.toNat := by
  apply BitVec.toInt_eq_toNat_of_lt
  change 2 * n.toUInt32.toNat < 2 ^ 32
  omega

/- The list behind an orderly one. -/
structure Kept
    (capacity : UInt32)
    (calls : List CacheEntry)
    (s : LruCache)
    (ps : List Nat)
    (es : List CacheEntry) : Prop where
  represents : Represents s ps es
  cap_eq : s.cap = capacity
  bounded : bytes es ≤ capacity.toNat
  order : es <+: recent calls

theorem kept_init
    (capacity : UInt32) :
    Kept capacity [] (init capacity) [] [] where
  represents := represents_init capacity
  cap_eq := rfl
  bounded := Nat.zero_le _
  order := List.prefix_rfl

namespace Kept

section

variable (h : Kept capacity calls s ps es)
include h

theorem curSize_eq :
    s.curSize.toUInt32.toNat = bytes es := by
  have hLt := capacity.toNat_lt
  have hLe := h.bounded
  rw [h.represents.size, total_plain]
  exact Nat.mod_eq_of_lt (by omega)

theorem curSize_le :
    s.curSize.toUInt32.toNat ≤ s.cap.toNat := by
  rw [h.curSize_eq, h.cap_eq]
  exact h.bounded

theorem orderly
    (hCap : capacity.toNat < 2 ^ 31) :
    Orderly calls s := by
  have hNodes := h.represents.nodes_eq
  have hEntries := h.represents.entries_eq
  have hLe := h.bounded
  constructor
  · rw [hNodes]
    exact h.represents.list
  · rw [hEntries]
    exact h.represents.nodup
  · rw [hNodes]
    exact h.represents.map
  · rw [hEntries, toInt_of_lt, h.curSize_eq]
    rw [h.curSize_eq]
    omega
  · rw [hEntries, h.cap_eq]
    exact hLe
  · rw [hEntries]
    exact h.order

/- A call with an entry that fits returns and drops little. -/
theorem next
    (hCap : capacity.toNat < 2 ^ 31)
    (hSize : entry.dataSize ≤ capacity) :
    ∃ s' ps' es', s.next entry = some s' ∧
      Kept capacity (calls ++ [entry]) s' ps' es' ∧
      DropsShortest s entry s' := by
  have hRepresents := h.represents
  have hSize' : entry.dataSize.toNat ≤ capacity.toNat := hSize
  have hFits :
      ∃ kept,
        kept <+: es.filter (fun x => x.key ≠ entry.key) ∧
        (bytes kept + entry.dataSize.toNat) % 2 ^ 32 ≤
          s.cap.toNat := by
    refine ⟨[], List.nil_prefix, ?_⟩
    have hMod := Nat.mod_le (bytes [] + entry.dataSize.toNat)
      (2 ^ 32)
    have hNil : bytes [] = 0 := rfl
    rw [h.cap_eq]
    omega
  have hSome :=
    (hRepresents.isSome_next h.curSize_le entry).mpr hFits
  rcases Option.isSome_iff_exists.mp hSome with ⟨s', hNext⟩
  rcases hRepresents.next h.curSize_le hNext with
    ⟨ps', kept, h', hCap', _, hKept, hRoom, hLongest⟩
  rw [h.cap_eq] at hRoom hLongest
  rcases hKept with ⟨dropped, hSplit⟩
  have hKeptLe : bytes kept ≤ capacity.toNat := by
    have hFilter := bytes_filter_le
      (fun x => x.key ≠ entry.key) es
    have hLe := h.bounded
    rw [← hSplit, bytes_append] at hFilter
    omega
  have hTotal :
      bytes kept + entry.dataSize.toNat ≤ capacity.toNat := by
    rw [Nat.mod_add_mod, Nat.mod_eq_of_lt (by omega)] at hRoom
    exact hRoom
  refine ⟨s', ps', entry :: kept, hNext, ?_, ?_⟩
  · refine ⟨h', hCap'.trans h.cap_eq, ?_, ?_⟩
    · simp only [bytes, List.map_cons, List.sum_cons] at hTotal ⊢
      omega
    · rw [recent_append]
      apply List.cons_prefix_cons.mpr
      refine ⟨rfl, ?_⟩
      have hPrefix : kept <+:
          es.filter (fun x => x.key ≠ entry.key) :=
        ⟨dropped, hSplit⟩
      exact hPrefix.trans (h.order.filter _)
  · have hOthers :
        s.others entry =
          es.filter (fun x => x.key ≠ entry.key) := by
      rw [others, hRepresents.entries_eq]
    refine ⟨kept, dropped, ?_, h'.entries_eq, ?_, ?_⟩
    · rw [hOthers, hSplit]
    · rw [h.cap_eq]
      exact hTotal
    · intro longer hLonger hLength
      rw [hOthers] at hLonger
      have hLt := hLongest longer hLonger hLength
      have hMod := Nat.mod_le
        (bytes longer + entry.dataSize.toNat) (2 ^ 32)
      rw [h.cap_eq]
      omega

/- All calls return. -/
theorem run (hCap : capacity.toNat < 2 ^ 31)
    {later : List CacheEntry}
    (hSizes : ∀ x ∈ later, x.dataSize ≤ capacity) :
    ∃ s' ps' es',
      run LruCache.next s later = some s' ∧
      Kept capacity (calls ++ later) s' ps' es' := by
  induction later generalizing calls s ps es with
  | nil => exact ⟨s, ps, es, rfl, by rwa [List.append_nil]⟩
  | cons entry later ih =>
      rw [List.forall_mem_cons] at hSizes
      rcases h.next hCap hSizes.1 with
        ⟨s₁, ps₁, es₁, hNext, h₁, _⟩
      rcases ih h₁ hSizes.2 with ⟨s', ps', es', hRun, h'⟩
      refine ⟨s', ps', es', ?_, ?_⟩
      · exact run_cons.mpr ⟨s₁, hNext, hRun⟩
      · rw [List.append_assoc] at h'
        exact h'

end

end Kept

/-
  Below half of the range, and with sizes within the limit,
  every call of every sequence returns, leaves an orderly list
  and drops the shortest end of it.
-/
theorem set_keeps_order
    {capacity : UInt32}
    (hCap : capacity.toNat < 2 ^ 31)
    {calls : List CacheEntry}
    {entry : CacheEntry}
    (hSizes : ∀ x ∈ calls ++ [entry], x.dataSize ≤ capacity) :
    ∃ s s',
      run next (init capacity) calls = some s ∧
      s.next entry = some s' ∧
      Orderly (calls ++ [entry]) s' ∧
      DropsShortest s entry s' := by
  rw [List.forall_mem_append] at hSizes
  rcases (kept_init capacity).run hCap hSizes.1 with
    ⟨s, ps, es, hRun, hKept⟩
  rw [List.nil_append] at hKept
  have hSize := hSizes.2 entry List.mem_cons_self
  rcases hKept.next hCap hSize with
    ⟨s', ps', es', hNext, hKept', hDrops⟩
  exact ⟨s, s', hRun, hNext, hKept'.orderly hCap, hDrops⟩

/- An entry for a block of a file. -/
def sample (blockId dataSize : UInt32) : CacheEntry :=
  { fileKey := Vector.replicate 32 1
    blockId := blockId
    dataSize := dataSize }

/- Two entries, one of them again, and one that drops them. -/
theorem set_keeps_order_dropped :
    ∃ s s',
      run next (init 4096)
        [sample 0 1000, sample 1 2000, sample 0 1500] =
          some s ∧
      s.next (sample 2 3000) = some s' ∧
      Orderly
        [sample 0 1000, sample 1 2000, sample 0 1500,
          sample 2 3000] s' ∧
      DropsShortest s (sample 2 3000) s' :=
  set_keeps_order (by decide) (by decide)

----------
-- The Sentinels
----------

/- Some of the newest entries leave room for another one. -/
def LeavesRoom (s : LruCache) (entry : CacheEntry) : Prop :=
  ∃ kept, kept <+: s.others entry ∧
    (bytes kept + entry.dataSize.toNat) % 2 ^ 32 ≤ s.cap.toNat

/- A list that some calls reached. -/
def Reached (s : LruCache) : Prop :=
  ∃ ps es, Represents s ps es ∧
    s.curSize.toUInt32.toNat ≤ s.cap.toNat

variable {s : LruCache}

theorem reached_next
    {s' : LruCache}
    {entry : CacheEntry}
    (h : Reached s)
    (hNext : s.next entry = some s') :
    Reached s' := by
  rcases h with ⟨ps, es, hRepresents, hLe⟩
  rcases hRepresents.next hLe hNext with
    ⟨ps', kept, h', _, hLe', _⟩
  exact ⟨ps', entry :: kept, h', hLe'⟩

/- The loop ends, in one way or another. -/
theorem set_ne_unfinished
    (h : Reached s)
    (entry : CacheEntry)
    {rounds : Nat}
    (hRounds : s.fresh ≤ rounds) :
    s.set rounds entry ≠ .unfinished := by
  rcases h with ⟨ps, es, hRepresents, _⟩
  have hRefines := hRepresents.set_refines entry hRounds
  intro hEnding
  cases hSet :
      (s.toLru es).set (plain entry).1 (plain entry).2 with
  | none =>
      rw [hSet, hEnding] at hRefines
      cases hRefines
  | some r =>
      rcases r with ⟨gone, lru⟩
      rw [hSet] at hRefines
      rcases hRefines with ⟨_, _, _, _, hReturns, _⟩
      rw [hEnding] at hReturns
      cases hReturns

/-
  A sequence of calls never touches what is before the first
  sentinel exactly if every call leaves room. In the lists it
  reaches the loop always ends and the sentinels are there.
-/
theorem sets_inside_iff
    (capacity : UInt32)
    (calls : List CacheEntry) :
    ((run next (init capacity) calls).isSome ↔
        Along next LeavesRoom (init capacity)
          calls) ∧
      ∀ s,
        run next (init capacity) calls = some s →
        (s.heap.key s.head).isSome ∧
          (s.heap.key s.tail).isSome ∧
          ∀ entry rounds, s.fresh ≤ rounds →
            s.set rounds entry ≠ .unfinished := by
  have hInit : Reached (init capacity) :=
    ⟨[], [], represents_init capacity, Nat.zero_le _⟩
  refine ⟨?_, ?_⟩
  · apply isSome_run_iff_along
      (fun s entry s' h hNext => reached_next h hNext) _ hInit
    rintro s entry ⟨ps, es, hRepresents, hLe⟩
    rw [hRepresents.isSome_next hLe, LeavesRoom, others,
      hRepresents.entries_eq]
  · intro s hRun
    have hReached : Reached s :=
      invariant_of_any_run
        (fun _ _ _ h hNext => reached_next h hNext) hInit hRun
    refine ⟨?_, ?_, ?_⟩
    · rcases hReached with ⟨ps, es, hRepresents, _⟩
      exact hRepresents.list.isSome_head
    · rcases hReached with ⟨ps, es, hRepresents, _⟩
      exact hRepresents.list.isSome_tail
    · intro entry rounds hRounds
      exact set_ne_unfinished hReached entry hRounds

/- A byte does not fit into nothing, nor a table's size. -/
theorem set_reaches_sentinel :
    (init 0).set 2 (sample 0 1) = .undefined ∧
      run next (init 0) [sample 0 1] = none ∧
      run next (init 8192)
        [sample 0 4096, sample 1 8193] = none := by
  refine ⟨rfl, rfl, rfl⟩

end LruCache

end Slfs
