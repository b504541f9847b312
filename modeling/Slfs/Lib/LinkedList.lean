import Mathlib.Algebra.Order.Ring.Int
import Mathlib.Data.List.Nodup

/-
  Doubly linked lists on a heap.

  A list lies between two sentinel nodes. Reading a pointer
  that is not set, or a node that is not there, is undefined.
  A heap is described by the addresses of its nodes in order.

  Main declarations:
    * `Heap`, with loads and stores that may be undefined
    * `Heap.IsList.addFirst`
    * `Heap.IsList.unlink`
-/

----------
-- Nodes
----------

namespace Slfs

structure Node (α : Type) where
  key : α
  prev : Option Nat
  next : Option Nat

/- The nodes at the addresses that are in use. -/
def Heap (α : Type) := Nat → Option (Node α)

namespace Heap

variable {α : Type}

def empty : Heap α := fun _ => none

def key (h : Heap α) (p : Nat) : Option α :=
  (h p).map Node.key

def prev (h : Heap α) (p : Nat) : Option Nat :=
  (h p).bind Node.prev

def next (h : Heap α) (p : Nat) : Option Nat :=
  (h p).bind Node.next

def store (p : Nat) (node : Option (Node α)) (h : Heap α) :
    Heap α :=
  fun x => if x = p then node else h x

/- A new node, whose pointers are not set. -/
def alloc (p : Nat) (a : α) (h : Heap α) : Heap α :=
  h.store p (some ⟨a, none, none⟩)

def free (p : Nat) (h : Heap α) : Heap α :=
  h.store p none

def setPrev (p q : Nat) (h : Heap α) : Option (Heap α) :=
  (h p).map (fun node =>
    h.store p (some { node with prev := some q }))

def setNext (p q : Nat) (h : Heap α) : Option (Heap α) :=
  (h p).map (fun node =>
    h.store p (some { node with next := some q }))

/- Put a node behind the first sentinel. -/
def addFirst (head temp : Nat) (h : Heap α) :
    Option (Heap α) := do
  let dummy ← h.next head
  let h ← h.setNext head temp
  let h ← h.setPrev temp head
  let h ← h.setNext temp dummy
  h.setPrev dummy temp

/- Take a node out and free it. -/
def unlink (temp : Nat) (h : Heap α) : Option (Heap α) := do
  let delnext ← h.next temp
  let delprev ← h.prev temp
  let h ← h.setPrev delnext delprev
  let h ← h.setNext delprev delnext
  some (h.free temp)

----------
-- Loads After Stores
----------

variable {h h' : Heap α}

@[simp] theorem key_store
    (p : Nat)
    (node : Option (Node α))
    (h : Heap α)
    (x : Nat) :
    (h.store p node).key x =
      if x = p then node.map Node.key else h.key x := by
  unfold key store
  split
  · rfl
  · rfl

@[simp] theorem prev_store
    (p : Nat)
    (node : Option (Node α))
    (h : Heap α)
    (x : Nat) :
    (h.store p node).prev x =
      if x = p then node.bind Node.prev else h.prev x := by
  unfold prev store
  split
  · rfl
  · rfl

@[simp] theorem next_store
    (p : Nat)
    (node : Option (Node α))
    (h : Heap α)
    (x : Nat) :
    (h.store p node).next x =
      if x = p then node.bind Node.next else h.next x := by
  unfold next store
  split
  · rfl
  · rfl

variable {p temp : Nat} {q : Nat}

/- Nodes whose pointers can be read are there. -/
theorem isSome_key_of_next
    (hNext : h.next p = some q) :
    (h.key p).isSome := by
  rcases Option.bind_eq_some_iff.mp hNext with ⟨node, hNode, _⟩
  rw [key, hNode]
  rfl

theorem isSome_key_of_prev
    (hPrev : h.prev p = some q) :
    (h.key p).isSome := by
  rcases Option.bind_eq_some_iff.mp hPrev with ⟨node, hNode, _⟩
  rw [key, hNode]
  rfl

/- A store to a node that is there changes one pointer. -/
theorem exists_setPrev
    (hLive : (h.key p).isSome)
    (q : Nat) :
    ∃ h', h.setPrev p q = some h' ∧
      (∀ x, h'.key x = h.key x) ∧
      (∀ x, h'.next x = h.next x) ∧
      ∀ x, h'.prev x =
        if x = p then some q else h.prev x := by
  cases hNode : h p with
  | none =>
      rw [key, hNode] at hLive
      cases hLive
  | some node =>
      refine ⟨_, by rw [setPrev, hNode]; rfl, ?_, ?_, ?_⟩
      · intro x
        rw [key_store]
        split
        · rename_i hx
          rw [hx, key, hNode]
          rfl
        · rfl
      · intro x
        rw [next_store]
        split
        · rename_i hx
          rw [hx, next, hNode]
          rfl
        · rfl
      · intro x
        rw [prev_store]
        rfl

theorem exists_setNext
    (hLive : (h.key p).isSome)
    (q : Nat) :
    ∃ h', h.setNext p q = some h' ∧
      (∀ x, h'.key x = h.key x) ∧
      (∀ x, h'.prev x = h.prev x) ∧
      ∀ x, h'.next x =
        if x = p then some q else h.next x := by
  cases hNode : h p with
  | none =>
      rw [key, hNode] at hLive
      cases hLive
  | some node =>
      refine ⟨_, by rw [setNext, hNode]; rfl, ?_, ?_, ?_⟩
      · intro x
        rw [key_store]
        split
        · rename_i hx
          rw [hx, key, hNode]
          rfl
        · rfl
      · intro x
        rw [prev_store]
        split
        · rename_i hx
          rw [hx, prev, hNode]
          rfl
        · rfl
      · intro x
        rw [next_store]
        rfl

/- What putting a node behind the sentinel does. -/
theorem exists_addFirst
    {head dummy : Nat}
    (hNext : h.next head = some dummy)
    (hTemp : (h.key temp).isSome)
    (hDummy : (h.key dummy).isSome) :
    ∃ h', h.addFirst head temp = some h' ∧
      (∀ x, h'.key x = h.key x) ∧
      (∀ x, h'.next x =
        if x = temp then some dummy
        else if x = head then some temp else h.next x) ∧
      ∀ x, h'.prev x =
        if x = dummy then some temp
        else if x = temp then some head else h.prev x := by
  have hHead := isSome_key_of_next hNext
  rcases exists_setNext hHead temp with
    ⟨h₁, hStore₁, hKey₁, hPrev₁, hNext₁⟩
  rcases exists_setPrev (hKey₁ temp ▸ hTemp) head with
    ⟨h₂, hStore₂, hKey₂, hNext₂, hPrev₂⟩
  have hTemp₂ : (h₂.key temp).isSome := by
    rw [hKey₂, hKey₁]
    exact hTemp
  rcases exists_setNext hTemp₂ dummy with
    ⟨h₃, hStore₃, hKey₃, hPrev₃, hNext₃⟩
  have hDummy₃ : (h₃.key dummy).isSome := by
    rw [hKey₃, hKey₂, hKey₁]
    exact hDummy
  rcases exists_setPrev hDummy₃ temp with
    ⟨h₄, hStore₄, hKey₄, hNext₄, hPrev₄⟩
  refine ⟨h₄, ?_, ?_, ?_, ?_⟩
  · rw [addFirst, hNext]
    simp only [Option.bind_eq_bind, Option.bind_some, hStore₁,
      hStore₂, hStore₃, hStore₄]
  · intro x
    rw [hKey₄, hKey₃, hKey₂, hKey₁]
  · intro x
    rw [hNext₄, hNext₃, hNext₂, hNext₁]
  · intro x
    rw [hPrev₄, hPrev₃, hPrev₂, hPrev₁]

/- What taking a node out does. -/
theorem exists_unlink
    {delnext delprev : Nat}
    (hNext : h.next temp = some delnext)
    (hPrev : h.prev temp = some delprev)
    (hLiveNext : (h.key delnext).isSome)
    (hLivePrev : (h.key delprev).isSome) :
    ∃ h', h.unlink temp = some h' ∧
      (∀ x, h'.key x =
        if x = temp then none else h.key x) ∧
      (∀ x, h'.next x =
        if x = temp then none
        else if x = delprev then some delnext
        else h.next x) ∧
      ∀ x, h'.prev x =
        if x = temp then none
        else if x = delnext then some delprev
        else h.prev x := by
  rcases exists_setPrev hLiveNext delprev with
    ⟨h₁, hStore₁, hKey₁, hNext₁, hPrev₁⟩
  rcases exists_setNext (hKey₁ delprev ▸ hLivePrev) delnext with
    ⟨h₂, hStore₂, hKey₂, hPrev₂, hNext₂⟩
  refine ⟨h₂.free temp, ?_, ?_, ?_, ?_⟩
  · rw [unlink, hNext, hPrev]
    simp only [Option.bind_eq_bind, Option.bind_some, hStore₁,
      hStore₂]
  · intro x
    rw [free, key_store, hKey₂, hKey₁]
    rfl
  · intro x
    rw [free, next_store, hNext₂, hNext₁]
    rfl
  · intro x
    rw [free, prev_store, hPrev₂, hPrev₁]
    rfl

/- A node with a pointer that is not set cannot go. -/
theorem unlink_of_prev_none
    (hPrev : h.prev temp = none) :
    h.unlink temp = none := by
  rw [unlink, hPrev]
  cases h.next temp with
  | none => rfl
  | some q => rfl

----------
-- Lists
----------

/- Nodes that point to each other, from the first on. -/
def Linked (h : Heap α) : Nat → List Nat → Prop
| _, [] => True
| p, q :: qs =>
    h.next p = some q ∧ h.prev q = some p ∧ Linked h q qs

variable {head tail : Nat} {ps : List Nat}

theorem linked_append
    (xs ys : List Nat) :
    h.Linked p (xs ++ q :: ys) ↔
      h.Linked p (xs ++ [q]) ∧ h.Linked q ys := by
  induction xs generalizing p with
  | nil => simp [Linked, and_assoc]
  | cons x xs ih => simp [Linked, ih, and_assoc]

/- The pointers inside of a segment decide. -/
theorem Linked.congr
    (hLinked : h.Linked p ps)
    (hNext : ∀ x ∈ (p :: ps).dropLast, h'.next x = h.next x)
    (hPrev : ∀ x ∈ ps, h'.prev x = h.prev x) :
    h'.Linked p ps := by
  induction ps generalizing p with
  | nil => trivial
  | cons q qs ih =>
      rcases hLinked with ⟨hpq, hqp, hRest⟩
      rw [List.dropLast_cons_of_ne_nil (by simp)] at hNext
      refine ⟨?_, ?_, ?_⟩
      · rw [hNext p List.mem_cons_self, hpq]
      · rw [hPrev q List.mem_cons_self, hqp]
      · apply ih hRest
        · intro x hx
          exact hNext x (List.mem_cons_of_mem _ hx)
        · intro x hx
          exact hPrev x (List.mem_cons_of_mem _ hx)

theorem Linked.isSome_key
    (hLinked : h.Linked p ps) :
    ∀ x ∈ ps, (h.key x).isSome := by
  induction ps generalizing p with
  | nil => simp
  | cons q qs ih =>
      rcases hLinked with ⟨_, hqp, hRest⟩
      rw [List.forall_mem_cons]
      exact ⟨isSome_key_of_prev hqp, ih hRest⟩

/-
  The nodes between two sentinels. Nothing points back from
  the first sentinel.
-/
structure IsList
    (head tail : Nat)
    (ps : List Nat)
    (h : Heap α) : Prop where
  linked : h.Linked head (ps ++ [tail])
  nodup : (head :: (ps ++ [tail])).Nodup
  prev_head : h.prev head = none

namespace IsList

theorem isSome_head
    (hList : IsList head tail ps h) :
    (h.key head).isSome := by
  cases ps with
  | nil | cons p ps =>
      exact isSome_key_of_next hList.linked.1

theorem isSome_tail
    (hList : IsList head tail ps h) :
    (h.key tail).isSome :=
  hList.linked.isSome_key tail
    (List.mem_append_right _ List.mem_cons_self)

/- The node before the last sentinel. -/
theorem prev_tail_nil
    (hList : IsList head tail [] h) :
    h.prev tail = some head :=
  hList.linked.2.1

theorem prev_tail
    {p : Nat}
    (hList : IsList head tail (ps ++ [p]) h) :
    h.prev tail = some p := by
  have hLinked := hList.linked
  rw [List.append_assoc, List.singleton_append,
    linked_append] at hLinked
  exact hLinked.2.2.1

/- The node behind the first sentinel. -/
theorem next_head
    (hList : IsList head tail ps h) :
    ∃ q qs, ps ++ [tail] = q :: qs ∧
      h.next head = some q := by
  cases ps with
  | nil => exact ⟨tail, [], rfl, hList.linked.1⟩
  | cons p ps => exact ⟨p, ps ++ [tail], rfl, hList.linked.1⟩

variable {temp : Nat}

/- A node elsewhere changes nothing. -/
theorem alloc
    (hList : IsList head tail ps h)
    (hNew : temp ∉ head :: (ps ++ [tail]))
    (a : α) :
    IsList head tail ps (h.alloc temp a) := by
  have hOther : ∀ x ∈ head :: (ps ++ [tail]), x ≠ temp := by
    intro x hx hSame
    exact hNew (hSame ▸ hx)
  refine ⟨?_, hList.nodup, ?_⟩
  · apply hList.linked.congr
    · intro x hx
      have hIn := List.dropLast_subset _ hx
      rw [Heap.alloc, next_store, if_neg (hOther x hIn)]
    · intro x hx
      have hIn := List.mem_cons_of_mem head hx
      rw [Heap.alloc, prev_store, if_neg (hOther x hIn)]
  · rw [Heap.alloc, prev_store,
      if_neg (hOther head List.mem_cons_self)]
    exact hList.prev_head

/- A new node is the first one. -/
theorem addFirst
    (hList : IsList head tail ps h)
    (hTemp : (h.key temp).isSome)
    (hNew : temp ∉ head :: (ps ++ [tail])) :
    ∃ h', h.addFirst head temp = some h' ∧
      IsList head tail (temp :: ps) h' ∧
      ∀ x, h'.key x = h.key x := by
  rcases hList.next_head with ⟨q, qs, hEq, hNext⟩
  have hLinked := hList.linked
  have hNodup := hList.nodup
  have hLive := hList.linked.isSome_key
  rw [hEq] at hLinked hNodup hNew hLive
  rw [List.nodup_cons, List.nodup_cons] at hNodup
  simp only [List.mem_cons, not_or] at hNodup hNew
  rcases exists_addFirst hNext hTemp
      (hLive q List.mem_cons_self) with
    ⟨h', hStore, hKey', hNext', hPrev'⟩
  refine ⟨h', hStore, ?_, hKey'⟩
  constructor
  · rw [List.cons_append, hEq]
    refine ⟨?_, ?_, ?_, ?_, ?_⟩
    · rw [hNext', if_neg (Ne.symm hNew.1), if_pos rfl]
    · rw [hPrev', if_neg hNew.2.1, if_pos rfl]
    · rw [hNext', if_pos rfl]
    · rw [hPrev', if_pos rfl]
    · apply hLinked.2.2.congr
      · intro x hx
        have hIn := List.dropLast_subset _ hx
        have hNeTemp : x ≠ temp := by
          intro hSame
          rw [hSame, List.mem_cons] at hIn
          exact hIn.elim hNew.2.1 hNew.2.2
        have hNeHead : x ≠ head := by
          intro hSame
          rw [hSame, List.mem_cons] at hIn
          exact hIn.elim hNodup.1.1 hNodup.1.2
        rw [hNext', if_neg hNeTemp, if_neg hNeHead]
      · intro x hx
        have hNeDummy : x ≠ q := by
          intro hSame
          exact hNodup.2.1 (hSame ▸ hx)
        have hNeTemp : x ≠ temp := by
          intro hSame
          exact hNew.2.2 (hSame ▸ hx)
        rw [hPrev', if_neg hNeDummy, if_neg hNeTemp]
  · rw [List.cons_append, hEq]
    simp only [List.nodup_cons, List.mem_cons, not_or]
    exact ⟨⟨Ne.symm hNew.1, hNodup.1⟩, hNew.2, hNodup.2⟩
  · rw [hPrev', if_neg hNodup.1.1, if_neg (Ne.symm hNew.1)]
    exact hList.prev_head

end IsList

/- The node before another one. -/
theorem Linked.exists_prev
    {p q : Nat}
    {xs ys : List Nat}
    (hLinked : h.Linked p (xs ++ q :: ys)) :
    ∃ l ∈ p :: xs, h.prev q = some l ∧ h.next l = some q := by
  induction xs generalizing p with
  | nil => exact ⟨p, List.mem_cons_self, hLinked.2.1, hLinked.1⟩
  | cons x xs ih =>
      rcases ih hLinked.2.2 with ⟨l, hl, hPrev, hNext⟩
      exact ⟨l, List.mem_cons_of_mem _ hl, hPrev, hNext⟩

/- The nodes around a node that is taken out are linked. -/
theorem Linked.unlink
    {p q r l : Nat}
    {xs ys : List Nat}
    (hLinked : h.Linked p (xs ++ q :: r :: ys))
    (hNodup : (p :: (xs ++ q :: r :: ys)).Nodup)
    (hl : h.prev q = some l)
    (hNext :
      ∀ x, h'.next x =
        if x = q then none
        else if x = l then some r else h.next x)
    (hPrev :
      ∀ x, h'.prev x =
        if x = q then none
        else if x = r then some l else h.prev x) :
    h'.Linked p (xs ++ r :: ys) := by
  induction xs generalizing p with
  | nil =>
      rcases hLinked with ⟨_, hqp, _, _, hRest⟩
      rw [hqp] at hl
      have hSame : p = l := Option.some.inj hl
      subst hSame
      simp only [List.nil_append, List.nodup_cons,
        List.mem_cons, not_or] at hNodup
      rcases hNodup with
        ⟨⟨hpq, hpr, hpys⟩, ⟨hqr, hqys⟩, hrys, _⟩
      refine ⟨?_, ?_, ?_⟩
      · rw [hNext, if_neg hpq, if_pos rfl]
      · rw [hPrev, if_neg (Ne.symm hqr), if_pos rfl]
      · apply hRest.congr
        · intro x hx
          have hIn := List.dropLast_subset _ hx
          have hxq : x ≠ q := by
            intro hSame
            rw [hSame, List.mem_cons] at hIn
            exact hIn.elim hqr hqys
          have hxp : x ≠ p := by
            intro hSame
            rw [hSame, List.mem_cons] at hIn
            exact hIn.elim hpr hpys
          rw [hNext, if_neg hxq, if_neg hxp]
        · intro x hx
          have hxq : x ≠ q := fun hSame => hqys (hSame ▸ hx)
          have hxr : x ≠ r := fun hSame => hrys (hSame ▸ hx)
          rw [hPrev, if_neg hxq, if_neg hxr]
  | cons x xs ih =>
      rcases hLinked with ⟨hpx, hxp, hRest⟩
      rcases hRest.exists_prev with ⟨l', hMem, hl', _⟩
      rw [hl] at hl'
      cases hl'
      rw [List.cons_append, List.nodup_cons] at hNodup
      have hpl : p ≠ l := by
        intro hSame
        apply hNodup.1
        rw [hSame, ← List.cons_append]
        exact List.mem_append_left _ hMem
      have hpq : p ≠ q := by
        intro hSame
        apply hNodup.1
        rw [hSame]
        simp
      have hx := (List.nodup_cons.mp hNodup.2).1
      have hxq : x ≠ q := by
        intro hSame
        apply hx
        rw [hSame]
        simp
      have hxr : x ≠ r := by
        intro hSame
        apply hx
        rw [hSame]
        simp
      refine ⟨?_, ?_, ih hRest hNodup.2⟩
      · rw [hNext, if_neg hpq, if_neg hpl, hpx]
      · rw [hPrev, if_neg hxq, if_neg hxr, hxp]

namespace IsList

/- A node between the sentinels is taken out. -/
theorem unlink
    {p : Nat}
    {xs ys : List Nat}
    (hList : IsList head tail (xs ++ p :: ys) h) :
    ∃ h', h.unlink p = some h' ∧
      IsList head tail (xs ++ ys) h' ∧
      ∀ x, h'.key x = if x = p then none else h.key x := by
  have hLinked := hList.linked
  have hNodup := hList.nodup
  rw [List.append_assoc, List.cons_append] at hLinked hNodup
  rcases List.exists_cons_of_ne_nil
      (show ys ++ [tail] ≠ [] by simp) with
    ⟨r, rest, hEq⟩
  rw [hEq] at hLinked hNodup
  rcases hLinked.exists_prev with ⟨l, hMem, hPrev, hNextL⟩
  have hNextP := ((linked_append _ _).mp hLinked).2.1
  have hLiveR :=
    isSome_key_of_prev ((linked_append _ _).mp hLinked).2.2.1
  rcases exists_unlink hNextP hPrev hLiveR
      (isSome_key_of_next hNextL) with
    ⟨h', hStore, hKey', hNext', hPrev'⟩
  refine ⟨h', hStore, ?_, hKey'⟩
  constructor
  · rw [List.append_assoc, hEq]
    exact hLinked.unlink hNodup hPrev hNext' hPrev'
  · rw [List.append_assoc, hEq]
    refine List.Nodup.sublist ?_ hNodup
    apply List.Sublist.cons_cons
    apply List.Sublist.append_left
    exact List.sublist_cons_self _ _
  · have hHead := (List.nodup_cons.mp hNodup).1
    have hNeP : head ≠ p := by
      intro hSame
      apply hHead
      rw [hSame]
      simp
    have hNeR : head ≠ r := by
      intro hSame
      apply hHead
      rw [hSame]
      simp
    rw [hPrev', if_neg hNeP, if_neg hNeR]
    exact hList.prev_head

/- The first sentinel cannot be taken out. -/
theorem unlink_head
    (hList : IsList head tail ps h) :
    h.unlink head = none :=
  unlink_of_prev_none hList.prev_head

end IsList

/- The addresses from a node on, up to the last sentinel. -/
def walk (h : Heap α) (tail : Nat) : Nat → Nat → List Nat
| 0, _ => []
| n + 1, p =>
    match h.next p with
    | none => []
    | some q => if q = tail then [] else q :: walk h tail n q

theorem Linked.walk_eq
    {p n : Nat}
    (hLinked : h.Linked p (ps ++ [tail]))
    (hTail : tail ∉ ps)
    (hn : ps.length < n) :
    h.walk tail n p = ps := by
  induction ps generalizing p n with
  | nil =>
      cases n with
      | zero => cases hn
      | succ n => rw [walk, hLinked.1]; simp
  | cons q qs ih =>
      rw [List.mem_cons, not_or] at hTail
      cases n with
      | zero => cases hn
      | succ n =>
          rw [walk, hLinked.1]
          simp only [if_neg (Ne.symm hTail.1)]
          rw [ih hLinked.2.2 hTail.2 (Nat.lt_of_succ_lt_succ hn)]

theorem IsList.walk_eq
    {n : Nat}
    (hList : IsList head tail ps h)
    (hn : ps.length < n) :
    h.walk tail n head = ps := by
  apply hList.linked.walk_eq _ hn
  intro hTail
  have hNodup := (List.nodup_cons.mp hList.nodup).2
  exact List.disjoint_of_nodup_append hNodup hTail
    List.mem_cons_self

end Heap

end Slfs
