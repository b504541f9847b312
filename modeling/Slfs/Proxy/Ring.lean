import Mathlib.Data.List.Lex
import Slfs.Lib.OrderedMap
import Slfs.Lib.Ring
import Slfs.Ssbd.Packet

/-
  The ring of proxies.

  A proxy owns the keys between the id before its own and its
  own id. A proxy looks for owners in a sorted vector when the
  ring has changed, and a client in its map of connections.

  Main declarations:
    * `Proxy.reconfigure`
    * `Proxy.reconfigure_spec`
    * `Client.ring_ownership`
-/

----------
-- The Vector Of A Proxy
----------

namespace Slfs

namespace Proxy

/- The id of a proxy, `uuid` in the source. -/
structure ProxyId where
  key : Uuid
deriving DecidableEq, Repr

namespace ProxyId

/- The bytes of an id. -/
def bytes (id : ProxyId) : List Nat :=
  id.key.toList.map UInt8.toNat

theorem bytes_injective :
    Function.Injective bytes := by
  rintro ⟨k⟩ ⟨l⟩ h
  have hInjective : Function.Injective UInt8.toNat :=
    fun _ _ => UInt8.toNat_inj.mp
  have hList := List.map_injective_iff.mpr hInjective h
  have hKey : k = l := Vector.toList_inj.mp hList
  rw [hKey]

/- Ids are compared byte by byte. -/
instance linearOrder : LinearOrder ProxyId :=
  LinearOrder.lift' bytes bytes_injective

end ProxyId

/- The children of a node, sorted by `start_reconfigure`. -/
def sortIds (children : List ProxyId) : List ProxyId :=
  children.mergeSort (fun a b => decide (a ≤ b))

/- The place of the owner, the first one behind the end. -/
def ownerIndex (list : List ProxyId) (key : Uuid) : Nat :=
  let i := Ring.upperBound list ⟨key⟩
  if i = list.length then 0 else i

section

variable {ω ε : Type}
-- the endpoint of a proxy, or an exception
variable (lookup : ProxyId → Option ε)

/-
  The messages to workers whose files have another owner. Of
  the files of one owner only the first one is notified. An
  exception ends the loop before its end.
-/
def reconfigureFrom (id : ProxyId) (list : List ProxyId) :
    List Bool → List (Uuid × ω) →
      Option (List ((Uuid × ω) × ε) × Bool)
| _, [] => some ([], true)
| notified, file :: files => do
    let i := ownerIndex list file.1
    let owner ← list[i]?
    if owner ≠ id ∧ notified[i]? = some false then
      match lookup owner with
      | none => some ([], false)
      | some endpoint => do
          let (rest, ended) ←
            reconfigureFrom id list (notified.set i true) files
          some ((file, endpoint) :: rest, ended)
    else
      reconfigureFrom id list notified files

def reconfigure
    (id : ProxyId)
    (list : List ProxyId)
    (files : List (Uuid × ω)) :
    Option (List ((Uuid × ω) × ε) × Bool) :=
  reconfigureFrom lookup id list
    (List.replicate list.length false) files

end

/- The owner that a proxy finds. -/
def owner (children : List ProxyId) (key : Uuid) :
    Option ProxyId :=
  (sortIds children)[ownerIndex (sortIds children) key]?

theorem sorted_sortIds
    (children : List ProxyId) :
    (sortIds children).Pairwise (· ≤ ·) := by
  have hSorted :=
    @List.pairwise_mergeSort ProxyId
      (fun a b => decide (a ≤ b))
      (by simpa using fun a b c => le_trans)
      (by simpa using le_total) children
  exact hSorted.imp of_decide_eq_true

variable {children list : List ProxyId} {id : ProxyId}

theorem mem_sortIds :
    id ∈ sortIds children ↔ id ∈ children :=
  List.mem_mergeSort

/- The vector is searched like any sorted list. -/
theorem getElem?_ownerIndex
    (hSorted : list.Pairwise (· ≤ ·))
    (key : Uuid) :
    list[ownerIndex list key]? =
      (Ring.above list ⟨key⟩).or list.head? := by
  rw [← Ring.getElem?_upperBound hSorted]
  unfold ownerIndex
  simp only []
  split
  · next hEnd =>
      rw [hEnd, List.getElem?_eq_none (Nat.le_refl _),
        Option.none_or, List.head?_eq_getElem?]
  · next hNot =>
      have hLt : Ring.upperBound list ⟨key⟩ < list.length :=
        Nat.lt_of_le_of_ne (Ring.upperBound_le list ⟨key⟩) hNot
      rw [List.getElem?_eq_getElem hLt, Option.some_or]

/- A proxy finds the owner. -/
theorem owner_eq_some_iff
    (children : List ProxyId)
    (key : Uuid)
    (o : ProxyId) :
    owner children key = some o ↔
      Ring.Owns {id | id ∈ children} ⟨key⟩ o := by
  have hSorted := sorted_sortIds children
  have hSame :
      {id | id ∈ sortIds children} = {id | id ∈ children} :=
    Set.ext (fun _ => mem_sortIds)
  unfold owner
  rw [getElem?_ownerIndex hSorted,
    Ring.above_or_head_iff hSorted, hSame]

/-
  What the loop has told. Owners are found by `own`, and
  those that are `new` have not been told of before it.
-/
structure Told
    {ω ε : Type}
    (lookup : ProxyId → Option ε)
    (id : ProxyId)
    (own : Uuid → Option ProxyId)
    (new : Uuid → Prop)
    (files : List (Uuid × ω))
    (messages : List ((Uuid × ω) × ε))
    (ended : Bool) :
    Prop where
  once : (messages.map (fun m => own m.1.1)).Nodup
  sent :
    ∀ m ∈ messages,
      m.1 ∈ files ∧ new m.1.1 ∧
        ∃ o, own m.1.1 = some o ∧ o ≠ id ∧ lookup o = some m.2
  ends :
    ended = true ↔
      ∀ file ∈ files, ∀ o, own file.1 = some o → o ≠ id →
        new file.1 → (lookup o).isSome
  all :
    ended = true → ∀ file ∈ files, ∀ o,
      own file.1 = some o → o ≠ id → new file.1 →
        some o ∈ messages.map (fun m => own m.1.1)

/- The loop tells of each new owner once. -/
theorem reconfigureFrom_spec
    {ω ε : Type}
    (lookup : ProxyId → Option ε)
    (id : ProxyId)
    (hNodup : list.Nodup)
    (hOwned : ∀ key, ∃ o, list[ownerIndex list key]? = some o)
    (notified : List Bool)
    (files : List (Uuid × ω)) :
    ∃ messages ended,
      reconfigureFrom lookup id list notified files =
          some (messages, ended) ∧
        Told lookup id (fun key => list[ownerIndex list key]?)
          (fun key =>
            notified[ownerIndex list key]? = some false)
          files messages ended := by
  induction files generalizing notified with
  | nil => exact ⟨[], true, rfl, by constructor <;> simp⟩
  | cons file files ih =>
      rcases hOwned file.1 with ⟨o, hOwner⟩
      unfold reconfigureFrom
      simp only [hOwner, Option.bind_eq_bind, Option.bind_some]
      split
      · next hSend =>
          cases hLookup : lookup o with
          | none =>
              refine ⟨[], false, rfl, by simp, by simp, ?_,
                by simp⟩
              simp only [Bool.false_eq_true, false_iff]
              intro hAll
              have hSome :=
                hAll file List.mem_cons_self o hOwner hSend.1
                  hSend.2
              rw [hLookup] at hSome
              cases hSome
          | some endpoint =>
              rcases ih
                  (notified.set (ownerIndex list file.1) true)
                with ⟨rest, ended, hRest, hTold⟩
              have hSet : ∀ j,
                  (notified.set (ownerIndex list file.1)
                      true)[j]? = some false ↔
                    j ≠ ownerIndex list file.1 ∧
                      notified[j]? = some false := by
                intro j
                rw [List.getElem?_set]
                grind
              -- an owner has one place in the list
              have hPlace : ∀ key,
                  list[ownerIndex list key]? = some o ↔
                    ownerIndex list key =
                      ownerIndex list file.1 := by
                intro key
                rcases hOwned key with ⟨o', ho'⟩
                rw [← hOwner]
                exact List.getElem?_inj
                  (List.getElem?_eq_some_iff.mp ho').1 hNodup
              rcases hTold with ⟨hOnce, hSent, hEnds, hAll⟩
              refine ⟨_, ended, by rw [hRest]; rfl, ?_, ?_, ?_,
                ?_⟩
              · rw [List.map_cons, List.nodup_cons]
                refine ⟨fun hMem => ?_, hOnce⟩
                rcases List.mem_map.mp hMem with ⟨m, hm, hSame⟩
                rw [hOwner] at hSame
                exact ((hSet _).mp (hSent m hm).2.1).1
                  ((hPlace _).mp hSame)
              all_goals grind
      · next hSkip =>
          rcases ih notified with
            ⟨rest, ended, hRest, hOnce, hSent, hEnds, hAll⟩
          refine ⟨rest, ended, hRest, hOnce, ?_, ?_, ?_⟩ <;>
            grind

/-
  When the ring has changed, each proxy that owns one of the
  files now, other than the proxy itself, is told of by one
  message, through a worker that has a file of that owner,
  if all of them can be looked up.
-/
theorem reconfigure_spec
    {ω ε : Type}
    (lookup : ProxyId → Option ε)
    (id : ProxyId)
    (hNodup : children.Nodup)
    (hSome : children ≠ [])
    (files : List (Uuid × ω)) :
    ∃ messages ended,
      reconfigure lookup id (sortIds children) files =
          some (messages, ended) ∧
        Told lookup id (owner children) (fun _ => True) files
          messages ended := by
  have hPerm := List.mergeSort_perm children
    (fun a b => decide (a ≤ b))
  have hOwned : ∀ key, ∃ o, owner children key = some o := by
    intro key
    refine Option.ne_none_iff_exists'.mp (fun hNone => hSome ?_)
    unfold owner at hNone
    rw [getElem?_ownerIndex (sorted_sortIds children)] at hNone
    have hNil := Ring.above_or_head_eq_none hNone
    exact (hPerm.symm.trans (.of_eq hNil)).eq_nil
  rcases reconfigureFrom_spec lookup id
    (hPerm.nodup_iff.mpr hNodup) hOwned
    (List.replicate _ false) files with
    ⟨messages, ended, hRun, hOnce, hSent, hEnds, hAll⟩
  -- nobody has been told of before the loop
  have hNew : ∀ {key o}, owner children key = some o →
      (List.replicate (sortIds children).length false)[
        ownerIndex (sortIds children) key]? = some false :=
    fun ho => List.getElem?_replicate_of_lt
      (List.getElem?_eq_some_iff.mp ho).1
  refine ⟨messages, ended, hRun, hOnce, ?_, hEnds.trans ?_, ?_⟩
  · intro m hm
    rcases hSent m hm with ⟨hFile, _, hOwner⟩
    exact ⟨hFile, trivial, hOwner⟩
  · exact ⟨fun h file hFile o ho hOther _ =>
      h file hFile o ho hOther (hNew ho),
      fun h file hFile o ho hOther _ =>
        h file hFile o ho hOther trivial⟩
  · intro hEnded file hFile o ho hOther _
    exact hAll hEnded file hFile o ho hOther (hNew ho)

end Proxy

----------
-- The Map Of A Client
----------

namespace Client

open Proxy (ProxyId)

variable {σ : Type}

/- The connections of a client, by the ids of the proxies. -/
abbrev ProxyMap (σ : Type) := OrderedMap ProxyId σ

/- `upper_bound` on the map, the first entry behind the end. -/
def selectProxy (m : ProxyMap σ) (key : Uuid) :
    Option (ProxyId × σ) :=
  (m.entries.find? (fun e => decide (⟨key⟩ < e.1))).or
    m.entries.head?

/- A map with a connection to each of the proxies. -/
def connectAll
    (connect : ProxyId → σ)
    (ids : List ProxyId) :
    ProxyMap σ :=
  ids.foldl (fun m id => m.emplace id (connect id))
    OrderedMap.empty

theorem mem_keys_foldl_emplace
    (connect : ProxyId → σ)
    (ids : List ProxyId)
    (m : ProxyMap σ)
    (id : ProxyId) :
    id ∈ (ids.foldl
        (fun m id => m.emplace id (connect id)) m).keys ↔
      id ∈ ids ∨ id ∈ m.keys := by
  induction ids generalizing m with
  | nil => simp
  | cons first rest ih =>
      rw [List.foldl_cons, ih, OrderedMap.mem_keys_emplace,
        List.mem_cons]
      tauto

theorem mem_keys_connectAll
    (connect : ProxyId → σ)
    {ids : List ProxyId}
    {id : ProxyId} :
    id ∈ (connectAll connect ids).keys ↔ id ∈ ids := by
  unfold connectAll
  rw [mem_keys_foldl_emplace]
  simp

/- A client looks for the key among the ids. -/
theorem map_fst_selectProxy
    (m : ProxyMap σ)
    (key : Uuid) :
    (selectProxy m key).map Prod.fst =
      (Ring.above m.keys ⟨key⟩).or m.keys.head? := by
  unfold selectProxy Ring.above OrderedMap.keys
  rw [List.find?_map, List.head?_map, Option.map_or]
  rfl

theorem selectProxy_eq_some_iff
    (m : ProxyMap σ)
    (key : Uuid)
    (o : ProxyId) :
    (selectProxy m key).map Prod.fst = some o ↔
      Ring.Owns {id | id ∈ m.keys} ⟨key⟩ o := by
  have hSorted : m.keys.Pairwise (· ≤ ·) :=
    m.sorted.imp le_of_lt
  rw [map_fst_selectProxy, Ring.above_or_head_iff hSorted]

/- The owner that a client finds among some proxies. -/
def owner (children : List ProxyId) (key : Uuid) :
    Option ProxyId :=
  (selectProxy (connectAll (fun _ => ()) children) key).map
    Prod.fst

section

variable (children : List ProxyId) (key : Uuid)

theorem owner_eq_some_iff
    (o : ProxyId) :
    owner children key = some o ↔
      Ring.Owns {id | id ∈ children} ⟨key⟩ o := by
  have hSame :
      {id | id ∈ (connectAll (fun _ => ()) children).keys} =
        {id | id ∈ children} :=
    Set.ext (fun _ => mem_keys_connectAll _)
  unfold owner
  rw [selectProxy_eq_some_iff, hSame]

/- There is an owner as soon as there is a proxy. -/
theorem owner_eq_none_iff :
    owner children key = none ↔ children = [] := by
  constructor
  · intro hNone
    unfold owner at hNone
    rw [map_fst_selectProxy] at hNone
    have hKeys := Ring.above_or_head_eq_none hNone
    rw [List.eq_nil_iff_forall_not_mem]
    intro id hMem
    have hKey := (mem_keys_connectAll (fun _ => ())).mpr hMem
    rw [hKeys] at hKey
    exact List.not_mem_nil hKey
  · rintro rfl
    rfl

/-
  The owners before and after a change. A key that has an
  owner on one side only was without proxies on the other.
-/
theorem owner_cons
    (q : ProxyId) :
    owner (q :: children) key = owner children key ∨
      owner (q :: children) key = some q := by
  have hSet :
      {id | id ∈ q :: children} =
        insert q {id | id ∈ children} :=
    Set.ext (fun _ => List.mem_cons)
  cases hNew : owner (q :: children) key with
  | none =>
      rw [owner_eq_none_iff] at hNew
      cases hNew
  | some o' =>
      have hOwns' := (owner_eq_some_iff _ _ _).mp hNew
      cases hOld : owner children key with
      | none =>
          rw [owner_eq_none_iff] at hOld
          subst hOld
          have hMem := hOwns'.mem
          rw [List.mem_singleton.mp hMem]
          exact Or.inr rfl
      | some o =>
          have hOwns := (owner_eq_some_iff _ _ _).mp hOld
          rw [hSet] at hOwns'
          rcases hOwns.insert hOwns' with rfl | rfl
          · exact Or.inl rfl
          · exact Or.inr rfl

theorem owner_filter
    (q : ProxyId) :
    owner (children.filter (fun id => id ≠ q)) key =
        owner children key ∨
      owner children key = some q := by
  have hSet :
      {id | id ∈ children.filter (fun id => id ≠ q)} =
        {id | id ∈ children} \ {q} := by
    ext id
    simp
  cases hOld : owner children key with
  | none =>
      rw [owner_eq_none_iff] at hOld
      subst hOld
      exact Or.inl rfl
  | some o =>
      have hOwns := (owner_eq_some_iff _ _ _).mp hOld
      cases hNew :
          owner (children.filter (fun id => id ≠ q)) key with
      | none =>
          -- all proxies were the one that is gone
          rw [owner_eq_none_iff, List.filter_eq_nil_iff] at hNew
          have hLast := hNew o hOwns.mem
          have hSame : o = q := by simpa using hLast
          exact Or.inr (congrArg some hSame)
      | some o' =>
          have hOwns' := (owner_eq_some_iff _ _ _).mp hNew
          rw [hSet] at hOwns'
          rcases hOwns.erase hOwns' with rfl | rfl
          · exact Or.inl rfl
          · exact Or.inr rfl

end

/-
  Client and proxy find the same owner of every key: the
  least id above the key, or the least id. A new proxy takes
  keys for itself only, and a proxy that goes gives away its
  own keys only.
-/
theorem ring_ownership
    (children : List ProxyId)
    (key : Uuid) :
    owner children key = Proxy.owner children key ∧
      (owner children key = none ↔ children = []) ∧
      (∀ o, owner children key = some o ↔
        IsLeast {id | id ∈ children ∧ ⟨key⟩ < id} o ∨
          (∀ id ∈ children, ¬ ⟨key⟩ < id) ∧
            IsLeast {id | id ∈ children} o) ∧
      ∀ q,
        (owner (q :: children) key = owner children key ∨
          owner (q :: children) key = some q) ∧
        (owner (children.filter (fun id => id ≠ q)) key =
            owner children key ∨
          owner children key = some q) := by
  refine ⟨?_, owner_eq_none_iff children key,
    owner_eq_some_iff children key, ?_⟩
  · apply Option.ext
    intro o
    rw [owner_eq_some_iff, Proxy.owner_eq_some_iff]
  · intro q
    exact ⟨owner_cons children key q,
      owner_filter children key q⟩

end Client

end Slfs
