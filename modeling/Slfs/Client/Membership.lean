import Mathlib.Data.List.Perm.Subperm
import Slfs.Lib.Transition
import Slfs.Proxy.Ring

/-
  The proxies that a client knows.

  Proxies announce a host, a port and whether they are alive
  under a node of ZooKeeper. A client reads an announcement
  once, and takes a child from its cache for a dead one.

  Main declarations:
    * `Client.View.Follows`
    * `Client.View.follows_iff_not_seen`
-/

----------
-- Announcements
----------

namespace Slfs

open Transition

namespace Client

open Decimal (stoi)
open Mark (colon)
open Proxy (ProxyId)

/- Host, port and number of an announcement. -/
def parseAnnounce (buf : Bytes) :
    Option (Bytes × Bytes × Int) :=
  match buf.dropWhile (fun b => b != colon) with
  | [] => none
  | _ :: rest =>
      match rest.dropWhile (fun b => b != colon) with
      | [] => none
      | _ :: text =>
          (stoi text).map
            (fun liveliness =>
              (buf.takeWhile (fun b => b != colon),
                rest.takeWhile (fun b => b != colon),
                liveliness))

/- A text of the form `host:port:liveliness`. -/
structure Announce where
  buf : Bytes
  host : Bytes
  port : Bytes
  liveliness : Int
  parsed : parseAnnounce buf = some (host, port, liveliness)

/- The children of the node with their announcements. -/
structure Children where
  list : List (ProxyId × Announce)
  nodup : (list.map Prod.fst).Nodup

namespace Children

def ids (z : Children) : List ProxyId :=
  z.list.map Prod.fst

/- Nothing has been announced. -/
def empty : Children :=
  { list := [], nodup := List.nodup_nil }

end Children

----------
-- The Client
----------

/- A connection to an endpoint. -/
structure Socket (ε : Type) where
  endpoint : ε
  isOpen : Bool

/- The endpoints that a client has resolved. -/
abbrev UuidCache (ε : Type) := ProxyId → Option ε

structure Membership (ε : Type) where
  uuidCache : UuidCache ε
  proxys : ProxyMap (Socket ε)

namespace Membership

variable {ε : Type} (resolve : Bytes → Bytes → ε)

def start : Membership ε :=
  { uuidCache := fun _ => none, proxys := OrderedMap.empty }

/-
  The number of a child, which is 0 for a child that is in
  the cache.
-/
def getDetails (cache : UuidCache ε) (child : ProxyId × Announce) :
    Option (Int × UuidCache ε) :=
  match cache child.1 with
  | some _ => some (0, cache)
  | none =>
      (parseAnnounce child.2.buf).map
        (fun details =>
          (details.2.2,
            Function.update cache child.1
              (some (resolve details.1 details.2.1))))

/- The loop that keeps the children with the number 1. -/
def newList : UuidCache ε → List (ProxyId × Announce) →
    Option (List ProxyId × UuidCache ε)
| cache, [] => some ([], cache)
| cache, child :: rest => do
    let (liveliness, cache) ← getDetails resolve cache child
    let (ids, cache) ← newList cache rest
    some (if liveliness = 1 then child.1 :: ids else ids, cache)

def getUuid
    (children : List (ProxyId × Announce))
    (cache : UuidCache ε)
    (id : ProxyId) :
    Option (ε × UuidCache ε) :=
  match cache id with
  | some endpoint => some (endpoint, cache)
  | none => do
      let announce ← children.lookup id
      let details ← parseAnnounce announce.buf
      let endpoint := resolve details.1 details.2.1
      some (endpoint, Function.update cache id (some endpoint))

/- Nothing is done for as many proxies that are all known. -/
def unchanged (proxys : ProxyMap (Socket ε))
    (list : List ProxyId) : Bool :=
  decide (list.length = proxys.size) &&
    list.all (fun id => (proxys.find id).isSome)

/- A connection that is open is kept. -/
def connect
    (children : List (ProxyId × Announce))
    (proxys : ProxyMap (Socket ε))
    (cache : UuidCache ε)
    (id : ProxyId) :
    Option (Socket ε × UuidCache ε) :=
  match (proxys.find id).filter Socket.isOpen with
  | some socket => some (socket, cache)
  | none =>
      (getUuid resolve children cache id).map
        (fun found =>
          ({ endpoint := found.1, isOpen := true }, found.2))

/- The new map, filled in the order of the list. -/
def newProxys
    (children : List (ProxyId × Announce))
    (proxys : ProxyMap (Socket ε)) :
    UuidCache ε → ProxyMap (Socket ε) → List ProxyId →
      Option (Membership ε)
| cache, new, [] => some { uuidCache := cache, proxys := new }
| cache, new, id :: rest => do
    let (socket, cache) ← connect resolve children proxys cache id
    newProxys children proxys cache (new.emplace id socket) rest

/- `reconfigure` with the children that ZooKeeper has now. -/
def reconfigure (m : Membership ε) (z : Children) :
    Option (Membership ε) := do
  let (ids, cache) ← newList resolve m.uuidCache z.list
  let list := Proxy.sortIds ids
  if unchanged m.proxys list then
    some { m with uuidCache := cache }
  else
    newProxys resolve z.list m.proxys cache OrderedMap.empty list

end Membership

----------
-- One Call
----------

namespace Membership

variable {ε : Type} (resolve : Bytes → Bytes → ε)
variable {cache : UuidCache ε}

/-
  A child counts as alive the first time only, and is in the
  cache from then on.
-/
theorem getDetails_spec
    (cache : UuidCache ε)
    (child : ProxyId × Announce) :
    ∃ liveliness cache',
      getDetails resolve cache child =
          some (liveliness, cache') ∧
        (liveliness = 1 ↔
          cache child.1 = none ∧ child.2.liveliness = 1) ∧
        ∀ id, cache' id = none ↔
          cache id = none ∧ id ≠ child.1 := by
  unfold getDetails
  cases hCache : cache child.1 with
  | some endpoint =>
      refine ⟨0, cache, rfl, by simp, ?_⟩
      intro id
      constructor
      · intro hNone
        refine ⟨hNone, ?_⟩
        rintro rfl
        rw [hCache] at hNone
        cases hNone
      · exact And.left
  | none =>
      rw [child.2.parsed]
      refine ⟨_, _, rfl, by simp, ?_⟩
      intro id
      by_cases hSame : id = child.1
      · subst hSame
        simp
      · rw [Function.update_of_ne hSame]
        simp [hSame]

/- What the loop over the children leaves. -/
structure Listed
    (cache : UuidCache ε)
    (list : List (ProxyId × Announce))
    (ids : List ProxyId)
    (cache' : UuidCache ε) :
    Prop where
  mem_ids :
    ∀ id, id ∈ ids ↔
      cache id = none ∧
        ∃ a, (id, a) ∈ list ∧ a.liveliness = 1
  nodup : ids.Nodup
  cached :
    ∀ id, cache' id = none ↔
      cache id = none ∧ id ∉ list.map Prod.fst

theorem Listed.cons
    {child : ProxyId × Announce}
    {rest : List (ProxyId × Announce)}
    {liveliness : Int}
    {cache' cache'' : UuidCache ε}
    {ids : List ProxyId}
    (hNew : child.1 ∉ rest.map Prod.fst)
    (hAlive :
      liveliness = 1 ↔
        cache child.1 = none ∧ child.2.liveliness = 1)
    (hCache :
      ∀ id, cache' id = none ↔
        cache id = none ∧ id ≠ child.1)
    (h : Listed cache' rest ids cache'') :
    Listed cache (child :: rest)
      (if liveliness = 1 then child.1 :: ids else ids)
      cache'' := by
  have hOther : child.1 ∉ ids := by
    intro hMem
    have hNone := ((h.mem_ids child.1).mp hMem).1
    exact ((hCache child.1).mp hNone).2 rfl
  have hRest :
      ∀ id a, (id, a) ∈ rest → id ≠ child.1 := by
    rintro id a hMem rfl
    exact hNew (List.mem_map.mpr ⟨_, hMem, rfl⟩)
  refine
    { mem_ids := ?_
      nodup := ?_
      cached := ?_ }
  · intro id
    have hIds :
        id ∈ ids ↔
          cache id = none ∧
            ∃ a, (id, a) ∈ rest ∧ a.liveliness = 1 := by
      rw [h.mem_ids, hCache]
      constructor
      · rintro ⟨⟨hNone, _⟩, hFound⟩
        exact ⟨hNone, hFound⟩
      · rintro ⟨hNone, a, hMem, hOne⟩
        exact ⟨⟨hNone, hRest id a hMem⟩, a, hMem, hOne⟩
    have hSplit :
        (∃ a, (id, a) ∈ child :: rest ∧ a.liveliness = 1) ↔
          (id = child.1 ∧ child.2.liveliness = 1) ∨
            ∃ a, (id, a) ∈ rest ∧ a.liveliness = 1 := by
      constructor
      · rintro ⟨a, hMem, hOne⟩
        rcases List.mem_cons.mp hMem with hEq | hMem
        · subst hEq
          exact Or.inl ⟨rfl, hOne⟩
        · exact Or.inr ⟨a, hMem, hOne⟩
      · rintro (⟨rfl, hOne⟩ | ⟨a, hMem, hOne⟩)
        · exact ⟨child.2, List.mem_cons_self, hOne⟩
        · exact ⟨a, List.mem_cons_of_mem _ hMem, hOne⟩
    rw [hSplit]
    by_cases hOne : liveliness = 1
    · rw [if_pos hOne, List.mem_cons, hIds]
      have hBoth := hAlive.mp hOne
      constructor
      · rintro (rfl | ⟨hNone, hFound⟩)
        · exact ⟨hBoth.1, Or.inl ⟨rfl, hBoth.2⟩⟩
        · exact ⟨hNone, Or.inr hFound⟩
      · rintro ⟨hNone, ⟨rfl, _⟩ | hFound⟩
        · exact Or.inl rfl
        · exact Or.inr ⟨hNone, hFound⟩
    · rw [if_neg hOne, hIds]
      constructor
      · rintro ⟨hNone, hFound⟩
        exact ⟨hNone, Or.inr hFound⟩
      · rintro ⟨hNone, ⟨rfl, hAliveNow⟩ | hFound⟩
        · exact absurd (hAlive.mpr ⟨hNone, hAliveNow⟩) hOne
        · exact ⟨hNone, hFound⟩
  · split
    · exact List.nodup_cons.mpr ⟨hOther, h.nodup⟩
    · exact h.nodup
  · intro id
    rw [h.cached, hCache, List.map_cons, List.mem_cons]
    tauto

/-
  The loop keeps the children that are new and have the
  number 1, and caches all children.
-/
theorem newList_spec
    (cache : UuidCache ε)
    (list : List (ProxyId × Announce))
    (hNodup : (list.map Prod.fst).Nodup) :
    ∃ ids cache',
      newList resolve cache list = some (ids, cache') ∧
        Listed cache list ids cache' := by
  induction list generalizing cache with
  | nil =>
      refine ⟨[], cache, rfl, ?_⟩
      exact
        { mem_ids := by simp
          nodup := List.nodup_nil
          cached := by simp }
  | cons child rest ih =>
      rw [List.map_cons, List.nodup_cons] at hNodup
      rcases getDetails_spec resolve cache child with
        ⟨liveliness, cache', hFirst, hAlive, hCache⟩
      rcases ih cache' hNodup.2 with
        ⟨ids, cache'', hRest, hListed⟩
      refine ⟨_, cache'', ?_,
        Listed.cons hNodup.1 hAlive hCache hListed⟩
      unfold newList
      rw [hFirst]
      simp only [Option.bind_eq_bind, Option.bind_some, hRest]

variable {children : List (ProxyId × Announce)}
variable {proxys : ProxyMap (Socket ε)}

/- Proxies in the cache are connected to without asking. -/
theorem connect_of_cached
    {id : ProxyId}
    (hCached : cache id ≠ none) :
    ∃ socket,
      connect resolve children proxys cache id =
        some (socket, cache) := by
  rcases Option.ne_none_iff_exists'.mp hCached with
    ⟨endpoint, hEndpoint⟩
  unfold connect getUuid
  rw [hEndpoint]
  cases (proxys.find id).filter Socket.isOpen with
  | some socket => exact ⟨socket, rfl⟩
  | none => exact ⟨_, rfl⟩

theorem newProxys_spec
    (list : List ProxyId)
    (new : ProxyMap (Socket ε))
    (hCached : ∀ id ∈ list, cache id ≠ none) :
    ∃ m,
      newProxys resolve children proxys cache new list =
          some m ∧
        m.uuidCache = cache ∧
        ∀ id, id ∈ m.proxys.keys ↔ id ∈ list ∨ id ∈ new.keys := by
  induction list generalizing new with
  | nil => exact ⟨_, rfl, rfl, by simp⟩
  | cons id rest ih =>
      rcases connect_of_cached resolve
        (hCached id List.mem_cons_self) with ⟨socket, hConnect⟩
      rcases ih (new.emplace id socket)
        (fun x hx => hCached x (List.mem_cons_of_mem _ hx)) with
        ⟨m, hRest, hCache, hKeys⟩
      refine ⟨m, ?_, hCache, ?_⟩
      · unfold newProxys
        rw [hConnect]
        exact hRest
      · intro x
        rw [hKeys, OrderedMap.mem_keys_emplace, List.mem_cons]
        tauto

/- As many known proxies as there are, are all of them. -/
theorem mem_keys_of_unchanged
    {list : List ProxyId}
    (hNodup : list.Nodup)
    (h : unchanged proxys list = true)
    (id : ProxyId) :
    id ∈ proxys.keys ↔ id ∈ list := by
  unfold unchanged at h
  rw [Bool.and_eq_true, decide_eq_true_iff,
    List.all_eq_true] at h
  have hSubset : list ⊆ proxys.keys := by
    intro x hx
    exact (proxys.mem_keys_iff_find x).mpr (h.2 x hx)
  have hSize : proxys.keys.length ≤ list.length := by
    rw [h.1]
    exact Nat.le_of_eq (List.length_map _)
  exact (((hNodup.subperm hSubset).perm_of_length_le
    hSize).mem_iff).symm

/-
  After a call the client knows the children that are alive
  and were not listed before.
-/
theorem reconfigure_spec
    (m : Membership ε)
    (z : Children) :
    ∃ m',
      m.reconfigure resolve z = some m' ∧
        (∀ id, id ∈ m'.proxys.keys ↔
          m.uuidCache id = none ∧
            ∃ a, (id, a) ∈ z.list ∧ a.liveliness = 1) ∧
        ∀ id, m'.uuidCache id = none ↔
          m.uuidCache id = none ∧ id ∉ z.ids := by
  rcases newList_spec resolve m.uuidCache z.list z.nodup with
    ⟨ids, cache, hList, hListed⟩
  have hMem :
      ∀ id, id ∈ Proxy.sortIds ids ↔
        m.uuidCache id = none ∧
          ∃ a, (id, a) ∈ z.list ∧ a.liveliness = 1 := by
    intro id
    rw [Proxy.mem_sortIds, hListed.mem_ids]
  unfold reconfigure
  rw [hList]
  simp only [Option.bind_eq_bind, Option.bind_some]
  split
  · next hSame =>
      refine ⟨_, rfl, ?_, hListed.cached⟩
      intro id
      have hNodup : (Proxy.sortIds ids).Nodup :=
        (List.mergeSort_perm ids _).nodup_iff.mpr hListed.nodup
      rw [mem_keys_of_unchanged hNodup hSame, hMem]
  · have hCached :
        ∀ id ∈ Proxy.sortIds ids, cache id ≠ none := by
      intro id hId hNone
      rcases (hMem id).mp hId with ⟨_, a, hChild, _⟩
      exact ((hListed.cached id).mp hNone).2
        (List.mem_map_of_mem hChild)
    rcases newProxys_spec resolve (Proxy.sortIds ids)
      OrderedMap.empty hCached with ⟨m', hNew, hCache, hKeys⟩
    refine ⟨m', hNew, ?_, ?_⟩
    · intro id
      rw [hKeys, OrderedMap.keys_empty, hMem]
      simp
    · rw [hCache]
      exact hListed.cached

end Membership

----------
-- Calls After Every Change
----------

/- A client, and the children at its last call. -/
structure View (ε : Type) where
  membership : Membership ε
  children : Children

namespace View

variable {ε : Type} (resolve : Bytes → Bytes → ε)

def start : View ε :=
  { membership := Membership.start
    children := Children.empty }

/- The children change, and the client is called. -/
def step (v : View ε) (z : Children) : Option (View ε) :=
  (v.membership.reconfigure resolve z).map
    (fun m => { membership := m, children := z })

/- The client knows the children that are alive. -/
def Follows (v : View ε) : Prop :=
  ∀ id, id ∈ v.membership.proxys.keys ↔
    ∃ a, (id, a) ∈ v.children.list ∧ a.liveliness = 1

/- No child that is alive has been listed before. -/
def Fresh (v : View ε) (z : Children) : Prop :=
  ∀ child ∈ z.list, child.2.liveliness = 1 →
    v.membership.uuidCache child.1 = none

/- None of the children that are alive was listed then. -/
def NotSeen (old new : Children) : Prop :=
  ∀ child ∈ new.list, child.2.liveliness = 1 →
    child.1 ∉ old.ids

theorem step_spec
    (v : View ε)
    (z : Children) :
    ∃ v',
      step resolve v z = some v' ∧
        (Follows v' ↔ Fresh v z) ∧
        ∀ w, Fresh v' w ↔ Fresh v w ∧ NotSeen z w := by
  rcases Membership.reconfigure_spec resolve v.membership z with
    ⟨m, hCall, hKeys, hCache⟩
  refine ⟨{ membership := m, children := z }, ?_, ?_, ?_⟩
  · unfold step
    rw [hCall]
    rfl
  · unfold Follows Fresh
    simp only [hKeys]
    constructor
    · intro hFollows child hMem hOne
      exact ((hFollows child.1).mpr ⟨child.2, hMem, hOne⟩).1
    · intro hFresh id
      constructor
      · exact And.right
      · rintro ⟨a, hMem, hOne⟩
        exact ⟨hFresh (id, a) hMem hOne, a, hMem, hOne⟩
  · intro w
    unfold Fresh NotSeen
    simp only [hCache]
    constructor
    · intro hBoth
      exact ⟨fun c hc hOne => (hBoth c hc hOne).1,
        fun c hc hOne => (hBoth c hc hOne).2⟩
    · rintro ⟨hFresh, hNotSeen⟩ c hc hOne
      exact ⟨hFresh c hc hOne, hNotSeen c hc hOne⟩

/- Every call is fresh if no child is alive in two of them. -/
theorem along_fresh_iff
    (v : View ε)
    (zs : List Children) :
    Along (step resolve) Fresh v zs ↔
      (∀ z ∈ zs, Fresh v z) ∧ zs.Pairwise NotSeen := by
  induction zs generalizing v with
  | nil => simp [Along]
  | cons z zs ih =>
      rcases step_spec resolve v z with
        ⟨v', hStep, _, hFresh⟩
      rw [along_cons hStep, ih,
        List.pairwise_cons]
      simp only [hFresh, List.forall_mem_cons]
      constructor
      · rintro ⟨hFirst, hBoth, hRest⟩
        exact ⟨⟨hFirst, fun w hw => (hBoth w hw).1⟩,
          fun w hw => (hBoth w hw).2, hRest⟩
      · rintro ⟨⟨hFirst, hOld⟩, hSeen, hRest⟩
        exact ⟨hFirst,
          fun w hw => ⟨hOld w hw, hSeen w hw⟩, hRest⟩

theorem run_isSome
    (v : View ε)
    (zs : List Children) :
    ∃ v', run (step resolve) v zs = some v' := by
  induction zs generalizing v with
  | nil => exact ⟨v, rfl⟩
  | cons z zs ih =>
      rcases step_spec resolve v z with
        ⟨v', hStep, _⟩
      rcases ih v' with ⟨w, hRest⟩
      exact ⟨w, run_cons.mpr ⟨v', hStep, hRest⟩⟩

theorem follows_start :
    Follows (start : View ε) := by
  intro id
  simp [start, Membership.start, Children.empty]

/-
  A client follows ZooKeeper in all its calls exactly when
  no child that is alive has been listed in an earlier call.
-/
theorem follows_iff_not_seen
    (zs : List Children) :
    Always (step resolve) Follows start zs ↔
      zs.Pairwise NotSeen := by
  rcases run_isSome resolve start zs with
    ⟨v', hRun⟩
  have hExact :
      ∀ v z v', Follows v → step resolve v z = some v' →
        (Follows v' ↔ Fresh v z) := by
    intro v z v' _ hStep
    rcases step_spec resolve v z with
      ⟨w, hSome, hFollows, _⟩
    rw [hStep] at hSome
    cases hSome
    exact hFollows
  rw [always_iff_along hExact follows_start hRun,
    along_fresh_iff]
  constructor
  · exact And.right
  · intro hPairwise
    refine ⟨?_, hPairwise⟩
    intro z _ child _ _
    rfl

def sampleAnnounce : Announce :=
  { buf := Decimal.ascii "a:1:1"
    host := Decimal.ascii "a"
    port := Decimal.ascii "1"
    liveliness := 1
    parsed := by decide }

def sampleId : ProxyId :=
  ⟨Vector.replicate 32 1⟩

/- A proxy that is alive. -/
def sampleChildren : Children :=
  { list := [(sampleId, sampleAnnounce)]
    nodup := by simp }

/- It is known after the first call, and not after another. -/
theorem forgotten_at_second_call :
    ∃ v w : View Unit,
      step (fun _ _ => ()) start sampleChildren = some v ∧
        step (fun _ _ => ()) v sampleChildren = some w ∧
        sampleId ∈ v.membership.proxys.keys ∧
        sampleId ∉ w.membership.proxys.keys ∧
        (sampleId, sampleAnnounce) ∈ w.children.list ∧
        sampleAnnounce.liveliness = 1 := by
  have hMem :
      (sampleId, sampleAnnounce) ∈ sampleChildren.list :=
    List.mem_singleton.mpr rfl
  rcases Membership.reconfigure_spec (fun _ _ => ())
    Membership.start sampleChildren with
    ⟨m, hFirst, hKeys, hCache⟩
  rcases Membership.reconfigure_spec (fun _ _ => ()) m
    sampleChildren with ⟨m', hSecond, hKeys', _⟩
  refine ⟨⟨m, sampleChildren⟩, ⟨m', sampleChildren⟩,
    congrArg _ hFirst, congrArg _ hSecond, ?_, ?_, hMem, rfl⟩
  · exact (hKeys sampleId).mpr
      ⟨rfl, sampleAnnounce, hMem, rfl⟩
  · intro hKnown
    have hNone := ((hKeys' sampleId).mp hKnown).1
    exact ((hCache sampleId).mp hNone).2
      (List.mem_map_of_mem hMem)

end View

end Client

end Slfs
