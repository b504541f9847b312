import Slfs.Client.Membership

/-
  The node of a proxy in ZooKeeper.

  A proxy announces its host, its port and whether it is
  alive. Other proxies read the node to find the proxy, and
  the one before it in the ring has it restarted when its node
  has not changed for a while. What a proxy has resolved it
  never reads again.

  Main declarations:
    * `Proxy.Zookeeper.getUuid`
    * `Proxy.Watch.restarts_of_uncached`
    * `Proxy.Zookeeper.reconfigure_tells_cached`
-/

----------
-- Announcements
----------

namespace Slfs

open Transition

namespace Proxy

open Client (parseAnnounce)
open Decimal (stoi)
open Mark (colon)

/- The numbers that are written, with their texts. -/
inductive Liveliness where
| alive
| silent
| restarted
deriving DecidableEq, Repr

namespace Liveliness

def value : Liveliness → Int
| .alive => 1
| .silent => 0
| .restarted => -1

def text : Liveliness → Bytes
| .alive => Decimal.ascii "1"
| .silent => Decimal.ascii "0"
| .restarted => Decimal.ascii "-1"

theorem stoi_text (l : Liveliness) :
    stoi l.text = some l.value := by
  cases l <;> decide

end Liveliness

/- The text of a node, from a host and the text of a port. -/
def announceText
    (host port : Bytes)
    (l : Liveliness) : Bytes :=
  host ++ colon :: (port ++ colon :: l.text)

def announce
    (host : Bytes)
    (port : UInt16)
    (l : Liveliness) : Bytes :=
  announceText host (Decimal.toString port.toNat) l

/- A text can be cut at its first colon. -/
theorem cut_colon
    {front : Bytes}
    (hFront : colon ∉ front)
    (rest : Bytes) :
    (front ++ colon :: rest).takeWhile (fun b => b != colon) =
        front ∧
      (front ++ colon :: rest).dropWhile
          (fun b => b != colon) = colon :: rest := by
  have hAll : ∀ b ∈ front, (b != colon) = true := by
    intro b hb
    rw [bne_iff_ne]
    rintro rfl
    exact hFront hb
  constructor
  · rw [List.takeWhile_append_of_pos hAll]
    simp
  · rw [List.dropWhile_append_of_pos hAll]
    simp

theorem colon_notMem_toString (n : Nat) :
    colon ∉ Decimal.toString n := by
  intro hMem
  have hDigit := Decimal.isDigit_of_mem_toString hMem
  revert hDigit
  decide

/- What is announced is read back. -/
theorem parseAnnounce_announce
    {host : Bytes}
    (hHost : colon ∉ host)
    (port : UInt16)
    (l : Liveliness) :
    parseAnnounce (announce host port l) =
      some (host, Decimal.toString port.toNat, l.value) := by
  rcases cut_colon hHost
      (Decimal.toString port.toNat ++ colon :: l.text) with
    ⟨hTakeHost, hDropHost⟩
  rcases cut_colon (colon_notMem_toString port.toNat)
      l.text with ⟨hTakePort, hDropPort⟩
  unfold parseAnnounce announce announceText
  rw [hTakeHost, hDropHost]
  simp only [hTakePort, hDropPort, Liveliness.stoi_text,
    Option.map_some]

/- The announcement as the children of the node have it. -/
def announced
    {host : Bytes}
    (hHost : colon ∉ host)
    (port : UInt16)
    (l : Liveliness) : Client.Announce :=
  { buf := announce host port l
    host := host
    port := Decimal.toString port.toNat
    liveliness := l.value
    parsed := parseAnnounce_announce hHost port l }

----------
-- Reading A Node
----------

namespace Zookeeper

variable {ε : Type}
-- the addresses of a host and a port, or an exception
variable (resolve : Bytes → Bytes → Option (List ε))
-- the texts of the address and the port of an endpoint
variable (texts : ε → Bytes × Bytes)

/- Host and port for `get_uuid`, cut at the first colon. -/
def hostPort (buf : Bytes) : Option (Bytes × Bytes) :=
  match buf.dropWhile (fun b => b != colon) with
  | [] => none
  | _ :: port =>
      some (buf.takeWhile (fun b => b != colon), port)

/-
  The endpoint of a child, and its entry in the cache. There
  is no endpoint if nothing is resolved, and no result if an
  exception is thrown.
-/
def getUuid
    (entry : Option ε)
    (buf : Bytes) : Option (Option ε × Option ε) :=
  match entry with
  | some endpoint => some (some endpoint, some endpoint)
  | none => do
      let (host, port) ← hostPort buf
      let resolved ← resolve host port
      some (resolved.head?, resolved.head?)

/- Address, port and number for an entry of the cache. -/
def cachedDetails (endpoint : ε) : Bytes × Bytes × Int :=
  ((texts endpoint).1, (texts endpoint).2, 0)

/- The same read from the node, with the entry it leaves. -/
def readDetails
    (buf : Bytes) : Option ((Bytes × Bytes × Int) × Option ε) := do
  let (host, port, liveliness) ← parseAnnounce buf
  let resolved ← resolve host port
  match resolved.head? with
  | none => some (([], [], 0), none)
  | some endpoint =>
      some
        (((texts endpoint).1, (texts endpoint).2, liveliness),
          some endpoint)

def getDetails
    (entry : Option ε)
    (buf : Bytes) : Option ((Bytes × Bytes × Int) × Option ε) :=
  match entry with
  | some endpoint =>
      some (cachedDetails texts endpoint, some endpoint)
  | none => readDetails resolve texts buf

end Zookeeper

----------
-- What The Resolver Is Asked
----------

open Client (Membership)

namespace Zookeeper

/- A resolver whose answer is the question. -/
def ask (host port : Bytes) : Option (List (Bytes × Bytes)) :=
  some [(host, port)]

theorem hostPort_announce
    {host : Bytes}
    (hHost : colon ∉ host)
    (port : UInt16)
    (l : Liveliness) :
    hostPort (announce host port l) =
      some
        (host,
          Decimal.toString port.toNat ++ colon :: l.text) := by
  rcases cut_colon hHost
      (Decimal.toString port.toNat ++ colon :: l.text) with
    ⟨hTake, hDrop⟩
  unfold hostPort announce announceText
  rw [hTake, hDrop]

/- The client asks for what was announced. -/
theorem client_asks
    {host : Bytes}
    (hHost : colon ∉ host)
    (port : UInt16)
    (l : Liveliness)
    {cache : Client.UuidCache (Bytes × Bytes)}
    {children : List (ProxyId × Client.Announce)}
    {child : ProxyId}
    (hCache : cache child = none)
    (hChild :
      children.lookup child = some (announced hHost port l)) :
    Membership.getDetails Prod.mk cache
          (child, announced hHost port l) =
        some
          (l.value,
            Function.update cache child
              (some (host, Decimal.toString port.toNat))) ∧
      Membership.getUuid Prod.mk children cache child =
        some
          ((host, Decimal.toString port.toNat),
            Function.update cache child
              (some (host, Decimal.toString port.toNat))) := by
  have hParsed := (announced hHost port l).parsed
  constructor
  · unfold Membership.getDetails
    rw [hCache]
    simp only [hParsed, Option.map_some]
    rfl
  · unfold Membership.getUuid
    rw [hCache]
    simp only [hChild, Option.bind_eq_bind, Option.bind_some,
      hParsed]
    rfl

/-
  For every announcement of a host without a colon, and a
  child that is not in the cache: `get_details` of the proxy,
  and both functions of the client, ask the resolver for the
  announced host and port, and the announced number is
  returned. But `get_uuid` of the proxy asks for another
  port, the text with the number behind it.
-/
theorem asked_of_announce
    {host : Bytes}
    (hHost : colon ∉ host)
    (port : UInt16)
    (l : Liveliness)
    {cache : Client.UuidCache (Bytes × Bytes)}
    {children : List (ProxyId × Client.Announce)}
    {child : ProxyId}
    (hCache : cache child = none)
    (hChild :
      children.lookup child = some (announced hHost port l)) :
    let text := Decimal.toString port.toNat
    let cache' :=
      Function.update cache child (some (host, text))
    getDetails ask id none (announce host port l) =
        some ((host, text, l.value), some (host, text)) ∧
      Membership.getDetails Prod.mk cache
          (child, announced hHost port l) =
        some (l.value, cache') ∧
      Membership.getUuid Prod.mk children cache child =
        some ((host, text), cache') ∧
      (∃ asked,
        (getUuid ask none (announce host port l)).map
            Prod.fst = some (some asked) ∧
          asked = (host, text ++ colon :: l.text) ∧
          asked ≠ (host, text)) := by
  intro text cache'
  rcases client_asks hHost port l hCache hChild with
    ⟨hDetails, hUuid⟩
  refine ⟨?_, hDetails, hUuid, _, ?_, rfl, ?_⟩
  · unfold getDetails readDetails
    rw [parseAnnounce_announce hHost port l]
    rfl
  · unfold getUuid
    rw [hostPort_announce hHost port l]
    rfl
  · intro hSame
    have hText : text ++ colon :: l.text = text :=
      congrArg Prod.snd hSame
    have hLength := congrArg List.length hText
    simp at hLength

def sampleChild : ProxyId :=
  ⟨Vector.replicate 32 1⟩

def sampleHost : Bytes := Decimal.ascii "localhost"

theorem colon_notMem_sampleHost : colon ∉ sampleHost := by
  decide

def sampleCache : Client.UuidCache (Bytes × Bytes) :=
  fun _ => none

def sampleList : List (ProxyId × Client.Announce) :=
  [(sampleChild,
    announced colon_notMem_sampleHost 12000 .alive)]

theorem sampleChild_notCached : sampleCache sampleChild = none :=
  rfl

theorem sampleChild_listed :
    sampleList.lookup sampleChild =
      some (announced colon_notMem_sampleHost 12000 .alive) := by
  rw [sampleList, List.lookup_cons_self]

theorem asked_of_announce_sample :
    getDetails ask id none (announce sampleHost 12000 .alive) =
        some
          ((sampleHost, Decimal.toString 12000, 1),
            some (sampleHost, Decimal.toString 12000)) ∧
      ∃ asked,
        (getUuid ask none
            (announce sampleHost 12000 .alive)).map
            Prod.fst = some (some asked) ∧
          asked ≠ (sampleHost, Decimal.toString 12000) := by
  have hAsked :=
    asked_of_announce colon_notMem_sampleHost 12000 .alive
      sampleChild_notCached sampleChild_listed
  rcases hAsked with ⟨hDetails, _, _, asked, hUuid, _, hNe⟩
  exact ⟨hDetails, asked, hUuid, hNe⟩

/- The port that `get_uuid` of a proxy asks for. -/
theorem asked_with_number :
    getUuid ask none (announce sampleHost 12000 .alive) =
      some
        (some (sampleHost, Decimal.ascii "12000:1"),
          some (sampleHost, Decimal.ascii "12000:1")) := by
  decide +kernel

----------
-- Telling The Workers
----------

variable {ε : Type}
variable {resolve : Bytes → Bytes → Option (List ε)}

/-
  How `reconfigure` finds a proxy. An endpoint of no address
  is returned if nothing is resolved.
-/
def lookup
    (resolve : Bytes → Bytes → Option (List ε))
    (unspecified : ε)
    (cache : ProxyId → Option ε)
    (node : ProxyId → Bytes)
    (child : ProxyId) : Option ε :=
  (getUuid resolve (cache child) (node child)).map
    (fun found => found.1.getD unspecified)

/- No port with a number behind it is resolved. -/
theorem lookup_of_announced
    {unspecified : ε}
    {cache : ProxyId → Option ε}
    {node : ProxyId → Bytes}
    {child : ProxyId}
    (hResolve :
      ∀ host port, colon ∈ port → resolve host port = none)
    (hNode :
      ∃ host port l, colon ∉ host ∧
        node child = announce host port l) :
    lookup resolve unspecified cache node child =
      cache child := by
  unfold lookup getUuid
  cases cache child with
  | some endpoint => rfl
  | none =>
      rcases hNode with ⟨host, port, l, hHost, hNode⟩
      rw [hNode, hostPort_announce hHost port l]
      simp [hResolve]

end Zookeeper

----------
-- Checks Of A Silent Proxy
----------

/-
  A check that has found the node too old: it is to read the
  node, it has decided by a number that it may have read, or
  it has issued the command that restarts the proxy.
-/
inductive Check where
| reading
| decided (host port : Bytes) (liveliness : Int)
    (read : Option Int)
| restarting (host port : Bytes)
deriving DecidableEq, Repr

/-
  A command to restart the proxy: whether its check has read
  the number 0, and whether the node was set to -1 before.
-/
structure Restart where
  readZero : Bool
  afterRestarted : Bool
deriving DecidableEq, Repr

/-
  The node of a proxy, and the proxy before it with its
  entry for the child and its checks. The commands and the
  mark are those since the last heartbeat.
-/
structure Watch (ε : Type) where
  node : Bytes
  entry : Option ε
  checks : List Check
  restarts : List Restart
  marked : Bool

namespace Watch

variable {ε : Type}
variable (resolve : Bytes → Bytes → Option (List ε))
variable (texts : ε → Bytes × Bytes)
-- what a heartbeat writes
variable (buf : Bytes)

def start (node : Bytes) : Watch ε :=
  { node := node
    entry := none
    checks := []
    restarts := []
    marked := false }

/- The first part of `start_check_alive` for an old node. -/
def checkAlive (s : Watch ε) : Watch ε :=
  { s with
    checks := s.checks ++
      [match s.entry with
       | none => .reading
       | some endpoint =>
           let details := Zookeeper.cachedDetails texts endpoint
           .decided details.1 details.2.1 details.2.2 none] }

/- What is next in a check. An exception ends it. -/
def proceed
    (i : Nat)
    (s : Watch ε) : Check → Watch ε
| .reading =>
    match Zookeeper.readDetails resolve texts s.node with
    | none => { s with checks := s.checks.eraseIdx i }
    | some (details, found) =>
        { s with
          entry := s.entry.or found
          checks :=
            s.checks.set i
              (.decided details.1 details.2.1 details.2.2
                ((parseAnnounce s.node).map
                  (fun parsed => parsed.2.2))) }
| .decided host port liveliness read =>
    if liveliness = 1 then
      { s with
        node := announceText host port .silent
        checks := s.checks.eraseIdx i }
    else if liveliness = 0 then
      { s with
        restarts := s.restarts ++
          [{ readZero := decide (read = some 0)
             afterRestarted := s.marked }]
        checks := s.checks.set i (.restarting host port) }
    else { s with checks := s.checks.eraseIdx i }
| .restarting host port =>
    { s with
      node := announceText host port .restarted
      marked := true
      checks := s.checks.eraseIdx i }

inductive Event where
| checkAlive
| proceed (check : Nat)
| reconfigure
| heartbeat
deriving DecidableEq, Repr

/- Heartbeats are of the proxy that is watched. -/
def step (s : Watch ε) : Event → Option (Watch ε)
| .checkAlive => some (s.checkAlive texts)
| .proceed i => do
    let check ← s.checks[i]?
    some (s.proceed resolve texts i check)
| .reconfigure =>
    match Zookeeper.getUuid resolve s.entry s.node with
    | none => some s
    | some (_, entry) => some { s with entry := entry }
| .heartbeat =>
    some
      { s with
        node := buf
        restarts := []
        marked := false }

/-
  Since the last heartbeat the command was issued at most
  once, by a check that has read 0 from the node, and not
  after the node was set to -1.
-/
def Sound (s : Watch ε) : Prop :=
  s.restarts.length ≤ 1 ∧
    ∀ r ∈ s.restarts,
      r.readZero = true ∧ r.afterRestarted = false

instance (s : Watch ε) : Decidable s.Sound := by
  unfold Sound
  infer_instance

/-
  A check starts while the child is not in the cache and no
  other check is under way, and the resolver, unless it
  throws, has an address.
-/
def Uncached (s : Watch ε) : Event → Prop
| .checkAlive => s.entry.isNone = true ∧ s.checks = []
| .proceed i =>
    s.checks[i]? = some .reading →
      ∀ details ∈ Zookeeper.readDetails resolve texts s.node,
        details.2.isSome = true
| _ => True

instance (s : Watch ε) (e : Event) :
    Decidable (s.Uncached resolve texts e) := by
  cases e <;> unfold Uncached <;> infer_instance

/- What the checks and the commands have to do with the cache. -/
structure Orderly (s : Watch ε) : Prop where
  one : s.checks.length ≤ 1
  reading :
    .reading ∈ s.checks → s.restarts = [] ∧ s.marked = false
  decided :
    ∀ host port l read,
      .decided host port l read ∈ s.checks →
        read = some l ∧ s.entry.isSome = true ∧
          s.restarts = [] ∧ s.marked = false
  restarting :
    ∀ host port, .restarting host port ∈ s.checks →
      s.entry.isSome = true
  fresh :
    s.entry = none → s.restarts = [] ∧ s.marked = false
  sound : s.Sound

variable {resolve texts buf}

/- With an address, what is decided is what was read. -/
theorem liveliness_of_found
    {node : Bytes}
    {details : Bytes × Bytes × Int}
    {endpoint : ε}
    (hRead :
      Zookeeper.readDetails resolve texts node =
        some (details, some endpoint)) :
    (parseAnnounce node).map (fun parsed => parsed.2.2) =
      some details.2.2 := by
  unfold Zookeeper.readDetails at hRead
  cases hParsed : parseAnnounce node with
  | none =>
      rw [hParsed] at hRead
      cases hRead
  | some parsed =>
      rw [hParsed] at hRead
      simp only [Option.bind_eq_bind, Option.bind_some,
        Option.bind_eq_some_iff] at hRead
      rcases hRead with ⟨resolved, _, hMatch⟩
      cases hHead : resolved.head? with
      | none =>
          rw [hHead] at hMatch
          cases hMatch
      | some found =>
          rw [hHead] at hMatch
          cases hMatch
          rfl

namespace Orderly

variable {s : Watch ε}

theorem start (node : Bytes) :
    Orderly (Watch.start (ε := ε) node) where
  one := Nat.zero_le _
  reading := by
    intro hMem
    cases hMem
  decided := by
    intro host port l read hMem
    cases hMem
  restarting := by
    intro host port hMem
    cases hMem
  fresh := fun _ => ⟨rfl, rfl⟩
  sound := by
    refine ⟨Nat.zero_le _, ?_⟩
    intro r hMem
    cases hMem

variable {i : Nat} {check : Check}

/- There is one check, and no other. -/
theorem checks_eq
    (hOrderly : s.Orderly)
    (hCheck : s.checks[i]? = some check) :
    s.checks = [check] ∧ i = 0 := by
  have hOne := hOrderly.one
  match hChecks : s.checks with
  | [] =>
      rw [hChecks] at hCheck
      cases hCheck
  | [only] =>
      rw [hChecks, List.getElem?_singleton] at hCheck
      by_cases hZero : i = 0
      · rw [if_pos hZero] at hCheck
        cases hCheck
        exact ⟨rfl, hZero⟩
      · rw [if_neg hZero] at hCheck
        cases hCheck
  | _ :: _ :: _ =>
      rw [hChecks] at hOne
      simp only [List.length_cons] at hOne
      omega

/- Without checks, the other facts are about the cache. -/
theorem of_no_checks
    (hChecks : s.checks = [])
    (hFresh :
      s.entry = none → s.restarts = [] ∧ s.marked = false)
    (hSound : s.Sound) :
    s.Orderly where
  one := by
    rw [hChecks]
    exact Nat.zero_le _
  reading := by
    rw [hChecks]
    intro hMem
    cases hMem
  decided := by
    rw [hChecks]
    intro host port l read hMem
    cases hMem
  restarting := by
    rw [hChecks]
    intro host port hMem
    cases hMem
  fresh := hFresh
  sound := hSound

theorem sound_of_nil
    (hNone : s.restarts = []) :
    s.Sound := by
  unfold Sound
  rw [hNone]
  simp

section

variable (hOrderly : s.Orderly)
include hOrderly

theorem checkAlive
    (hUncached : s.Uncached resolve texts .checkAlive) :
    (s.checkAlive texts).Orderly := by
  rcases hUncached with ⟨hEntry, hNone⟩
  have hEntry : s.entry = none :=
    Option.isNone_iff_eq_none.mp hEntry
  have hChecks : (s.checkAlive texts).checks = [.reading] := by
    unfold Watch.checkAlive
    simp only [hNone, hEntry, List.nil_append]
  constructor
  case one =>
    rw [hChecks]
    exact Nat.le_refl 1
  case reading =>
    intro _
    exact hOrderly.fresh hEntry
  case decided =>
    rw [hChecks]
    intro host port l read hMem
    simp at hMem
  case restarting =>
    rw [hChecks]
    intro host port hMem
    simp at hMem
  case fresh => exact hOrderly.fresh
  case sound => exact hOrderly.sound

/- The check has read the node, or has ended. -/
theorem proceed_reading
    (hChecks : s.checks = [.reading])
    (hFound :
      ∀ details ∈ Zookeeper.readDetails resolve texts s.node,
        details.2.isSome = true) :
    (s.proceed resolve texts 0 .reading).Orderly := by
  have hQuiet := hOrderly.reading (by simp [hChecks])
  unfold proceed
  cases hRead : Zookeeper.readDetails resolve texts s.node with
  | none =>
      refine of_no_checks ?_ hOrderly.fresh hOrderly.sound
      simp [hChecks]
  | some read =>
      rcases read with ⟨details, found⟩
      have hSome : found.isSome = true := hFound _ hRead
      rcases Option.isSome_iff_exists.mp hSome with
        ⟨endpoint, rfl⟩
      have hNumber := liveliness_of_found hRead
      have hEntry :
          (s.entry.or (some endpoint)).isSome = true := by
        simp
      constructor
      case one => simp [hChecks]
      case reading => simp [hChecks]
      case decided =>
        intro host port l number hMem
        simp only [hChecks, List.set_cons_zero,
          List.mem_singleton, Check.decided.injEq] at hMem
        rcases hMem with ⟨_, _, rfl, rfl⟩
        exact ⟨hNumber, hEntry, hQuiet⟩
      case restarting => simp [hChecks]
      case fresh =>
        intro hMissing
        have hOr : s.entry.or (some endpoint) = none := hMissing
        rw [hOr] at hEntry
        cases hEntry
      case sound => exact hOrderly.sound

/- The check has decided by the number that it has read. -/
theorem proceed_decided
    {host port : Bytes}
    {l : Int}
    {read : Option Int}
    (hChecks : s.checks = [.decided host port l read]) :
    (s.proceed resolve texts 0
      (.decided host port l read)).Orderly := by
  have hDecided :=
    hOrderly.decided host port l read (by simp [hChecks])
  rcases hDecided with ⟨hRead, hEntry, hNone, hMarked⟩
  simp only [Watch.proceed]
  by_cases hAlive : l = 1
  · rw [if_pos hAlive]
    refine of_no_checks ?_ hOrderly.fresh hOrderly.sound
    simp [hChecks]
  · rw [if_neg hAlive]
    by_cases hSilent : l = 0
    · -- the one command, as none was issued before
      rw [if_pos hSilent]
      constructor
      case one => simp [hChecks]
      case reading => simp [hChecks]
      case decided => simp [hChecks]
      case restarting =>
        intro host' port' _
        exact hEntry
      case fresh =>
        intro hMissing
        have hNoEntry : s.entry = none := hMissing
        rw [hNoEntry] at hEntry
        cases hEntry
      case sound =>
        unfold Sound
        rw [hNone, hMarked, hRead, hSilent]
        simp
    · rw [if_neg hSilent]
      refine of_no_checks ?_ hOrderly.fresh hOrderly.sound
      simp [hChecks]

theorem proceed_restarting
    {host port : Bytes}
    (hChecks : s.checks = [.restarting host port]) :
    (s.proceed resolve texts 0
      (.restarting host port)).Orderly := by
  have hEntry :=
    hOrderly.restarting host port (by simp [hChecks])
  unfold proceed
  refine of_no_checks ?_ ?_ hOrderly.sound
  · simp [hChecks]
  · intro hMissing
    have hNoEntry : s.entry = none := hMissing
    rw [hNoEntry] at hEntry
    cases hEntry

theorem proceed
    (hCheck : s.checks[i]? = some check)
    (hUncached : s.Uncached resolve texts (.proceed i)) :
    (s.proceed resolve texts i check).Orderly := by
  rcases hOrderly.checks_eq hCheck with ⟨hChecks, rfl⟩
  cases check with
  | reading =>
      exact hOrderly.proceed_reading hChecks (hUncached hCheck)
  | decided host port l read =>
      exact hOrderly.proceed_decided hChecks
  | restarting host port =>
      exact hOrderly.proceed_restarting hChecks

/- An entry is never taken away. -/
theorem reconfigure
    {endpoint entry : Option ε}
    (hUuid :
      Zookeeper.getUuid resolve s.entry s.node =
        some (endpoint, entry)) :
    Orderly { s with entry := entry } := by
  cases hEntry : s.entry with
  | some known =>
      rw [hEntry] at hUuid
      cases hUuid
      rw [← hEntry]
      exact hOrderly
  | none =>
      have hQuiet := hOrderly.fresh hEntry
      constructor
      case one => exact hOrderly.one
      case reading => exact hOrderly.reading
      case decided =>
        intro host port l read hMem
        have hSome := (hOrderly.decided _ _ _ _ hMem).2.1
        rw [hEntry] at hSome
        cases hSome
      case restarting =>
        intro host port hMem
        have hSome := hOrderly.restarting _ _ hMem
        rw [hEntry] at hSome
        cases hSome
      case fresh => exact fun _ => hQuiet
      case sound => exact hOrderly.sound

theorem heartbeat :
    Orderly
      { s with
        node := buf
        restarts := []
        marked := false } where
  one := hOrderly.one
  reading := fun _ => ⟨rfl, rfl⟩
  decided := by
    intro host port l read hMem
    have hDecided := hOrderly.decided host port l read hMem
    exact ⟨hDecided.1, hDecided.2.1, rfl, rfl⟩
  restarting := hOrderly.restarting
  fresh := fun _ => ⟨rfl, rfl⟩
  sound := sound_of_nil rfl

theorem step
    {s' : Watch ε}
    {e : Event}
    (hUncached : s.Uncached resolve texts e)
    (hStep : s.step resolve texts buf e = some s') :
    s'.Orderly := by
  cases e with
  | checkAlive =>
      cases hStep
      exact hOrderly.checkAlive hUncached
  | proceed i =>
      simp only [Watch.step, Option.bind_eq_bind,
        Option.bind_eq_some_iff] at hStep
      rcases hStep with ⟨check, hCheck, hNext⟩
      cases hNext
      exact hOrderly.proceed hCheck hUncached
  | reconfigure =>
      simp only [Watch.step] at hStep
      cases hUuid :
          Zookeeper.getUuid resolve s.entry s.node with
      | none =>
          rw [hUuid] at hStep
          cases hStep
          exact hOrderly
      | some found =>
          rw [hUuid] at hStep
          cases hStep
          exact hOrderly.reconfigure hUuid
  | heartbeat =>
      cases hStep
      exact hOrderly.heartbeat

end

end Orderly

/-
  In a run where every check starts with the child not in
  the cache, the command is issued as it should be.
-/
theorem restarts_of_uncached
    {node : Bytes}
    {es : List Event}
    {s : Watch ε}
    (hRun :
      run (step resolve texts buf) (start node) es =
        some s)
    (hAlong :
      Along (step resolve texts buf)
        (Uncached resolve texts) (start node) es) :
    s.Sound := by
  have hOrderly : s.Orderly := by
    apply invariant_of_run
      (I := Orderly) ?_ (Orderly.start node) hRun hAlong
    intro t e t' hOrderly hUncached hStep
    exact hOrderly.step hUncached hStep
  exact hOrderly.sound

----------
-- Samples
----------

open Zookeeper (ask sampleHost)

/- The proxy has stopped after a heartbeat. -/
def sampleNode : Bytes := announce sampleHost 12000 .alive

/- A node that another proxy has found too old before. -/
def takenOver : Bytes := announce sampleHost 12000 .silent

def oneCheck : List Event :=
  [.checkAlive, .proceed 0, .proceed 0, .proceed 0]

theorem restarts_of_uncached_oneCheck :
    ∃ s,
      run (step ask id sampleNode) (start takenOver)
          oneCheck = some s ∧
        s.restarts.length = 1 ∧ s.Sound := by
  have hAlong :
      Along (step ask id sampleNode)
        (Uncached ask id) (start takenOver) oneCheck := by
    decide +kernel
  refine ⟨_, rfl, by decide +kernel, ?_⟩
  exact restarts_of_uncached rfl hAlong

/-
  The second and the third check find the child in the
  cache, and each issues the command.
-/
theorem restarted_twice :
    ∃ s,
      run (step ask id sampleNode)
          (start sampleNode)
          [.checkAlive, .proceed 0, .proceed 0,
            .checkAlive, .proceed 0, .proceed 0,
            .checkAlive, .proceed 0, .proceed 0] = some s ∧
        s.restarts =
          [{ readZero := false, afterRestarted := false },
            { readZero := false, afterRestarted := true }] ∧
        ¬ s.Sound := by
  exact ⟨_, rfl, by decide +kernel, by decide +kernel⟩

end Watch

end Proxy

end Slfs
