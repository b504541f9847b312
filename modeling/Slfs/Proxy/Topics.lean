import Mathlib.Data.List.Basic
import Slfs.Proxy.SocketWriter
import Slfs.Ssbd.Packet

/-
  Messages of a topic and their listeners.

  While there are listeners, a handler pops the messages of a
  bucket one after another into one packet, and every listener
  has its connection write that packet. It is serialized when
  the writer comes to it, which may be after the handler has
  popped the next message into it.

  Main declarations:
    * `Proxy.Bucket.Taken`, the condition on a step
    * `Proxy.Bucket.delivers_of_taken`
-/

----------
-- The Bucket
----------

namespace Slfs

open Transition

namespace Proxy

/- A packet, and whether it is one for the listeners. -/
structure Signalled where
  signalled : Bool
  data : Bytes
deriving DecidableEq, Repr

def Signalled.body? (p : Signalled) : Option Bytes :=
  if p.signalled then some p.data else none

/-
  The handler that runs: it has the packet and the slots
  that are still to be called, or it is to disconnect all.
-/
inductive Draining where
| signalling (resp : Nat) (slots : List Nat)
| disconnecting
deriving DecidableEq, Repr

/-
  A bucket with its listeners, one slot for each `get` of a
  connection. Packets are numbered as they are made, and the
  writers of the connections have the numbers. All messages
  that were put are kept, those that were popped with the
  slots that were connected, and the packets as they were
  serialized.
-/
structure Bucket where
  messageQueue : List Bytes
  listener : List Nat
  posted : Nat
  handler : Option Draining
  packets : List Signalled
  writers : Nat → SocketWriter Nat
  sent : Nat → List Signalled
  put : List Bytes
  drained : List (Bytes × List Nat)

namespace Bucket

def start : Bucket :=
  { messageQueue := []
    listener := []
    posted := 0
    handler := none
    packets := []
    writers := fun _ => SocketWriter.start
    sent := fun _ => []
    put := []
    drained := [] }

/-
  A step of the writer of a connection. A packet that is
  handed to the socket is serialized as it is now.
-/
def runWriter
    (s : Bucket)
    (conn : Nat)
    (e : SocketWriter.Event Nat) : Option Bucket := do
  let w ← (s.writers conn).step e
  some
    { s with
      writers := Function.update s.writers conn w
      sent :=
        Function.update s.sent conn
          (s.sent conn ++
            ((s.writers conn).hands e).toList.filterMap
              (fun packet => s.packets[packet]?)) }

/-
  The handler starts, and may have nothing to do. The header
  is not that of a trigger.
-/
def handleEvents (s : Bucket) : Bucket :=
  if s.listener.isEmpty || s.messageQueue.isEmpty then s
  else
    { s with
      handler := some (.signalling s.packets.length [])
      packets :=
        s.packets ++ [{ signalled := true, data := [] }] }

/- The handler tries to pop a message into its packet. -/
def tryPop (s : Bucket) (resp : Nat) : Bucket :=
  match s.messageQueue with
  | [] => { s with handler := some .disconnecting }
  | body :: rest =>
      { s with
        messageQueue := rest
        handler := some (.signalling resp s.listener)
        packets :=
          s.packets.set resp { signalled := true, data := body }
        drained := s.drained ++ [(body, s.listener)] }

inductive Event where
| pushMessage (body : Bytes)
| getConnect (conn : Nat)
| startHandleEvents
| handleEvents
| tryPop
| signal
| disconnectAll
| reply (conn : Nat) (data : Bytes)
| writer (conn : Nat) (e : SocketWriter.Event Nat)
deriving DecidableEq, Repr

/-
  A `put` pushes the message and has a handler posted, a
  `get` connects a slot and has one posted, and other threads
  may be in between. Handlers run one at a time. Connections
  also write packets of their own.
-/
def step (s : Bucket) : Event → Option Bucket
| .pushMessage body =>
    some
      { s with
        messageQueue := s.messageQueue ++ [body]
        put := s.put ++ [body] }
| .getConnect conn =>
    some { s with listener := s.listener ++ [conn] }
| .startHandleEvents =>
    some { s with posted := s.posted + 1 }
| .handleEvents =>
    match s.handler, s.posted with
    | none, posted + 1 =>
        some (handleEvents { s with posted := posted })
    | _, _ => none
| .tryPop =>
    match s.handler with
    | some (.signalling resp []) => some (s.tryPop resp)
    | _ => none
| .signal =>
    match s.handler with
    | some (.signalling resp (conn :: slots)) =>
        runWriter
          { s with handler := some (.signalling resp slots) }
          conn (.push resp)
    | _ => none
| .disconnectAll =>
    match s.handler with
    | some .disconnecting =>
        some { s with handler := none, listener := [] }
    | _ => none
| .reply conn data =>
    runWriter
      { s with
        packets :=
          s.packets ++ [{ signalled := false, data := data }] }
      conn (.push s.packets.length)
| .writer conn e =>
    if e.pushes.isNone then s.runWriter conn e else none

/- Bodies that were popped while a connection listened. -/
def due (s : Bucket) (conn : Nat) : List Bytes :=
  s.drained.flatMap
    (fun entry => List.replicate (entry.2.count conn) entry.1)

/- Bodies that were sent to a connection as a listener. -/
def heard (s : Bucket) (conn : Nat) : List Bytes :=
  (s.sent conn).filterMap Signalled.body?

/- The slots of a connection that are still to be called. -/
def toSignal (s : Bucket) (conn : Nat) : List Nat :=
  match s.handler with
  | some (.signalling resp slots) =>
      List.replicate (slots.count conn) resp
  | _ => []

/- Packets that a connection is still to hand to its socket. -/
def toSend (s : Bucket) (conn : Nat) : List Nat :=
  (s.writers conn).waiting ++ s.toSignal conn

/-
  Messages are popped in the order in which they were put.
  Every connection has been sent a first part of what was
  popped while it listened, and all of it once nothing is to
  be sent, and its writer does not stop before that.
-/
structure Delivers (s : Bucket) : Prop where
  inOrder :
    s.put = s.drained.map Prod.fst ++ s.messageQueue
  part : ∀ conn, s.heard conn <+: s.due conn
  all :
    ∀ conn, s.toSend conn = [] → s.heard conn = s.due conn
  awake : ∀ conn, (s.writers conn).Sound

/-
  A message is popped only after all listeners have
  serialized the one before it, and the writers take their
  steps alone.
-/
def Taken (s : Bucket) : Event → Prop
| .tryPop =>
    match s.handler with
    | some (.signalling resp []) =>
        s.messageQueue.isEmpty = true ∨
          ∀ conn ∈ s.listener, resp ∉ (s.writers conn).waiting
    | _ => True
| .writer conn e => (s.writers conn).Alone e
| _ => True

instance (s : Bucket) (e : Event) : Decidable (s.Taken e) := by
  unfold Taken
  split
  · split <;> infer_instance
  · infer_instance
  · infer_instance

----------
-- Bodies
----------

/- The bodies of the packets with some numbers, as they are. -/
def bodies (packets : List Signalled) (jobs : List Nat) :
    List Bytes :=
  jobs.filterMap
    (fun job => packets[job]?.bind Signalled.body?)

@[simp] theorem bodies_append
    (packets : List Signalled)
    (front back : List Nat) :
    bodies packets (front ++ back) =
      bodies packets front ++ bodies packets back :=
  List.filterMap_append

variable {resp conn : Nat} {jobs : List Nat}
variable {s s' : Bucket} {e : SocketWriter.Event Nat}
variable {packets : List Signalled}

theorem bodies_replicate
    {body : Bytes}
    (hResp :
      packets[resp]? = some { signalled := true, data := body })
    (count : Nat) :
    bodies packets (List.replicate count resp) =
      List.replicate count body := by
  induction count with
  | zero => rfl
  | succ count ih =>
      rw [List.replicate_succ, List.replicate_succ, ← ih]
      simp [bodies, hResp, Signalled.body?]

/- Packets that are made later do not matter. -/
theorem bodies_made
    (hKnown : ∀ job ∈ jobs, job < packets.length)
    (packet : Signalled) :
    bodies (packets ++ [packet]) jobs = bodies packets jobs := by
  apply List.filterMap_congr
  intro job hJob
  rw [List.getElem?_append_left (hKnown job hJob)]

/- Nor does a packet that is not among them. -/
theorem bodies_set
    (hFree : resp ∉ jobs)
    (packet : Signalled) :
    bodies (packets.set resp packet) jobs =
      bodies packets jobs := by
  apply List.filterMap_congr
  intro job hJob
  rw [List.getElem?_set_ne]
  rintro rfl
  exact hFree hJob

theorem bodies_handed
    (packets : List Signalled)
    (jobs : List Nat) :
    (jobs.filterMap (fun job => packets[job]?)).filterMap
        Signalled.body? = bodies packets jobs := by
  rw [List.filterMap_filterMap]
  rfl

----------
-- What Is Owed
----------

/-
  What is due and not sent is in the packets that are to be
  sent, with `extra` for packets that are about to be pushed
  to the writers. The packet of the handler is found only
  with connections that listen.
-/
structure Owes (s : Bucket) (extra : Nat → List Nat) : Prop where
  inOrder :
    s.put = s.drained.map Prod.fst ++ s.messageQueue
  owned : ∀ conn, (s.writers conn).Owned
  known :
    ∀ conn,
      ∀ job ∈ (s.writers conn).waiting ++
        (extra conn ++ s.toSignal conn),
          job < s.packets.length
  due :
    ∀ conn,
      s.due conn =
        s.heard conn ++
          bodies s.packets
            ((s.writers conn).waiting ++
              (extra conn ++ s.toSignal conn))
  handling :
    ∀ resp slots,
      s.handler = some (.signalling resp slots) →
        resp < s.packets.length ∧ slots ⊆ s.listener ∧
          ∀ conn,
            resp ∈ (s.writers conn).waiting ++ extra conn →
              conn ∈ s.listener

def Faithful (s : Bucket) : Prop :=
  s.Owes (fun _ => [])

theorem Faithful.delivers
    (hFaithful : s.Faithful) :
    s.Delivers where
  inOrder := hFaithful.inOrder
  part := by
    intro conn
    rw [hFaithful.due conn]
    exact List.prefix_append _ _
  all := by
    intro conn hNone
    have hDue := hFaithful.due conn
    have hJobs :
        (s.writers conn).waiting ++ ([] ++ s.toSignal conn) =
          [] := hNone
    rw [hJobs] at hDue
    rw [hDue]
    exact (List.append_nil _).symm
  awake := fun conn => (hFaithful.owned conn).sound

theorem Faithful.start : Faithful Bucket.start where
  inOrder := rfl
  owned := fun _ => SocketWriter.Owned.start
  known := by
    intro conn job hJob
    cases hJob
  due := fun _ => rfl
  handling := by
    intro resp slots hHandler
    cases hHandler

/- The packet that an event of a writer pushes. -/
def pushedTo
    (conn : Nat)
    (e : SocketWriter.Event Nat) : Nat → List Nat :=
  fun c => if c = conn then e.pushes.toList else []

/- A step of a writer leaves the other parts alone. -/
theorem runWriter_cases
    (hRun : s.runWriter conn e = some s') :
    ∃ w,
      (s.writers conn).step e = some w ∧
        s' =
          { s with
            writers := Function.update s.writers conn w
            sent :=
              Function.update s.sent conn
                (s.sent conn ++
                  ((s.writers conn).hands e).toList.filterMap
                    (fun packet => s.packets[packet]?)) } := by
  simp only [runWriter, Option.bind_eq_bind,
    Option.bind_eq_some_iff] at hRun
  rcases hRun with ⟨w, hStep, hNext⟩
  exact ⟨w, hStep, (Option.some.inj hNext).symm⟩

/-
  A packet is serialized when it is the next one to be sent,
  so what is sent and what is to be sent stay the same.
-/
theorem heard_runWriter
    (hOwned : (s.writers conn).Owned)
    (hAlone : (s.writers conn).Alone e)
    (hRun : s.runWriter conn e = some s')
    (c : Nat) :
    s'.heard c ++ bodies s.packets (s'.writers c).waiting =
      s.heard c ++
        bodies s.packets
          ((s.writers c).waiting ++ pushedTo conn e c) := by
  rcases runWriter_cases hRun with ⟨w, hStep, rfl⟩
  by_cases hConn : c = conn
  · subst hConn
    have hWaiting := hOwned.waiting_step hAlone hStep
    simp only [heard, pushedTo, Function.update_self,
      if_true, List.filterMap_append, bodies_handed]
    rw [← hWaiting, bodies_append, List.append_assoc]
  · simp only [heard, pushedTo, Function.update_of_ne hConn,
      if_neg hConn, List.append_nil]

/- Nothing else waits than before and what was pushed. -/
theorem mem_waiting_runWriter
    (hOwned : (s.writers conn).Owned)
    (hAlone : (s.writers conn).Alone e)
    (hRun : s.runWriter conn e = some s')
    {c job : Nat}
    (hJob : job ∈ (s'.writers c).waiting) :
    job ∈ (s.writers c).waiting ++ pushedTo conn e c := by
  rcases runWriter_cases hRun with ⟨w, hStep, rfl⟩
  by_cases hConn : c = conn
  · subst hConn
    have hWaiting := hOwned.waiting_step hAlone hStep
    simp only [Function.update_self] at hJob
    rw [pushedTo, if_pos rfl, ← hWaiting]
    exact List.mem_append_right _ hJob
  · simp only [Function.update_of_ne hConn] at hJob
    exact List.mem_append_left _ hJob

namespace Owes

variable {s : Bucket}

/- What was about to be pushed has been pushed. -/
theorem runWriter
    {s' : Bucket}
    {conn : Nat}
    {e : SocketWriter.Event Nat}
    (hOwes : s.Owes (pushedTo conn e))
    (hAlone : (s.writers conn).Alone e)
    (hRun : s.runWriter conn e = some s') :
    s'.Faithful := by
  have hOwned := hOwes.owned conn
  have hHeard := heard_runWriter hOwned hAlone hRun
  have hMem :
      ∀ c, ∀ job ∈ (s'.writers c).waiting,
        job ∈ (s.writers c).waiting ++ pushedTo conn e c :=
    fun _ _ hJob =>
      mem_waiting_runWriter hOwned hAlone hRun hJob
  rcases runWriter_cases hRun with ⟨w, hStep, rfl⟩
  constructor
  case inOrder => exact hOwes.inOrder
  case owned =>
    intro c
    by_cases hConn : c = conn
    · subst hConn
      simp only [Function.update_self]
      exact hOwned.step hAlone hStep
    · simp only [Function.update_of_ne hConn]
      exact hOwes.owned c
  case known =>
    intro c job hJob
    apply hOwes.known c job
    rw [← List.append_assoc]
    rcases List.mem_append.mp hJob with hWaiting | hSignal
    · exact List.mem_append_left _ (hMem c job hWaiting)
    · exact List.mem_append_right _ hSignal
  case due =>
    intro c
    have hDue := hOwes.due c
    rw [← List.append_assoc, bodies_append, ← List.append_assoc,
      ← hHeard c] at hDue
    rw [bodies_append, ← List.append_assoc]
    exact hDue
  case handling =>
    intro resp slots hHandler
    rcases hOwes.handling resp slots hHandler with
      ⟨hKnown, hSlots, hListens⟩
    refine ⟨hKnown, hSlots, ?_⟩
    intro c hResp
    rw [List.append_nil] at hResp
    exact hListens c (hMem c resp hResp)

end Owes

namespace Faithful

variable {s : Bucket}

section

variable (hFaithful : s.Faithful)
include hFaithful

theorem pushMessage
    (body : Bytes) :
    Faithful
      { s with
        messageQueue := s.messageQueue ++ [body]
        put := s.put ++ [body] } where
  inOrder := by
    rw [hFaithful.inOrder, List.append_assoc]
  owned := hFaithful.owned
  known := hFaithful.known
  due := hFaithful.due
  handling := hFaithful.handling

theorem getConnect
    (conn : Nat) :
    Faithful
      { s with listener := s.listener ++ [conn] } where
  inOrder := hFaithful.inOrder
  owned := hFaithful.owned
  known := hFaithful.known
  due := hFaithful.due
  handling := by
    intro resp slots hHandler
    rcases hFaithful.handling resp slots hHandler with
      ⟨hKnown, hSlots, hListens⟩
    refine ⟨hKnown, ?_, ?_⟩
    · exact fun c hc =>
        List.mem_append_left _ (hSlots hc)
    · exact fun c hResp =>
        List.mem_append_left _ (hListens c hResp)

theorem startHandleEvents
    (posted : Nat) :
    Faithful { s with posted := posted } where
  inOrder := hFaithful.inOrder
  owned := hFaithful.owned
  known := hFaithful.known
  due := hFaithful.due
  handling := hFaithful.handling

/- Jobs that are known stay so when a packet is made. -/
theorem known_made
    (packet : Signalled) :
    ∀ conn,
      ∀ job ∈ (s.writers conn).waiting ++ s.toSignal conn,
        job < (s.packets ++ [packet]).length := by
  intro conn job hJob
  have hKnown := hFaithful.known conn job hJob
  rw [List.length_append, List.length_singleton]
  omega

/- With nothing to signal, the handler has no packet. -/
theorem settled
    (hNone : ∀ conn, s.toSignal conn = [])
    (handler : Option Draining)
    (hIdle :
      ∀ resp slots, handler ≠ some (.signalling resp slots))
    (listener : List Nat) :
    Faithful
      { s with handler := handler, listener := listener } := by
  have hSame :
      ∀ conn,
        toSignal
            { s with handler := handler, listener := listener }
            conn =
          s.toSignal conn := by
    intro conn
    rw [hNone, toSignal]
    split
    case h_1 resp slots hHandler =>
      exact absurd hHandler (hIdle resp slots)
    case h_2 => rfl
  constructor
  case inOrder => exact hFaithful.inOrder
  case owned => exact hFaithful.owned
  case known =>
    intro conn job hJob
    rw [hSame] at hJob
    exact hFaithful.known conn job hJob
  case due =>
    intro conn
    rw [hSame]
    exact hFaithful.due conn
  case handling =>
    intro resp slots hHandler
    exact absurd hHandler (hIdle resp slots)

/- A new packet is not with any writer. -/
theorem handleEvents
    (hHandler : s.handler = none) :
    s.handleEvents.Faithful := by
  have hNone : ∀ conn, s.toSignal conn = [] := by
    intro conn
    rw [toSignal, hHandler]
  unfold Bucket.handleEvents
  split
  · exact hFaithful
  · constructor
    case inOrder => exact hFaithful.inOrder
    case owned => exact hFaithful.owned
    case known =>
      intro conn job hJob
      apply hFaithful.known_made _ conn job
      rw [hNone]
      exact hJob
    case due =>
      intro conn
      have hDue := hFaithful.due conn
      rw [hNone] at hDue
      have hKnown :
          ∀ job ∈ (s.writers conn).waiting,
            job < s.packets.length :=
        fun job hJob =>
          hFaithful.known conn job
            (List.mem_append_left _ hJob)
      have hMade :=
        bodies_made hKnown { signalled := true, data := [] }
      simp only [List.append_nil] at hDue
      simp only [toSignal, List.count_nil,
        List.replicate_zero, List.append_nil]
      rw [hMade]
      exact hDue
    case handling =>
      intro resp slots hSignalling
      cases hSignalling
      refine ⟨?_, List.nil_subset _, ?_⟩
      · rw [List.length_append, List.length_singleton]
        omega
      · intro conn hResp
        have hWaiting :
            s.packets.length ∈ (s.writers conn).waiting := by
          simpa using hResp
        have hKnown :=
          hFaithful.known conn s.packets.length
            (List.mem_append_left _ hWaiting)
        exact absurd hKnown (Nat.lt_irrefl _)

end

variable {resp : Nat}

section

variable (hFaithful : s.Faithful)
include hFaithful

/-
  With no writer that still has the packet, a message that
  is popped into it does not change what others are sent.
-/
theorem tryPop
    (hHandler : s.handler = some (.signalling resp []))
    (hTaken : s.Taken .tryPop) :
    (s.tryPop resp).Faithful := by
  rcases hFaithful.handling resp [] hHandler with
    ⟨hKnown, _, hListens⟩
  have hNone : ∀ conn, s.toSignal conn = [] := by
    intro conn
    simp [toSignal, hHandler]
  unfold Bucket.tryPop
  cases hQueue : s.messageQueue with
  | nil =>
      have hSettled :=
        hFaithful.settled hNone (some .disconnecting)
          (by simp) s.listener
      rw [hQueue] at hSettled
      exact hSettled
  | cons body rest =>
      simp only [Taken, hHandler, hQueue, List.isEmpty_cons,
        Bool.false_eq_true, false_or] at hTaken
      have hFree :
          ∀ conn, resp ∉ (s.writers conn).waiting := by
        intro conn hResp
        exact hTaken conn
          (hListens conn (List.mem_append_left _ hResp)) hResp
      have hPacket :
          (s.packets.set resp
              { signalled := true, data := body })[resp]? =
            some { signalled := true, data := body } :=
        List.getElem?_set_self hKnown
      constructor
      case inOrder =>
        simp [hFaithful.inOrder, hQueue]
      case owned => exact hFaithful.owned
      case known =>
        intro conn job hJob
        rw [List.length_set]
        rcases List.mem_append.mp hJob with hWaiting | hSignal
        · exact hFaithful.known conn job
            (List.mem_append_left _ hWaiting)
        · have hSame : job = resp :=
            List.eq_of_mem_replicate hSignal
          exact hSame ▸ hKnown
      case due =>
        intro conn
        have hDue := hFaithful.due conn
        rw [hNone] at hDue
        simp only [List.append_nil] at hDue
        simp only [Bucket.due, List.flatMap_append,
          List.flatMap_singleton, List.nil_append, toSignal,
          bodies_append]
        rw [bodies_set (hFree conn),
          bodies_replicate hPacket, ← List.append_assoc]
        congr 1
      case handling =>
        intro resp' slots hSignalling
        cases hSignalling
        refine ⟨?_, fun c hc => hc, ?_⟩
        · rw [List.length_set]
          exact hKnown
        · intro conn hResp
          exact hListens conn hResp

/- The packet goes from the slots to the writer. -/
theorem signal
    {conn : Nat}
    {slots : List Nat}
    (hHandler :
      s.handler = some (.signalling resp (conn :: slots))) :
    Owes
      { s with handler := some (.signalling resp slots) }
      (pushedTo conn (.push resp)) := by
  rcases hFaithful.handling resp (conn :: slots) hHandler with
    ⟨hKnown, hSlots, hListens⟩
  have hSplit :
      ∀ c,
        pushedTo conn (.push resp) c ++
            List.replicate (slots.count c) resp =
          s.toSignal c := by
    intro c
    simp only [toSignal, hHandler, pushedTo,
      SocketWriter.Event.pushes, Option.toList_some,
      List.count_cons, beq_iff_eq]
    by_cases hConn : c = conn
    · rw [if_pos hConn, if_pos hConn.symm,
        List.replicate_succ]
      rfl
    · rw [if_neg hConn, if_neg (Ne.symm hConn)]
      rfl
  constructor
  case inOrder => exact hFaithful.inOrder
  case owned => exact hFaithful.owned
  case known =>
    intro c job hJob
    apply hFaithful.known c job
    rw [← hSplit c]
    exact hJob
  case due =>
    intro c
    have hDue := hFaithful.due c
    rw [← hSplit c] at hDue
    exact hDue
  case handling =>
    intro resp' slots' hSignalling
    cases hSignalling
    refine ⟨hKnown, ?_, ?_⟩
    · exact fun c hc => hSlots (List.mem_cons_of_mem _ hc)
    · intro c hResp
      by_cases hConn : c = conn
      · subst hConn
        exact hSlots List.mem_cons_self
      · apply hListens c
        simpa [pushedTo, hConn] using hResp

theorem disconnectAll
    (hHandler : s.handler = some .disconnecting) :
    Faithful { s with handler := none, listener := [] } := by
  refine hFaithful.settled ?_ none (by simp) []
  intro conn
  rw [toSignal, hHandler]

/- A packet of the connection itself is not for listeners. -/
theorem reply
    (conn : Nat)
    (data : Bytes) :
    Owes
      { s with
        packets :=
          s.packets ++ [{ signalled := false, data := data }] }
      (pushedTo conn (.push s.packets.length)) := by
  have hPushed :
      ∀ c,
        ∀ job ∈ pushedTo conn (.push s.packets.length) c,
          job = s.packets.length := by
    intro c job hJob
    by_cases hConn : c = conn
    · simpa [pushedTo, hConn, SocketWriter.Event.pushes]
        using hJob
    · simp [pushedTo, hConn] at hJob
  have hSilent :
      ∀ c,
        bodies
            (s.packets ++
              [{ signalled := false, data := data }])
            (pushedTo conn (.push s.packets.length) c) =
          [] := by
    intro c
    by_cases hConn : c = conn
    · simp [pushedTo, hConn, SocketWriter.Event.pushes,
        bodies, Signalled.body?]
    · simp [pushedTo, hConn, bodies]
  constructor
  case inOrder => exact hFaithful.inOrder
  case owned => exact hFaithful.owned
  case known =>
    intro c job hJob
    rcases List.mem_append.mp hJob with hWaiting | hMore
    · exact hFaithful.known_made _ c job
        (List.mem_append_left _ hWaiting)
    · rcases List.mem_append.mp hMore with hNew | hSignal
      · rw [hPushed c job hNew, List.length_append,
          List.length_singleton]
        omega
      · exact hFaithful.known_made _ c job
          (List.mem_append_right _ hSignal)
  case due =>
    intro c
    have hDue := hFaithful.due c
    have hMade :=
      bodies_made (hFaithful.known c)
        { signalled := false, data := data }
    rw [bodies_append, bodies_append, hSilent,
      List.nil_append, ← bodies_append]
    exact hMade.symm ▸ hDue
  case handling =>
    intro resp slots hSignalling
    rcases hFaithful.handling resp slots hSignalling with
      ⟨hKnown, hSlots, hListens⟩
    refine ⟨?_, hSlots, ?_⟩
    · rw [List.length_append]
      omega
    · intro c hResp
      rcases List.mem_append.mp hResp with hWaiting | hNew
      · exact hListens c (List.mem_append_left _ hWaiting)
      · have hSame := hPushed c resp hNew
        omega

theorem step
    {s' : Bucket}
    {e : Event}
    (hTaken : s.Taken e)
    (hStep : s.step e = some s') :
    s'.Faithful := by
  cases e with
  | pushMessage body =>
      cases hStep
      exact hFaithful.pushMessage body
  | getConnect conn =>
      cases hStep
      exact hFaithful.getConnect conn
  | startHandleEvents =>
      cases hStep
      exact hFaithful.startHandleEvents _
  | handleEvents =>
      simp only [Bucket.step] at hStep
      split at hStep
      case h_1 posted hHandler hPosted =>
        cases hStep
        exact (hFaithful.startHandleEvents posted).handleEvents
          hHandler
      case h_2 => cases hStep
  | tryPop =>
      simp only [Bucket.step] at hStep
      split at hStep
      case h_1 resp hHandler =>
        cases hStep
        exact hFaithful.tryPop hHandler hTaken
      case h_2 => cases hStep
  | signal =>
      simp only [Bucket.step] at hStep
      split at hStep
      case h_1 resp conn slots hHandler =>
        exact (hFaithful.signal hHandler).runWriter
          trivial hStep
      case h_2 => cases hStep
  | disconnectAll =>
      simp only [Bucket.step] at hStep
      split at hStep
      case h_1 hHandler =>
        cases hStep
        exact hFaithful.disconnectAll hHandler
      case h_2 => cases hStep
  | reply conn data =>
      exact (hFaithful.reply conn data).runWriter
        trivial hStep
  | writer conn e =>
      simp only [Bucket.step] at hStep
      split at hStep
      case isTrue hNone =>
        have hOwes : s.Owes (pushedTo conn e) := by
          have hNothing : pushedTo conn e = fun _ => [] := by
            funext c
            rw [pushedTo, Option.isNone_iff_eq_none.mp hNone]
            exact ite_self _
          rw [hNothing]
          exact hFaithful
        exact hOwes.runWriter hTaken hStep
      case isFalse => cases hStep

end

end Faithful

/-
  In a run whose steps all meet the condition, every
  connection is sent the bodies that it is to be sent, once
  and in order.
-/
theorem delivers_of_taken
    {es : List Event}
    {s : Bucket}
    (hRun : run step start es = some s)
    (hAlong : Along step Taken start es) :
    s.Delivers := by
  have hFaithful : s.Faithful := by
    apply invariant_of_run
      (I := Faithful) ?_ Faithful.start hRun hAlong
    intro t e t' hFaithful hTaken hStep
    exact hFaithful.step hTaken hStep
  exact hFaithful.delivers

----------
-- Samples
----------

/- A message for a listener whose writer is at rest. -/
def firstMessage : List Event :=
  [.tryPop, .signal, .writer 0 (.next 0), .writer 0 (.next 0),
    .writer 0 (.next 0), .writer 0 (.next 0)]

/- A message for a listener whose writer is writing. -/
def nextMessage : List Event :=
  [.tryPop, .signal, .writer 0 (.next 0)]

/- The next packet is written. -/
def completion : List Event :=
  [.writer 0 (.complete 0 false), .writer 0 (.next 0),
    .writer 0 (.next 0)]

def putTwo : List Event :=
  [.getConnect 0, .startHandleEvents, .handleEvents,
      .pushMessage [1], .startHandleEvents,
      .pushMessage [2], .startHandleEvents, .handleEvents] ++
    firstMessage ++ nextMessage ++ [.tryPop, .disconnectAll] ++
    completion

theorem delivers_of_taken_putTwo :
    ∃ s,
      run step start putTwo = some s ∧
        s.heard 0 = [[1], [2]] ∧ s.Delivers := by
  have hAlong : Along step Taken start putTwo := by
    decide +kernel
  exact ⟨_, rfl, by decide +kernel,
    delivers_of_taken rfl hAlong⟩

def putThree : List Event :=
  [.getConnect 0, .startHandleEvents, .handleEvents,
      .pushMessage [1], .startHandleEvents,
      .pushMessage [2], .startHandleEvents,
      .pushMessage [3], .startHandleEvents, .handleEvents] ++
    firstMessage ++ nextMessage ++ nextMessage ++
    [.tryPop, .disconnectAll] ++ completion ++ completion

/-
  The second and the third message are popped while the
  first is written. The third is sent twice.
-/
theorem third_sent_twice :
    ∃ s,
      run step start putThree = some s ∧
        s.toSend 0 = [] ∧ s.due 0 = [[1], [2], [3]] ∧
        s.heard 0 = [[1], [3], [3]] := by
  exact ⟨_, rfl, by decide +kernel⟩

end Bucket

end Proxy

end Slfs
