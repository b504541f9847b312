import Mathlib.Data.List.Perm.Subperm
import Mathlib.Data.List.Range
import Slfs.Lib.Transition
import Slfs.DataFunction.StorageConf

/-
  The coordinator of a two-phase commit.

  `start_2pc_prepare` sends one prepare for every piece and
  replies when the number of outstanding requests drops to
  zero. Sending, answers and the deadline timer are on
  different threads, so their steps come in any order in which
  each answer follows its request.

  Main declarations:
    * `Session`, a coordinator and its surroundings
    * `Session.exactlyOnce_iff_orderly`
-/

----------
-- The Coordinator
----------

namespace Slfs

open Transition

/-
  The deadline timer. Once it has expired its handler is
  queued, and cancelling comes too late.
-/
inductive Timer where
| armed
| expired
| cancelled
| fired
deriving DecidableEq, Repr

namespace Timer

def cancel : Timer → Timer
| .armed => .cancelled
| t => t

def expire : Timer → Timer
| .armed => .expired
| t => t

end Timer

/- Which of the two prepare functions is running. -/
inductive PrepareKind where
| single
| multiInputs
deriving DecidableEq, Repr

/-
  Shared variables of a prepare, with the calls of `next` and
  of `start_2pc_commit` so far.
-/
structure Coordinator where
  sent : Nat
  outstandingRequests : Int
  allSsbdAgree : Bool
  timer : Timer
  replies : List Bytes
  commits : List Bool
deriving DecidableEq, Repr

namespace Coordinator

/- A buffer made from a string literal keeps its final zero. -/
def literal (s : String) : Bytes :=
  Decimal.ascii s ++ [0]

def okReply : Bytes :=
  literal "OK"

def timeoutReply : Bytes :=
  literal "Error: request timeout internally"

/- The single-input prepare appends what it saw last. -/
def pendingReply : PrepareKind → MsgT → Bytes
| .single, .twoPcPrepareAgree =>
    Decimal.ascii "Error: Found Pending 2PC Log"
| .single, .twoPcPrepareAbort =>
    Decimal.ascii "Error: Found Pending 2PC Logabort"
| .single, _ =>
    Decimal.ascii "Error: Found Pending 2PC Logdefault"
| .multiInputs, _ =>
    literal "Error: Found Pending 2PC Log"

def start : Coordinator :=
  { sent := 0
    outstandingRequests := 0
    allSsbdAgree := true
    timer := .armed
    replies := []
    commits := [] }

/- One round of the send loop. -/
def send (c : Coordinator) : Coordinator :=
  { c with
    sent := c.sent + 1
    outstandingRequests := c.outstandingRequests + 1 }

/- Whether all answers so far agreed, with one more answer. -/
def agreed (c : Coordinator) (type : MsgT) : Bool :=
  c.allSsbdAgree && decide (type = .twoPcPrepareAgree)

/-
  The outcome, if an answer brings the number of outstanding
  requests down to zero.
-/
def outcome (c : Coordinator) (type : MsgT) : Option Bool :=
  if c.outstandingRequests - 1 = 0 then some (c.agreed type)
  else none

def onResponse
    (kind : PrepareKind)
    (c : Coordinator)
    (type : MsgT) :
    Coordinator :=
  let c' :=
    { c with
      outstandingRequests := c.outstandingRequests - 1
      allSsbdAgree := c.agreed type }
  match c.outcome type with
  | none => c'
  | some agree =>
      { c' with
        timer := c.timer.cancel
        replies := c.replies ++
          [if agree then okReply else pendingReply kind type]
        commits := c.commits ++ [agree] }

/- The deadline passes. -/
def onDeadline (c : Coordinator) : Coordinator :=
  { c with timer := c.timer.expire }

/- The timer's handler runs. -/
def onTimer (c : Coordinator) : Coordinator :=
  { c with
    timer := .fired
    replies := c.replies ++ [timeoutReply] }

theorem pendingReply_ne_ok
    (kind : PrepareKind)
    (type : MsgT) :
    pendingReply kind type ≠ okReply := by
  cases kind <;> cases type <;> decide

end Coordinator

----------
-- Sessions
----------

/- A coordinator and the answers that it has handled. -/
structure Session where
  coordinator : Coordinator
  answered : List (Nat × MsgT)
deriving DecidableEq, Repr

namespace Session

/- Steps of a session. -/
inductive Event where
| send
| respond (index : Nat) (type : MsgT)
| deadline
| timer
deriving DecidableEq, Repr

def start : Session :=
  { coordinator := .start, answered := [] }

variable (kind : PrepareKind) (k : Nat)

/-
  A session over `k` blocks. The answer to request `i` comes
  at any time after the request was sent, and once.
-/
def step (s : Session) : Event → Option Session
| .send =>
    if s.coordinator.sent < k then
      some { s with coordinator := s.coordinator.send }
    else
      none
| .respond index type =>
    if index < s.coordinator.sent ∧
        index ∉ s.answered.map Prod.fst then
      some
        { coordinator := s.coordinator.onResponse kind type
          answered := s.answered ++ [(index, type)] }
    else
      none
| .deadline =>
    some { s with coordinator := s.coordinator.onDeadline }
| .timer =>
    if s.coordinator.timer = .expired then
      some { s with coordinator := s.coordinator.onTimer }
    else
      none

/- All requests answered and the timer's handler done. -/
def Complete (s : Session) : Prop :=
  s.coordinator.sent = k ∧ s.answered.length = k ∧
    (s.coordinator.timer = .cancelled ∨
      s.coordinator.timer = .fired)

/- Every one of the `k` blocks has answered agree. -/
def AllAgreed (s : Session) : Prop :=
  ∀ i < k, (i, MsgT.twoPcPrepareAgree) ∈ s.answered

/-
  One reply, `OK` only after all blocks have agreed, and at
  most one commit.
-/
def ExactlyOnce (schedule : List Event) (s : Session) : Prop :=
  s.coordinator.replies.length = 1 ∧
    s.coordinator.commits.length ≤ 1 ∧
    ∀ before after t,
      schedule = before ++ after →
      run (step kind k) start before = some t →
      Coordinator.okReply ∈ t.coordinator.replies →
        AllAgreed k t

/-
  The loop has sent all requests, or another request is out
  besides the one that is answered next.
-/
def Ahead (s : Session) : Prop :=
  s.coordinator.sent = k ∨
    s.answered.length + 1 < s.coordinator.sent

instance decidableAhead
    (s : Session) :
    Decidable (Ahead k s) :=
  inferInstanceAs (Decidable (s.coordinator.sent = k ∨
    s.answered.length + 1 < s.coordinator.sent))

/-
  Answers are handled while the loop is ahead of them, and
  the deadline passes after the last answer.
-/
def Orderly (s : Session) : Event → Prop
| .send => True
| .respond _ _ => Ahead k s
| .deadline => s.answered.length = k
| .timer => True

instance decidableOrderly
    (s : Session) :
    ∀ e : Event, Decidable (Orderly k s e)
| .send => isTrue trivial
| .respond _ _ => inferInstanceAs (Decidable (Ahead k s))
| .deadline =>
    inferInstanceAs (Decidable (s.answered.length = k))
| .timer => isTrue trivial

end Session

----------
-- What A Step Does
----------

namespace Coordinator

variable {kind : PrepareKind} {c : Coordinator}
variable {type : MsgT}

@[simp] theorem onResponse_sent :
    (c.onResponse kind type).sent = c.sent := by
  unfold onResponse
  cases c.outcome type <;> rfl

@[simp] theorem onResponse_outstandingRequests :
    (c.onResponse kind type).outstandingRequests =
      c.outstandingRequests - 1 := by
  unfold onResponse
  cases c.outcome type <;> rfl

@[simp] theorem onResponse_allSsbdAgree :
    (c.onResponse kind type).allSsbdAgree =
      c.agreed type := by
  unfold onResponse
  cases c.outcome type <;> rfl

/- An answer that leaves other requests out. -/
theorem onResponse_of_ne
    (h : c.outstandingRequests ≠ 1) :
    c.onResponse kind type =
      { c with
        outstandingRequests := c.outstandingRequests - 1
        allSsbdAgree := c.agreed type } := by
  have hNot : ¬ c.outstandingRequests - 1 = 0 := by omega
  simp [onResponse, outcome, hNot]

/- The answer that brings the count to zero. -/
theorem onResponse_of_eq
    (h : c.outstandingRequests = 1) :
    c.onResponse kind type =
      { c with
        outstandingRequests := c.outstandingRequests - 1
        allSsbdAgree := c.agreed type
        timer := c.timer.cancel
        replies := c.replies ++
          [if c.agreed type then okReply
            else pendingReply kind type]
        commits := c.commits ++ [c.agreed type] } := by
  have hZero : c.outstandingRequests - 1 = 0 := by omega
  simp [onResponse, outcome, hZero]

end Coordinator

namespace Session

variable {kind : PrepareKind} {k : Nat} {s s' : Session}
variable {es : List Event} {e : Event}

/- Steps of a session, one by one. -/
theorem step_send
    (h : step kind k s .send = some s') :
    s.coordinator.sent < k ∧
      s' = { s with coordinator := s.coordinator.send } := by
  by_cases hLt : s.coordinator.sent < k
  · simp only [step, hLt, if_true, Option.some.injEq] at h
    exact ⟨hLt, h.symm⟩
  · simp [step, hLt] at h

variable {index : Nat}

theorem step_respond
    {type : MsgT}
    (h : step kind k s (.respond index type) = some s') :
    (index < s.coordinator.sent ∧
        index ∉ s.answered.map Prod.fst) ∧
      s' =
        { coordinator := s.coordinator.onResponse kind type
          answered := s.answered ++ [(index, type)] } := by
  by_cases hGuard : index < s.coordinator.sent ∧
      index ∉ s.answered.map Prod.fst
  · simp only [step, hGuard, not_false_eq_true, and_self,
      if_true, Option.some.injEq] at h
    exact ⟨hGuard, h.symm⟩
  · simp only [step, hGuard, if_false] at h
    cases h

theorem step_deadline
    (h : step kind k s .deadline = some s') :
    s' =
      { s with coordinator := s.coordinator.onDeadline } := by
  simp only [step, Option.some.injEq] at h
  exact h.symm

theorem step_timer
    (h : step kind k s .timer = some s') :
    s.coordinator.timer = .expired ∧
      s' =
        { s with coordinator := s.coordinator.onTimer } := by
  by_cases hExpired : s.coordinator.timer = .expired
  · simp only [step, hExpired, if_true, Option.some.injEq] at h
    exact ⟨hExpired, h.symm⟩
  · simp [step, hExpired] at h

/- What the counters of a session stand for. -/
structure Counted (k : Nat) (s : Session) : Prop where
  sent_le : s.coordinator.sent ≤ k
  index_lt :
    ∀ p ∈ s.answered, p.1 < s.coordinator.sent
  nodup : (s.answered.map Prod.fst).Nodup
  outstanding :
    s.coordinator.outstandingRequests =
      (s.coordinator.sent : Int) - s.answered.length
  agree :
    s.coordinator.allSsbdAgree = true ↔
      ∀ p ∈ s.answered, p.2 = .twoPcPrepareAgree
  settled :
    s.coordinator.timer = .cancelled ∨
        s.coordinator.timer = .fired →
      0 < s.coordinator.replies.length

theorem counted_start :
    Counted k start where
  sent_le := Nat.zero_le _
  index_lt := by simp [start]
  nodup := by simp [start]
  outstanding := by simp [start, Coordinator.start]
  agree := by simp [start, Coordinator.start]
  settled := by simp [start, Coordinator.start]

/- Requests are answered after they were sent. -/
theorem Counted.answered_le
    (h : Counted k s) :
    s.answered.length ≤ s.coordinator.sent := by
  have hSubset :
      s.answered.map Prod.fst ⊆
        List.range s.coordinator.sent := by
    intro i hi
    rcases List.mem_map.mp hi with ⟨p, hp, hEq⟩
    exact List.mem_range.mpr (hEq ▸ h.index_lt p hp)
  have hLength := (h.nodup.subperm hSubset).length_le
  simpa using hLength

/- An answered request is one of those counted as sent. -/
theorem Counted.answered_lt
    (h : Counted k s)
    (hSent : index < s.coordinator.sent)
    (hNew : index ∉ s.answered.map Prod.fst) :
    s.answered.length < s.coordinator.sent := by
  have hNodup : (index :: s.answered.map Prod.fst).Nodup :=
    List.nodup_cons.mpr ⟨hNew, h.nodup⟩
  have hSubset :
      index :: s.answered.map Prod.fst ⊆
        List.range s.coordinator.sent := by
    intro i hi
    rcases List.mem_cons.mp hi with hEq | hOld
    · exact List.mem_range.mpr (hEq ▸ hSent)
    · rcases List.mem_map.mp hOld with ⟨p, hp, hEq⟩
      exact List.mem_range.mpr (hEq ▸ h.index_lt p hp)
  have hLength := (hNodup.subperm hSubset).length_le
  simp only [List.length_cons, List.length_map,
    List.length_range] at hLength
  exact hLength

/- With all requests answered every index has an answer. -/
theorem Counted.exists_answer
    (h : Counted k s)
    (hAll : s.answered.length = k) :
    ∀ i < k, ∃ type, (i, type) ∈ s.answered := by
  intro i hi
  have hSubset :
      s.answered.map Prod.fst ⊆ List.range k := by
    intro j hj
    rcases List.mem_map.mp hj with ⟨p, hp, hEq⟩
    have hLt := h.index_lt p hp
    have hLe := h.sent_le
    exact List.mem_range.mpr (by omega)
  have hPerm :=
    (h.nodup.subperm hSubset).perm_of_length_le
      (by simp [hAll])
  have hMem : i ∈ s.answered.map Prod.fst :=
    hPerm.symm.subset (List.mem_range.mpr hi)
  rcases List.mem_map.mp hMem with ⟨⟨j, type⟩, hp, hEq⟩
  have hIndex : j = i := hEq
  exact ⟨type, hIndex ▸ hp⟩

/- Handling an answer keeps the counters right. -/
theorem counted_respond
    {type : MsgT}
    (h : Counted k s)
    (hSent : index < s.coordinator.sent)
    (hNew : index ∉ s.answered.map Prod.fst) :
    Counted k
      { coordinator := s.coordinator.onResponse kind type
        answered := s.answered ++ [(index, type)] } where
  sent_le := by simpa using h.sent_le
  index_lt := by
    intro p hp
    rcases List.mem_append.mp hp with hOld | hLast
    · simpa using h.index_lt p hOld
    · have hEq : p = (index, type) := by simpa using hLast
      simpa [hEq] using hSent
  nodup := by
    rw [List.map_append]
    refine List.nodup_append.mpr ⟨h.nodup, by simp, ?_⟩
    intro i hi j hj hEq
    have hIndex : j = index := by simpa using hj
    exact hNew (hIndex ▸ hEq ▸ hi)
  outstanding := by
    have hCount := h.outstanding
    simp only [Coordinator.onResponse_outstandingRequests,
      Coordinator.onResponse_sent, List.length_append,
      List.length_singleton]
    push_cast
    omega
  agree := by
    simp only [Coordinator.onResponse_allSsbdAgree,
      Coordinator.agreed, Bool.and_eq_true, h.agree,
      decide_eq_true_eq, List.mem_append, List.mem_singleton]
    constructor
    · rintro ⟨hOld, hType⟩ p (hp | rfl)
      · exact hOld p hp
      · exact hType
    · intro hAll
      exact ⟨fun p hp => hAll p (Or.inl hp),
        hAll (index, type) (Or.inr rfl)⟩
  settled := by
    by_cases hOne : s.coordinator.outstandingRequests = 1
    · rw [Coordinator.onResponse_of_eq hOne]
      simp
    · rw [Coordinator.onResponse_of_ne hOne]
      exact h.settled

theorem counted_step
    (s : Session)
    (e : Event)
    (s' : Session)
    (h : Counted k s)
    (hStep : step kind k s e = some s') :
    Counted k s' := by
  cases e with
  | send =>
      rcases step_send hStep with ⟨hLt, rfl⟩
      exact
        { sent_le := hLt
          index_lt := fun p hp =>
            Nat.lt_succ_of_lt (h.index_lt p hp)
          nodup := h.nodup
          outstanding := by
            have hCount := h.outstanding
            simp only [Coordinator.send]
            push_cast
            omega
          agree := h.agree
          settled := h.settled }
  | respond index type =>
      rcases step_respond hStep with ⟨hGuard, rfl⟩
      exact counted_respond h hGuard.1 hGuard.2
  | deadline =>
      rw [step_deadline hStep]
      refine
        { sent_le := h.sent_le
          index_lt := h.index_lt
          nodup := h.nodup
          outstanding := h.outstanding
          agree := h.agree
          settled := ?_ }
      intro hTimer
      apply h.settled
      cases hOld : s.coordinator.timer with
      | armed | expired =>
          simp [Coordinator.onDeadline, Timer.expire, hOld]
            at hTimer
      | cancelled => exact Or.inl rfl
      | fired => exact Or.inr rfl
  | timer =>
      rcases step_timer hStep with ⟨_, rfl⟩
      exact
        { sent_le := h.sent_le
          index_lt := h.index_lt
          nodup := h.nodup
          outstanding := h.outstanding
          agree := h.agree
          settled := by simp [Coordinator.onTimer] }

----------
-- Replies That A Session Owes
----------

/-
  Replies made, and replies that are certain to come: one
  from a queued timer handler, and one from the last answer.
-/
def owed (k : Nat) (s : Session) : Nat :=
  s.coordinator.replies.length +
    (if s.coordinator.timer = .expired then 1 else 0) +
    (if s.answered.length < k then 1 else 0)

/- Cancelling takes nothing from what is owed. -/
theorem expired_cancel
    (t : Timer) :
    (if t.cancel = .expired then 1 else 0) =
      (if t = .expired then 1 else 0) := by
  cases t <;> rfl

/-
  What an answer does to the replies: it adds one when it is
  the only request that is out.
-/
theorem owed_respond
    {type : MsgT}
    (h : Counted k s)
    (hSent : index < s.coordinator.sent)
    (hNew : index ∉ s.answered.map Prod.fst) :
    owed k
        { coordinator := s.coordinator.onResponse kind type
          answered := s.answered ++ [(index, type)] } =
      if s.answered.length + 1 = s.coordinator.sent ∧
          s.coordinator.sent < k then
        owed k s + 1
      else
        owed k s := by
  have hLt := h.answered_lt hSent hNew
  have hLe := h.sent_le
  have hCount := h.outstanding
  by_cases hOne : s.coordinator.outstandingRequests = 1
  · rw [Coordinator.onResponse_of_eq hOne]
    simp only [owed, expired_cancel, List.length_append,
      List.length_singleton]
    by_cases hLast : s.coordinator.sent < k
    · rw [if_pos (by omega : s.answered.length + 1 < k),
        if_pos (by omega : s.answered.length < k),
        if_pos (by omega : s.answered.length + 1 =
          s.coordinator.sent ∧ s.coordinator.sent < k)]
      omega
    · rw [if_neg (by omega : ¬ s.answered.length + 1 < k),
        if_pos (by omega : s.answered.length < k),
        if_neg (by omega : ¬ (s.answered.length + 1 =
          s.coordinator.sent ∧ s.coordinator.sent < k))]
      omega
  · rw [Coordinator.onResponse_of_ne hOne]
    simp only [owed, List.length_append,
      List.length_singleton]
    rw [if_pos (by omega : s.answered.length + 1 < k),
      if_pos (by omega : s.answered.length < k),
      if_neg (by omega : ¬ (s.answered.length + 1 =
        s.coordinator.sent ∧ s.coordinator.sent < k))]

/- No step takes back a reply that is owed. -/
theorem owed_step
    (s : Session)
    (e : Event)
    (s' : Session)
    (h : Counted k s)
    (hStep : step kind k s e = some s') :
    owed k s ≤ owed k s' := by
  cases e with
  | send =>
      rcases step_send hStep with ⟨_, rfl⟩
      exact Nat.le_refl _
  | respond index type =>
      rcases step_respond hStep with ⟨hGuard, rfl⟩
      rw [owed_respond h hGuard.1 hGuard.2]
      split <;> omega
  | deadline =>
      rw [step_deadline hStep]
      cases hTimer : s.coordinator.timer <;>
        simp [owed, Coordinator.onDeadline, Timer.expire,
          hTimer]
  | timer =>
      rcases step_timer hStep with ⟨hExpired, rfl⟩
      simp [owed, Coordinator.onTimer, hExpired]

theorem owed_le_of_run
    (h : Counted k s)
    (hRun : run (step kind k) s es = some s') :
    owed k s ≤ owed k s' :=
  mono_of_run counted_step owed_step h hRun

/- At the start one reply is owed. -/
theorem owed_start
    (hk : 1 ≤ k) :
    owed k start = 1 := by
  simp [owed, start, Coordinator.start, show 0 < k from hk]

/- A step out of order leaves two replies owed. -/
theorem two_le_owed_of_not_orderly
    (h : Counted k s)
    (hPos : 1 ≤ owed k s)
    (hStep : step kind k s e = some s')
    (hNot : ¬ Orderly k s e) :
    2 ≤ owed k s' := by
  cases e with
  | send => exact absurd trivial hNot
  | timer => exact absurd trivial hNot
  | respond index type =>
      rcases step_respond hStep with ⟨hGuard, rfl⟩
      have hLt := h.answered_lt hGuard.1 hGuard.2
      have hLe := h.sent_le
      simp only [Orderly, Ahead, not_or] at hNot
      rw [owed_respond h hGuard.1 hGuard.2, if_pos (by omega)]
      omega
  | deadline =>
      rw [step_deadline hStep]
      have hLe := h.sent_le
      have hAnswered := h.answered_le
      simp only [Orderly] at hNot
      have hLeft : s.answered.length < k := by omega
      -- a timer that is past cancelling owes its reply, one
      -- that is settled has replied
      have hSettled := h.settled
      cases hTimer : s.coordinator.timer with
      | armed | expired =>
          simp [owed, Coordinator.onDeadline, Timer.expire,
            hTimer, hLeft]
      | cancelled =>
          have hReplied := hSettled (Or.inl hTimer)
          simp only [owed, Coordinator.onDeadline,
            Timer.expire, hTimer, hLeft]
          simp
          omega
      | fired =>
          have hReplied := hSettled (Or.inr hTimer)
          simp only [owed, Coordinator.onDeadline,
            Timer.expire, hTimer, hLeft]
          simp
          omega

/- A complete run with one reply was orderly throughout. -/
theorem along_of_one_reply
    (h : Counted k s)
    (hPos : 1 ≤ owed k s)
    (hRun : run (step kind k) s es = some s')
    (hFinal : owed k s' = 1) :
    Along (step kind k) (Orderly k) s es := by
  induction es generalizing s with
  | nil => trivial
  | cons e es ih =>
      rcases run_cons.mp hRun with
        ⟨m, hStep, hRest⟩
      have hCounted := counted_step s e m h hStep
      have hLater := owed_le_of_run hCounted hRest
      have hHere := owed_step s e m h hStep
      refine (along_cons hStep).mpr
        ⟨?_, ih hCounted (by omega) hRest⟩
      by_contra hNot
      have hTwo := two_le_owed_of_not_orderly h hPos hStep hNot
      omega

----------
-- Orderly Sessions
----------

/- Still waiting for an answer: nothing has happened yet. -/
structure Waiting (k : Nat) (s : Session) : Prop where
  answered_lt : s.answered.length < k
  timer : s.coordinator.timer = .armed
  replies : s.coordinator.replies = []
  commits : s.coordinator.commits = []

/- All answers are in: one reply, one commit. -/
structure Decided (k : Nat) (s : Session) : Prop where
  answered_eq : s.answered.length = k
  timer : s.coordinator.timer = .cancelled
  replies : s.coordinator.replies.length = 1
  commits : s.coordinator.commits.length = 1
  allAgreed :
    Coordinator.okReply ∈ s.coordinator.replies →
      AllAgreed k s

/- The answers are all agrees when the last one finds so. -/
theorem allAgreed_of_counted
    (h : Counted k s)
    (hAll : s.answered.length = k)
    (hAgree : s.coordinator.allSsbdAgree = true) :
    AllAgreed k s := by
  intro i hi
  rcases h.exists_answer hAll i hi with ⟨type, hMem⟩
  have hType : type = .twoPcPrepareAgree :=
    h.agree.mp hAgree (i, type) hMem
  exact hType ▸ hMem

/- The last answer decides, the ones before it do not. -/
theorem waiting_respond
    {type : MsgT}
    (h : Counted k s)
    (hWait : Waiting k s)
    (hSent : index < s.coordinator.sent)
    (hNew : index ∉ s.answered.map Prod.fst)
    (hOrder : Ahead k s) :
    Waiting k
        { coordinator := s.coordinator.onResponse kind type
          answered := s.answered ++ [(index, type)] } ∨
      Decided k
        { coordinator := s.coordinator.onResponse kind type
          answered := s.answered ++ [(index, type)] } := by
  have hLt := h.answered_lt hSent hNew
  have hLe := h.sent_le
  have hCount := h.outstanding
  unfold Ahead at hOrder
  have hCounted :
      Counted k
        { coordinator := s.coordinator.onResponse kind type
          answered := s.answered ++ [(index, type)] } :=
    counted_respond h hSent hNew
  by_cases hOne : s.coordinator.outstandingRequests = 1
  · right
    have hLength :
        (s.answered ++ [(index, type)]).length = k := by
      rw [List.length_append, List.length_singleton]
      omega
    have hAgreed := allAgreed_of_counted hCounted hLength
    rw [Coordinator.onResponse_of_eq hOne] at hAgreed ⊢
    refine
      { answered_eq := hLength
        timer := by simp [hWait.timer, Timer.cancel]
        replies := by simp [hWait.replies]
        commits := by simp [hWait.commits]
        allAgreed := ?_ }
    intro hOk
    apply hAgreed
    simp only [hWait.replies, List.nil_append,
      List.mem_singleton] at hOk
    by_contra hNot
    have hFalse : s.coordinator.agreed type = false := by
      simpa using hNot
    rw [hFalse] at hOk
    exact Coordinator.pendingReply_ne_ok kind type hOk.symm
  · left
    rw [Coordinator.onResponse_of_ne hOne]
    exact
      { answered_lt := by
          rw [List.length_append, List.length_singleton]
          omega
        timer := hWait.timer
        replies := hWait.replies
        commits := hWait.commits }

theorem decided_step
    (s : Session)
    (e : Event)
    (s' : Session)
    (h : Counted k s ∧ (Waiting k s ∨ Decided k s))
    (hOrder : Orderly k s e)
    (hStep : step kind k s e = some s') :
    Counted k s' ∧ (Waiting k s' ∨ Decided k s') := by
  rcases h with ⟨hCounted, hPhase⟩
  refine ⟨counted_step s e s' hCounted hStep, ?_⟩
  have hAnswered := hCounted.answered_le
  have hLe := hCounted.sent_le
  cases e with
  | send =>
      rcases step_send hStep with ⟨hLt, rfl⟩
      rcases hPhase with hWait | hDone
      · exact Or.inl
          { answered_lt := hWait.answered_lt
            timer := hWait.timer
            replies := hWait.replies
            commits := hWait.commits }
      · have hAll := hDone.answered_eq
        omega
  | respond index type =>
      rcases step_respond hStep with ⟨hGuard, rfl⟩
      rcases hPhase with hWait | hDone
      · exact waiting_respond hCounted hWait hGuard.1 hGuard.2
          hOrder
      · have hAll := hDone.answered_eq
        have hLt := hCounted.answered_lt hGuard.1 hGuard.2
        omega
  | deadline =>
      rw [step_deadline hStep]
      simp only [Orderly] at hOrder
      rcases hPhase with hWait | hDone
      · have hLeft := hWait.answered_lt
        omega
      · right
        exact
          { answered_eq := hDone.answered_eq
            timer := by
              simp [Coordinator.onDeadline, hDone.timer,
                Timer.expire]
            replies := hDone.replies
            commits := hDone.commits
            allAgreed := hDone.allAgreed }
  | timer =>
      rcases step_timer hStep with ⟨hExpired, _⟩
      rcases hPhase with hWait | hDone
      · rw [hWait.timer] at hExpired
        cases hExpired
      · rw [hDone.timer] at hExpired
        cases hExpired

/-
  An orderly session, also one without blocks. If it executes
  its write, `OK` is all that it replies.
-/
structure Faithful (k : Nat) (s : Session) : Prop where
  counted : Counted k s
  phase :
    (k = 0 ∧ s.coordinator.commits = []) ∨
      Waiting k s ∨ Decided k s
  execute :
    true ∈ s.coordinator.commits →
      s.coordinator.replies = [Coordinator.okReply]

theorem faithful_start :
    Faithful k start where
  counted := counted_start
  phase := by
    by_cases hk : k = 0
    · exact Or.inl ⟨hk, rfl⟩
    · refine Or.inr (Or.inl ?_)
      exact
        { answered_lt := Nat.pos_of_ne_zero hk
          timer := rfl
          replies := rfl
          commits := rfl }
  execute := by simp [start, Coordinator.start]

theorem faithful_respond
    {type : MsgT}
    (h : Faithful k s)
    (hStep : step kind k s (.respond index type) = some s') :
    true ∈ s'.coordinator.commits →
      s'.coordinator.replies = [Coordinator.okReply] := by
  rcases step_respond hStep with ⟨hGuard, rfl⟩
  have hLt := h.counted.answered_lt hGuard.1 hGuard.2
  have hLe := h.counted.sent_le
  rcases h.phase with ⟨hZero, _⟩ | hWait | hDone
  · omega
  · by_cases hOne : s.coordinator.outstandingRequests = 1
    · rw [Coordinator.onResponse_of_eq hOne]
      simp only [hWait.commits, hWait.replies, List.nil_append,
        List.mem_singleton]
      intro hAgreed
      rw [← hAgreed]
      rfl
    · rw [Coordinator.onResponse_of_ne hOne]
      simp [hWait.commits]
  · have hAll := hDone.answered_eq
    omega

theorem faithful_step
    (h : Faithful k s)
    (hOrder : Orderly k s e)
    (hStep : step kind k s e = some s') :
    Faithful k s' := by
  have hCounted := counted_step s e s' h.counted hStep
  have hNext :
      Waiting k s ∨ Decided k s →
        Waiting k s' ∨ Decided k s' := by
    intro hOld
    exact (decided_step s e s' ⟨h.counted, hOld⟩ hOrder
      hStep).2
  have hLe := h.counted.sent_le
  cases e with
  | send =>
      rcases step_send hStep with ⟨hLt, rfl⟩
      refine
        { counted := hCounted
          phase := ?_
          execute := h.execute }
      rcases h.phase with ⟨hZero, _⟩ | hOld
      · omega
      · exact Or.inr (hNext hOld)
  | respond index type =>
      have hGuard := (step_respond hStep).1
      refine
        { counted := hCounted
          phase := ?_
          execute := faithful_respond h hStep }
      rcases h.phase with ⟨hZero, _⟩ | hOld
      · omega
      · exact Or.inr (hNext hOld)
  | deadline =>
      have hEq := step_deadline hStep
      subst hEq
      refine
        { counted := hCounted
          phase := ?_
          execute := h.execute }
      rcases h.phase with hNone | hOld
      · exact Or.inl hNone
      · exact Or.inr (hNext hOld)
  | timer =>
      rcases step_timer hStep with ⟨hExpired, rfl⟩
      rcases h.phase with ⟨hZero, hNone⟩ | hWait | hDone
      · exact
          { counted := hCounted
            phase := Or.inl ⟨hZero, hNone⟩
            execute := by
              simp [Coordinator.onTimer, hNone] }
      · rw [hWait.timer] at hExpired
        cases hExpired
      · rw [hDone.timer] at hExpired
        cases hExpired

/- What has been committed stays so. -/
theorem commits_subset_of_step
    (hStep : step kind k s e = some s') :
    s.coordinator.commits ⊆ s'.coordinator.commits := by
  cases e with
  | send =>
      rcases step_send hStep with ⟨_, rfl⟩
      exact fun _ => id
  | respond index type =>
      rcases step_respond hStep with ⟨_, rfl⟩
      by_cases hOne : s.coordinator.outstandingRequests = 1
      · rw [Coordinator.onResponse_of_eq hOne]
        exact List.subset_append_left _ _
      · rw [Coordinator.onResponse_of_ne hOne]
        exact fun _ => id
  | deadline =>
      have hEq := step_deadline hStep
      subst hEq
      exact fun _ => id
  | timer =>
      rcases step_timer hStep with ⟨_, rfl⟩
      exact fun _ => id

/- The outcome that an answer brings is committed. -/
theorem outcome_mem_commits
    {type : MsgT}
    (hStep : step kind k s (.respond index type) = some s') :
    ∀ agree ∈ s.coordinator.outcome type,
      agree ∈ s'.coordinator.commits := by
  rcases step_respond hStep with ⟨_, rfl⟩
  intro agree hOutcome
  have hSome : s.coordinator.outcome type = some agree :=
    hOutcome
  simp only [Coordinator.onResponse, hSome]
  exact List.mem_append_right _ (List.mem_singleton.mpr rfl)

/- Where an orderly session can be. -/
theorem decided_of_run
    (hk : 1 ≤ k)
    (hRun : run (step kind k) start es = some s)
    (hOrder :
      Along (step kind k) (Orderly k) start es) :
    Waiting k s ∨ Decided k s := by
  have hStart : Waiting k start :=
    { answered_lt := hk
      timer := rfl
      replies := rfl
      commits := rfl }
  exact (invariant_of_run decided_step
    ⟨counted_start, Or.inl hStart⟩ hRun hOrder).2

/-
  A complete session replies once, with `OK` only after all
  blocks have agreed, and commits at most once, exactly when
  the counter of outstanding requests does not reach zero
  before the loop has sent all and the deadline does not pass
  before the last answer.
-/
theorem exactlyOnce_iff_orderly
    (kind : PrepareKind)
    (k : Nat)
    (schedule : List Event)
    (s : Session)
    (hk : 1 ≤ k)
    (hRun :
      run (step kind k) start schedule = some s)
    (hComplete : Complete k s) :
    ExactlyOnce kind k schedule s ↔
      Along (step kind k) (Orderly k) start
        schedule := by
  constructor
  · intro hOnce
    have hOwed : owed k s = 1 := by
      have hReplies := hOnce.1
      rcases hComplete with ⟨_, hAll, hTimer⟩
      have hNotExpired : s.coordinator.timer ≠ .expired := by
        rcases hTimer with h | h <;> rw [h] <;> decide
      simp [owed, hReplies, hAll, hNotExpired]
    exact along_of_one_reply counted_start
      (Nat.le_of_eq (owed_start hk).symm) hRun hOwed
  · intro hOrder
    have hFinal : Decided k s := by
      rcases decided_of_run hk hRun hOrder with hWait | hDone
      · have hLeft := hWait.answered_lt
        have hAll := hComplete.2.1
        omega
      · exact hDone
    refine ⟨hFinal.replies, Nat.le_of_eq hFinal.commits, ?_⟩
    intro before after t hSplit hBefore hOk
    subst hSplit
    have hPrefix :=
      ((along_append hBefore).mp hOrder).1
    rcases decided_of_run hk hBefore hPrefix with hWait | hDone
    · rw [hWait.replies] at hOk
      cases hOk
    · exact hDone.allAgreed hOk

/-
  Two blocks that agree, the second before the first, after
  both requests have been sent.
-/
theorem exactlyOnce_of_two_agrees :
    ∃ s,
      run (step .single 2) start
          [.send, .send, .respond 1 .twoPcPrepareAgree,
            .respond 0 .twoPcPrepareAgree] = some s ∧
        Complete 2 s ∧
        ExactlyOnce .single 2
          [.send, .send, .respond 1 .twoPcPrepareAgree,
            .respond 0 .twoPcPrepareAgree] s := by
  refine ⟨_, rfl, ⟨rfl, rfl, Or.inl rfl⟩, ?_⟩
  exact (exactlyOnce_iff_orderly .single 2 _ _ (by decide) rfl
    ⟨rfl, rfl, Or.inl rfl⟩).mpr (by decide)

/-
  The first block answers before the loop has sent the second
  request: `OK` goes out, and the second block aborts. With a
  deadline that passes before the answers, the timer's reply
  is followed by the reply of the last answer.
-/
theorem dry_loop_and_deadline_reply_twice :
    (∃ s,
      run (step .single 2) start
          [.send, .respond 0 .twoPcPrepareAgree, .send,
            .respond 1 .twoPcPrepareAbort] = some s ∧
        Complete 2 s ∧
        s.coordinator.replies =
          [Coordinator.okReply,
            Coordinator.pendingReply .single
              .twoPcPrepareAbort] ∧
        s.coordinator.commits = [true, false] ∧
        ¬ ExactlyOnce .single 2
          [.send, .respond 0 .twoPcPrepareAgree, .send,
            .respond 1 .twoPcPrepareAbort] s) ∧
    (∃ s,
      run (step .multiInputs 1) start
          [.send, .deadline, .timer,
            .respond 0 .twoPcPrepareAgree] = some s ∧
        Complete 1 s ∧
        s.coordinator.replies =
          [Coordinator.timeoutReply, Coordinator.okReply] ∧
        ¬ ExactlyOnce .multiInputs 1
          [.send, .deadline, .timer,
            .respond 0 .twoPcPrepareAgree] s) := by
  constructor
  · refine ⟨_, rfl, ⟨rfl, rfl, Or.inl rfl⟩, rfl, rfl, ?_⟩
    intro hOnce
    exact absurd hOnce.1 (by decide)
  · refine ⟨_, rfl, ⟨rfl, rfl, Or.inr rfl⟩, rfl, ?_⟩
    intro hOnce
    exact absurd hOnce.1 (by decide)

----------
-- The Last Decision
----------

/-
  Decisions in any order of events: no commit is sent after a
  rollback, and after the last answer out the last decision
  is what the answers say.
-/
structure Settled (s : Session) : Prop where
  ordered :
    s.coordinator.commits.Pairwise
      (fun a b => b = true → a = true)
  stopped :
    false ∈ s.coordinator.commits →
      s.coordinator.allSsbdAgree = false
  last :
    s.coordinator.outstandingRequests = 0 →
      s.answered ≠ [] →
        s.coordinator.commits.getLast? =
          some s.coordinator.allSsbdAgree

theorem settled_step
    (hCounted : Counted k s)
    (h : Settled s)
    (hStep : step kind k s e = some s') :
    Settled s' := by
  cases e with
  | send =>
      rcases step_send hStep with ⟨_, rfl⟩
      refine ⟨h.ordered, h.stopped, fun hZero _ => ?_⟩
      have hCount := hCounted.outstanding
      have hLe := hCounted.answered_le
      simp only [Coordinator.send] at hZero
      omega
  | deadline =>
      rcases step_deadline hStep with rfl
      exact ⟨h.ordered, h.stopped, h.last⟩
  | timer =>
      rcases step_timer hStep with ⟨_, rfl⟩
      exact ⟨h.ordered, h.stopped, h.last⟩
  | respond index type =>
      rcases step_respond hStep with ⟨_, rfl⟩
      have hStop :
          false ∈ s.coordinator.commits →
            s.coordinator.agreed type = false := by
        intro hMem
        simp [Coordinator.agreed, h.stopped hMem]
      by_cases hOne :
          s.coordinator.outstandingRequests = 1
      · rw [Coordinator.onResponse_of_eq hOne]
        refine ⟨?_, ?_, fun _ _ => by simp⟩
        · refine List.pairwise_append.mpr
            ⟨h.ordered, by simp, ?_⟩
          simp only [List.mem_singleton]
          rintro a ha b rfl hTrue
          by_contra hNot
          rw [Bool.not_eq_true] at hNot
          rw [hStop (hNot ▸ ha)] at hTrue
          cases hTrue
        · intro hMem
          rcases List.mem_append.mp hMem with hOld | hNew
          · exact hStop hOld
          · exact (List.mem_singleton.mp hNew).symm
      · rw [Coordinator.onResponse_of_ne hOne]
        refine ⟨h.ordered, hStop, fun hZero => ?_⟩
        simp only at hZero
        omega

/-
  Whatever the order of sends, answers and timeouts, a write
  of one file sends no commit after a rollback. Once all its
  blocks have answered, the last message of the second round
  is a commit exactly if all of them agreed.

  The answers come over one connection, so they are handled
  one after another. The answers to `multiInputs` come over
  several, and a handler may send its decision late.
-/
theorem last_decision
    (k : Nat)
    (es : List Event)
    (s : Session)
    (hRun :
      run (step .single k) start es = some s) :
    s.coordinator.commits.Pairwise
        (fun a b => b = true → a = true) ∧
      (1 ≤ k → s.answered.length = k →
        ∃ agree,
          s.coordinator.commits.getLast? = some agree ∧
            (agree = true ↔ ∀ p ∈ s.answered,
              p.2 = .twoPcPrepareAgree)) := by
  have hBoth : Counted k s ∧ Settled s := by
    refine invariant_of_any_run
      (I := fun s => Counted k s ∧ Settled s) ?_
      ⟨counted_start, by simp [start, Coordinator.start],
        by simp [start, Coordinator.start],
        fun _ h => absurd rfl h⟩ hRun
    intro s e s' hInv hStep
    exact ⟨counted_step s e s' hInv.1 hStep,
      settled_step hInv.1 hInv.2 hStep⟩
  rcases hBoth with ⟨hCounted, hSettled⟩
  refine ⟨hSettled.ordered, fun hk hAll => ?_⟩
  have hCount := hCounted.outstanding
  have hLe := hCounted.answered_le
  have hSent := hCounted.sent_le
  exact ⟨_, hSettled.last (by omega)
    (List.ne_nil_of_length_pos (by omega)), hCounted.agree⟩

theorem last_decision_of_abort :
    ∃ s,
      run (step .single 2) start
          [.send, .respond 0 .twoPcPrepareAgree, .send,
            .respond 1 .twoPcPrepareAbort] = some s ∧
        s.coordinator.commits.Pairwise
          (fun a b => b = true → a = true) ∧
        ∃ agree,
          s.coordinator.commits.getLast? = some agree ∧
            (agree = true ↔ ∀ p ∈ s.answered,
              p.2 = .twoPcPrepareAgree) := by
  refine ⟨_, rfl, ?_⟩
  have h := last_decision 2
    [.send, .respond 0 .twoPcPrepareAgree, .send,
      .respond 1 .twoPcPrepareAbort] _ rfl
  exact ⟨h.1, h.2 (by decide) rfl⟩

end Session

end Slfs
