import Slfs.DataFunction.Prepare

/-
  Many writes at once.

  Data functions run writes against the same servers. Each
  write has a coordinator, and every message is on its way for
  any time. A data function keeps in its recoder which files
  it has last written without finding a pending log, and sends
  quick prepares for them.

  Main declarations:
    * `Sys`
    * `Sys.stepped_of_step`, what each step does
-/

----------
-- Writes And Their Messages
----------

namespace Slfs

/-
  A write of a data function: the files of its inputs and the
  pieces of its ranges, which are on different blocks.
-/
structure Txn where
  dataFunction : Nat
  kind : PrepareKind
  version : Version
  uuids : List Uuid
  pieces : List Piece
  nonempty : pieces ≠ []
  nodup : (pieces.map Piece.key).Nodup

/- Where the prepare of a piece is. -/
inductive Request where
| unsent
| sent (quick : Bool)
| handled (type : MsgT)
deriving DecidableEq, Repr

namespace Request

def sent? : Request → Option Bool
| .sent quick => some quick
| _ => none

def handled? : Request → Option MsgT
| .handled type => some type
| _ => none

variable {r : Request}

theorem sent?_eq_some
    {quick : Bool} :
    r.sent? = some quick ↔ r = .sent quick := by
  cases r <;> simp [sent?]

theorem handled?_eq_some
    {type : MsgT} :
    r.handled? = some type ↔ r = .handled type := by
  cases r <;> simp [handled?]

end Request

/-
  Messages of a piece: its prepare, and the messages of the
  second round that are on their way and that have been
  handled. The image that the log held when the server had
  answered the prepare is kept for reference.
-/
structure PieceState where
  request : Request
  image : Bytes
  onWay : List Bool
  done : List Bool
deriving DecidableEq, Repr

/- A write in progress. -/
structure Running where
  txn : Txn
  session : Session
  state : Nat → PieceState

namespace Running

def start (txn : Txn) : Running :=
  { txn := txn
    session := Session.start
    state := fun _ => ⟨.unsent, [], [], []⟩ }

/- Number of blocks of the write. -/
def size (r : Running) : Nat := r.txn.pieces.length

/- Step of the coordinator. -/
def stepSession (r : Running) (e : Session.Event) :
    Option Session :=
  Session.step r.txn.kind r.size r.session e

def setPiece (r : Running) (i : Nat) (p : PieceState) :
    Running :=
  { r with state := Function.update r.state i p }

/- Put a message of the second round on its way everywhere. -/
def broadcast (r : Running) (agree : Bool) : Running :=
  { r with
    state := fun i =>
      { r.state i with
        onWay := (r.state i).onWay ++ [agree] } }

end Running

----------
-- The System
----------

structure Sys where
  servers : Cluster
  recoder : Nat → Uuid → Bool
  txns : List Running

namespace Sys

/- New servers, and data functions that have done nothing. -/
def init : Sys :=
  { servers := Cluster.empty
    recoder := fun _ _ => false
    txns := [] }

/- A send shows which kind of prepare was sent. -/
inductive Event where
| start (txn : Txn)
| send (t : Nat) (quick : Bool)
| prepare (t i : Nat)
| response (t i : Nat)
| commit (t i : Nat) (agree : Bool)
| deadline (t : Nat)
| timer (t : Nat)

def setTxn (s : Sys) (t : Nat) (r : Running) : Sys :=
  { s with txns := s.txns.set t r }

/- `mark_checked` and `erase_checked` for the files of a write. -/
def setChecked (s : Sys) (txn : Txn) (checked : Bool) : Sys :=
  { s with
    recoder := fun d uuid =>
      if d = txn.dataFunction ∧ uuid ∈ txn.uuids then checked
      else s.recoder d uuid }

/-
  The coordinator's part of handling an answer: when it was
  the last one out, the recoder is told and the second round
  is sent.
-/
def finish (s : Sys) (t : Nat) (r : Running) :
    Option Bool → Sys
| none => s.setTxn t r
| some agree =>
    (s.setTxn t (r.broadcast agree)).setChecked r.txn agree

variable (conf : StorageConf)

def step (s : Sys) : Event → Option Sys
| .start txn =>
    some { s with txns := s.txns ++ [Running.start txn] }
| .send t quick => do
    let r ← s.txns[t]?
    let i := r.session.coordinator.sent
    let p ← r.txn.pieces[i]?
    let session ← r.stepSession .send
    if quick = s.recoder r.txn.dataFunction p.uuid then
      some (s.setTxn t
        ({ r with session := session }.setPiece i
          { r.state i with request := .sent quick }))
    else
      none
| .prepare t i => do
    let r ← s.txns[t]?
    let p ← r.txn.pieces[i]?
    let quick ← (r.state i).request.sent?
    let (resp, servers) ← s.servers.request conf
      (p.prepareRequest quick r.txn.version)
    some
      ({ s with servers := servers }.setTxn t
        (r.setPiece i
          { r.state i with
            request := .handled resp.header.type
            image := (servers.block conf p.key).log.data }))
| .response t i => do
    let r ← s.txns[t]?
    let type ← (r.state i).request.handled?
    let session ← r.stepSession (.respond i type)
    some (s.finish t { r with session := session }
      (r.session.coordinator.outcome type))
| .commit t i agree => do
    let r ← s.txns[t]?
    let p ← r.txn.pieces[i]?
    if agree ∈ (r.state i).onWay then
      let (_, servers) ← s.servers.request conf
        (p.commitRequest agree r.txn.version)
      some
        ({ s with servers := servers }.setTxn t
          (r.setPiece i
            { r.state i with
              onWay := (r.state i).onWay.erase agree
              done := (r.state i).done ++ [agree] }))
    else
      none
| .deadline t => do
    let r ← s.txns[t]?
    let session ← r.stepSession .deadline
    some (s.setTxn t { r with session := session })
| .timer t => do
    let r ← s.txns[t]?
    let session ← r.stepSession .timer
    some ((s.setTxn t { r with session := session }).setChecked
      r.txn false)

/- A block as its server holds it. -/
def block (s : Sys) (k : BlockKey) : Block :=
  s.servers.block conf k

----------
-- What A Step Does
----------

variable {conf : StorageConf} {s s' : Sys}

@[simp] theorem setTxn_servers
    (t : Nat) (r : Running) :
    (s.setTxn t r).servers = s.servers := rfl

@[simp] theorem setChecked_servers
    (txn : Txn) (checked : Bool) :
    (s.setChecked txn checked).servers = s.servers := rfl

@[simp] theorem setChecked_txns
    (txn : Txn) (checked : Bool) :
    (s.setChecked txn checked).txns = s.txns := rfl

/- The second round is sent, and no server has seen it. -/
@[simp] theorem finish_servers
    (t : Nat) (r : Running) (outcome : Option Bool) :
    (s.finish t r outcome).servers = s.servers := by
  cases outcome <;> rfl

/- Writes other than the one that moved. -/
theorem getElem?_setTxn
    {t : Nat}
    {r : Running}
    (h : s.txns[t]? = some r)
    (r' : Running)
    (u : Nat) :
    (s.setTxn t r').txns[u]? =
      if u = t then some r' else s.txns[u]? := by
  have hLt : t < s.txns.length :=
    (List.getElem?_eq_some_iff.mp h).1
  simp only [setTxn, List.getElem?_set]
  by_cases hEq : t = u
  · subst hEq
    simp [hLt]
  · have hNe : ¬ u = t := fun hu => hEq hu.symm
    simp [hEq, hNe]

/- The write after the coordinator has handled an answer. -/
def finished (r : Running) : Option Bool → Running
| none => r
| some agree => r.broadcast agree

----------
-- Steps By Their Effect
----------

/- What each event does where it can happen. -/
inductive Stepped (conf : StorageConf) (s : Sys) :
    Event → Sys → Prop where
| start
    (txn : Txn) :
    Stepped conf s (.start txn)
      { s with txns := s.txns ++ [Running.start txn] }
| send
    {t : Nat} {quick : Bool} {r : Running} {p : Piece}
    {session : Session}
    (hTxn : s.txns[t]? = some r)
    (hPiece :
      r.txn.pieces[r.session.coordinator.sent]? = some p)
    (hSession : r.stepSession .send = some session)
    (hQuick :
      quick = s.recoder r.txn.dataFunction p.uuid) :
    Stepped conf s (.send t quick)
      (s.setTxn t
        ({ r with session := session }.setPiece
          r.session.coordinator.sent
          { r.state r.session.coordinator.sent with
            request := .sent quick }))
| prepare
    {t i : Nat} {r : Running} {p : Piece} {quick : Bool}
    {resp : Packet} {servers : Cluster}
    (hTxn : s.txns[t]? = some r)
    (hPiece : r.txn.pieces[i]? = some p)
    (hSent : (r.state i).request = .sent quick)
    (hRequest : s.servers.request conf
      (p.prepareRequest quick r.txn.version) =
        some (resp, servers)) :
    Stepped conf s (.prepare t i)
      ({ s with servers := servers }.setTxn t
        (r.setPiece i
          { r.state i with
            request := .handled resp.header.type
            image := (servers.block conf p.key).log.data }))
| response
    {t i : Nat} {r : Running} {type : MsgT}
    {session : Session}
    (hTxn : s.txns[t]? = some r)
    (hHandled : (r.state i).request = .handled type)
    (hSession :
      r.stepSession (.respond i type) = some session) :
    Stepped conf s (.response t i)
      (s.finish t { r with session := session }
        (r.session.coordinator.outcome type))
| commit
    {t i : Nat} {agree : Bool} {r : Running} {p : Piece}
    {resp : Packet} {servers : Cluster}
    (hTxn : s.txns[t]? = some r)
    (hPiece : r.txn.pieces[i]? = some p)
    (hOnWay : agree ∈ (r.state i).onWay)
    (hRequest : s.servers.request conf
      (p.commitRequest agree r.txn.version) =
        some (resp, servers)) :
    Stepped conf s (.commit t i agree)
      ({ s with servers := servers }.setTxn t
        (r.setPiece i
          { r.state i with
            onWay := (r.state i).onWay.erase agree
            done := (r.state i).done ++ [agree] }))
| deadline
    {t : Nat} {r : Running} {session : Session}
    (hTxn : s.txns[t]? = some r)
    (hSession : r.stepSession .deadline = some session) :
    Stepped conf s (.deadline t)
      (s.setTxn t { r with session := session })
| timer
    {t : Nat} {r : Running} {session : Session}
    (hTxn : s.txns[t]? = some r)
    (hSession : r.stepSession .timer = some session) :
    Stepped conf s (.timer t)
      ((s.setTxn t { r with session := session }).setChecked
        r.txn false)

/- The step function takes no other steps. -/
theorem stepped_of_step
    {e : Event}
    (h : s.step conf e = some s') :
    Stepped conf s e s' := by
  cases e with
  | start txn =>
      simp only [step, Option.some.injEq] at h
      exact h ▸ Stepped.start txn
  | send t quick =>
      simp only [step, Option.bind_eq_bind,
        Option.bind_eq_some_iff] at h
      rcases h with
        ⟨r, hTxn, p, hPiece, session, hSession, hRest⟩
      by_cases hQuick :
          quick = s.recoder r.txn.dataFunction p.uuid
      · rw [if_pos hQuick] at hRest
        have hEq := Option.some.inj hRest
        exact hEq ▸ Stepped.send hTxn hPiece hSession hQuick
      · rw [if_neg hQuick] at hRest
        cases hRest
  | prepare t i =>
      simp only [step, Option.bind_eq_bind,
        Option.bind_eq_some_iff, Option.some.injEq,
        Request.sent?_eq_some] at h
      rcases h with
        ⟨r, hTxn, p, hPiece, quick, hSent, ⟨resp, servers⟩,
          hRequest, hEq⟩
      exact hEq ▸ Stepped.prepare hTxn hPiece hSent hRequest
  | response t i =>
      simp only [step, Option.bind_eq_bind,
        Option.bind_eq_some_iff, Option.some.injEq,
        Request.handled?_eq_some] at h
      rcases h with
        ⟨r, hTxn, type, hHandled, session, hSession, hEq⟩
      exact hEq ▸ Stepped.response hTxn hHandled hSession
  | commit t i agree =>
      simp only [step, Option.bind_eq_bind,
        Option.bind_eq_some_iff] at h
      rcases h with ⟨r, hTxn, p, hPiece, hRest⟩
      by_cases hOnWay : agree ∈ (r.state i).onWay
      · simp only [hOnWay, if_true, Option.bind_eq_some_iff,
          Option.some.injEq] at hRest
        rcases hRest with ⟨⟨resp, servers⟩, hRequest, hEq⟩
        exact hEq ▸ Stepped.commit hTxn hPiece hOnWay hRequest
      · simp [hOnWay] at hRest
  | deadline t =>
      simp only [step, Option.bind_eq_bind,
        Option.bind_eq_some_iff, Option.some.injEq] at h
      rcases h with ⟨r, hTxn, session, hSession, hEq⟩
      exact hEq ▸ Stepped.deadline hTxn hSession
  | timer t =>
      simp only [step, Option.bind_eq_bind,
        Option.bind_eq_some_iff, Option.some.injEq] at h
      rcases h with ⟨r, hTxn, session, hSession, hEq⟩
      exact hEq ▸ Stepped.timer hTxn hSession

end Sys

----------
-- Moves Of One Write
----------

namespace Running

/- Events of one write. -/
inductive Event where
| send (quick : Bool)
| prepare (i : Nat)
| response (i : Nat)
| commit (i : Nat) (agree : Bool)
| clock

/- What an event does to the write that it belongs to. -/
inductive Moved (r : Running) : Event → Running → Prop where
| send
    {session : Session}
    (quick : Bool)
    (hSession : r.stepSession .send = some session) :
    Moved r (.send quick)
      ({ r with session := session }.setPiece
        r.session.coordinator.sent
        { r.state r.session.coordinator.sent with
          request := .sent quick })
| prepare
    {i : Nat} {quick : Bool}
    (type : MsgT) (image : Bytes)
    (hSent : (r.state i).request = .sent quick) :
    Moved r (.prepare i)
      (r.setPiece i
        { r.state i with
          request := .handled type, image := image })
| response
    {i : Nat} {type : MsgT} {session : Session}
    (hHandled : (r.state i).request = .handled type)
    (hSession :
      r.stepSession (.respond i type) = some session) :
    Moved r (.response i)
      (Sys.finished { r with session := session }
        (r.session.coordinator.outcome type))
| commit
    {i : Nat} {agree : Bool}
    (hOnWay : agree ∈ (r.state i).onWay) :
    Moved r (.commit i agree)
      (r.setPiece i
        { r.state i with
          onWay := (r.state i).onWay.erase agree
          done := (r.state i).done ++ [agree] })
| deadline
    {session : Session}
    (hSession : r.stepSession .deadline = some session) :
    Moved r .clock { r with session := session }
| timer
    {session : Session}
    (hSession : r.stepSession .timer = some session) :
    Moved r .clock { r with session := session }

/- A write keeps its description. -/
theorem Moved.txn_eq
    {r r' : Running}
    {e : Event}
    (h : Moved r e r') :
    r'.txn = r.txn := by
  cases h with
  | response hHandled hSession =>
      unfold Sys.finished
      cases r.session.coordinator.outcome _ <;> rfl
  | _ => rfl

end Running

namespace Sys

namespace Event

/- The write that an event belongs to. -/
def target : Event → Option (Nat × Running.Event)
| .start _ => none
| .send t quick => some (t, .send quick)
| .prepare t i => some (t, .prepare i)
| .response t i => some (t, .response i)
| .commit t i agree => some (t, .commit i agree)
| .deadline t => some (t, .clock)
| .timer t => some (t, .clock)

end Event

variable {conf : StorageConf} {s s' : Sys} {e : Event}
variable {u : Nat} {r r' : Running}

/- The writes after one of them has moved. -/
theorem txns_of_moved
    {t : Nat}
    {ev : Running.Event}
    {r₁ : Running}
    (hTxn : s.txns[t]? = some r)
    (hTarget : e.target = some (t, ev))
    (hMoved : Running.Moved r ev r₁)
    (hr' : (s.txns.set t r₁)[u]? = some r') :
    ∃ r, s.txns[u]? = some r ∧
      ((r' = r ∧ ∀ ev, e.target ≠ some (u, ev)) ∨
        ∃ ev, e.target = some (u, ev) ∧
          Running.Moved r ev r') := by
  have hGet := getElem?_setTxn hTxn r₁ u
  simp only [setTxn, hr'] at hGet
  by_cases hEq : u = t
  · subst hEq
    rw [if_pos rfl] at hGet
    rw [Option.some.inj hGet]
    exact ⟨r, hTxn, Or.inr ⟨ev, hTarget, hMoved⟩⟩
  · rw [if_neg hEq] at hGet
    refine ⟨r', hGet.symm, Or.inl ⟨rfl, ?_⟩⟩
    intro ev' hOther
    rw [hTarget] at hOther
    cases hOther
    exact hEq rfl

@[simp] theorem finish_txns
    (t : Nat) (r : Running) (outcome : Option Bool) :
    (s.finish t r outcome).txns =
      s.txns.set t (finished r outcome) := by
  cases outcome <;> rfl

/-
  A write after a step has just started, or it is one of the
  writes before the step, moved by the event if it is its
  own.
-/
theorem Stepped.txns
    (h : Stepped conf s e s')
    (hr' : s'.txns[u]? = some r') :
    (∃ txn, e = .start txn ∧ r' = Running.start txn ∧
        u = s.txns.length) ∨
      ∃ r, s.txns[u]? = some r ∧
        ((r' = r ∧ ∀ ev, e.target ≠ some (u, ev)) ∨
          ∃ ev, e.target = some (u, ev) ∧
            Running.Moved r ev r') := by
  cases h with
  | start txn =>
      simp only [List.getElem?_append] at hr'
      by_cases hLt : u < s.txns.length
      · rw [if_pos hLt] at hr'
        exact Or.inr ⟨r', hr', Or.inl
          ⟨rfl, fun ev hEv => by cases hEv⟩⟩
      · rw [if_neg hLt] at hr'
        have hZero : u - s.txns.length = 0 := by
          by_contra hNot
          rw [List.getElem?_eq_none
            (by rw [List.length_singleton]; omega)] at hr'
          cases hr'
        rw [hZero] at hr'
        exact Or.inl ⟨txn, rfl,
          (Option.some.inj hr').symm, by omega⟩
  | send hTxn hPiece hSession hQuick =>
      exact Or.inr (txns_of_moved hTxn rfl
        (Running.Moved.send _ hSession) hr')
  | prepare hTxn hPiece hSent hRequest =>
      exact Or.inr (txns_of_moved hTxn rfl
        (Running.Moved.prepare _ _ hSent) hr')
  | response hTxn hHandled hSession =>
      rw [finish_txns] at hr'
      exact Or.inr (txns_of_moved hTxn rfl
        (Running.Moved.response hHandled hSession) hr')
  | commit hTxn hPiece hOnWay hRequest =>
      exact Or.inr (txns_of_moved hTxn rfl
        (Running.Moved.commit hOnWay) hr')
  | deadline hTxn hSession =>
      exact Or.inr (txns_of_moved hTxn rfl
        (Running.Moved.deadline hSession) hr')
  | timer hTxn hSession =>
      exact Or.inr (txns_of_moved hTxn rfl
        (Running.Moved.timer hSession) hr')

/- Conversely every write is still there after a step. -/
theorem Stepped.exists_txn
    (h : Stepped conf s e s')
    (hr : s.txns[u]? = some r) :
    ∃ r', s'.txns[u]? = some r' ∧
      ((r' = r ∧ ∀ ev, e.target ≠ some (u, ev)) ∨
        ∃ ev, e.target = some (u, ev) ∧
          Running.Moved r ev r') := by
  have hLength : u < s'.txns.length := by
    have hLt : u < s.txns.length :=
      (List.getElem?_eq_some_iff.mp hr).1
    cases h with
    | start txn =>
        rw [List.length_append]
        omega
    | response hTxn hHandled hSession =>
        rw [finish_txns, List.length_set]
        exact hLt
    | _ => simpa [setTxn, setChecked] using hLt
  have hr' := List.getElem?_eq_getElem hLength
  rcases h.txns hr' with ⟨txn, _, _, hNew⟩ | ⟨r₀, hOld, hCase⟩
  · have hLt : u < s.txns.length :=
      (List.getElem?_eq_some_iff.mp hr).1
    omega
  · rw [hr] at hOld
    cases hOld
    exact ⟨_, hr', hCase⟩

end Sys

----------
-- Messages And Coordinators
----------

namespace Running

/-
  The coordinator's counters describe the messages: requests
  behind the send loop are not sent yet, and what it has
  counted as answered a server has answered.
-/
structure Tracked (r : Running) : Prop where
  counted : Session.Counted r.size r.session
  unsent :
    ∀ i, r.session.coordinator.sent ≤ i →
      (r.state i).request = .unsent
  answered :
    ∀ i type, (i, type) ∈ r.session.answered →
      (r.state i).request = .handled type

/- Nothing of a new write has been sent. -/
theorem tracked_start
    (txn : Txn) :
    Tracked (start txn) where
  counted := Session.counted_start
  unsent := fun _ _ => rfl
  answered := by simp [start, Session.start]

section

variable (r : Running)

/- Each piece has messages of its own. -/
@[simp] theorem setPiece_state
    (i j : Nat)
    (p : PieceState) :
    (r.setPiece i p).state j =
      if j = i then p else r.state j := by
  simp [setPiece, Function.update_apply]

@[simp] theorem setPiece_session
    (i : Nat)
    (p : PieceState) :
    (r.setPiece i p).session = r.session := rfl

@[simp] theorem setPiece_txn
    (i : Nat)
    (p : PieceState) :
    (r.setPiece i p).txn = r.txn := rfl

section

variable (outcome : Option Bool)

/- The second round is no business of the coordinator. -/
@[simp] theorem finished_session :
    (Sys.finished r outcome).session = r.session := by
  cases outcome <;> rfl

@[simp] theorem finished_txn :
    (Sys.finished r outcome).txn = r.txn := by
  cases outcome <;> rfl

/- Nor does it change what was asked and answered. -/
@[simp] theorem finished_request
    (i : Nat) :
    ((Sys.finished r outcome).state i).request =
      (r.state i).request := by
  cases outcome <;> rfl

@[simp] theorem finished_image
    (i : Nat) :
    ((Sys.finished r outcome).state i).image =
      (r.state i).image := by
  cases outcome <;> rfl

@[simp] theorem finished_done
    (i : Nat) :
    ((Sys.finished r outcome).state i).done =
      (r.state i).done := by
  cases outcome <;> rfl

end

end

variable {r : Running}

/- A prepare is sent, handled and counted in this order. -/
theorem Tracked.moved
    {r' : Running}
    {e : Event}
    (h : Tracked r)
    (hMoved : Moved r e r') :
    Tracked r' := by
  cases hMoved with
  | send quick hSession =>
      have hCounted :=
        Session.counted_step _ _ _ h.counted hSession
      rcases Session.step_send hSession with ⟨_, rfl⟩
      refine
        { counted := hCounted
          unsent := ?_
          answered := ?_ }
      · intro i hi
        have hLt : r.session.coordinator.sent < i := hi
        have hNe : i ≠ r.session.coordinator.sent := by omega
        simpa [hNe] using h.unsent i (Nat.le_of_lt hLt)
      · intro i type hMem
        have hLt := h.counted.index_lt _ hMem
        have hNe : i ≠ r.session.coordinator.sent :=
          Nat.ne_of_lt hLt
        simpa [hNe] using h.answered i type hMem
  | @prepare i quick type image hSent =>
      refine
        { counted := h.counted
          unsent := ?_
          answered := ?_ }
      · intro j hj
        have hOld := h.unsent j hj
        by_cases hEq : j = i
        · rw [hEq, hSent] at hOld
          cases hOld
        · simpa [hEq] using hOld
      · intro j type' hMem
        have hOld := h.answered j type' hMem
        by_cases hEq : j = i
        · rw [hEq, hSent] at hOld
          cases hOld
        · simpa [hEq] using hOld
  | @response i type session hHandled hSession =>
      have hCounted :=
        Session.counted_step _ _ _ h.counted hSession
      rcases Session.step_respond hSession with ⟨_, rfl⟩
      refine
        { counted := by simpa [size] using hCounted
          unsent := ?_
          answered := ?_ }
      · intro j hj
        simp only [finished_request]
        exact h.unsent j (by simpa using hj)
      · intro j type' hMem
        simp only [finished_request]
        simp only [finished_session, List.mem_append,
          List.mem_singleton, Prod.mk.injEq] at hMem
        rcases hMem with hOld | ⟨hj, hType⟩
        · exact h.answered j type' hOld
        · rw [hj, hType]
          exact hHandled
  | @commit i agree hOnWay =>
      refine
        { counted := h.counted
          unsent := ?_
          answered := ?_ }
      · intro j hj
        have hOld := h.unsent j hj
        by_cases hEq : j = i
        · simpa [hEq] using hEq ▸ hOld
        · simpa [hEq] using hOld
      · intro j type' hMem
        have hOld := h.answered j type' hMem
        by_cases hEq : j = i
        · simpa [hEq] using hEq ▸ hOld
        · simpa [hEq] using hOld
  | deadline hSession =>
      have hCounted :=
        Session.counted_step _ _ _ h.counted hSession
      rcases Session.step_deadline hSession with rfl
      exact
        { counted := hCounted
          unsent := h.unsent
          answered := h.answered }
  | timer hSession =>
      have hCounted :=
        Session.counted_step _ _ _ h.counted hSession
      rcases Session.step_timer hSession with ⟨_, rfl⟩
      exact
        { counted := hCounted
          unsent := h.unsent
          answered := h.answered }

/- With a prepare on its way not all blocks have answered. -/
theorem Tracked.answered_lt_of_sent
    {i : Nat}
    {quick : Bool}
    (h : Tracked r)
    (hi : i < r.size)
    (hSent : (r.state i).request = .sent quick) :
    r.session.answered.length < r.size := by
  by_contra hNot
  have hAll : r.session.answered.length = r.size := by
    have hAnswered := h.counted.answered_le
    have hLe := h.counted.sent_le
    omega
  rcases h.counted.exists_answer hAll i hi with ⟨type, hMem⟩
  have hHandled := h.answered i type hMem
  rw [hSent] at hHandled
  cases hHandled

end Running

namespace Sys

variable {conf : StorageConf} {s s' : Sys} {e : Event}

/- Every write is tracked. -/
def Tracked (s : Sys) : Prop :=
  ∀ (t : Nat) (r : Running),
    s.txns[t]? = some r → Running.Tracked r

theorem tracked_init : Tracked init := by
  intro t r h
  simp [init] at h

/- Writes that did not move are as they were. -/
theorem Tracked.stepped
    (h : Tracked s)
    (hStep : Stepped conf s e s') :
    Tracked s' := by
  intro u r' hr'
  rcases hStep.txns hr' with
    ⟨txn, _, rfl, _⟩ | ⟨r, hr, ⟨rfl, _⟩ | ⟨ev, _, hMoved⟩⟩
  · exact Running.tracked_start txn
  · exact h u r' hr
  · exact (h u r hr).moved hMoved

end Sys

end Slfs
