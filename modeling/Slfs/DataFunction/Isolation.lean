import Slfs.DataFunction.System

/-
  Isolation of concurrent writes.

  A server that has agreed to a prepare holds the write's
  image until the second message of the write arrives: the
  write has a lock on the block. A rollback goes to all
  blocks of a write, also to those that did not agree.
  `Sys.Isolated` asks that it meets no other write's lock,
  and that no coordinator runs dry while it is sending.

  Main declarations:
    * `Sys.Isolated`
    * `Sys.isolation_of_isolated`
-/

----------
-- Locks
----------

namespace Slfs

open Transition

/- A block that has agreed to a write, and the logged image. -/
structure Lock where
  key : BlockKey
  version : Version
  image : Bytes
deriving DecidableEq, Repr

namespace Running

/- The lock that a write has through one of its pieces. -/
def lock (r : Running) (i : Nat) : Option Lock :=
  match r.txn.pieces[i]? with
  | none => none
  | some p =>
      if (r.state i).request = .handled .twoPcPrepareAgree ∧
          (r.state i).done = [] then
        some ⟨p.key, r.txn.version, (r.state i).image⟩
      else
        none

/- The block and version of a piece whose write is over. -/
def ended (r : Running) (i : Nat) :
    Option (BlockKey × Version) :=
  match r.txn.pieces[i]? with
  | none => none
  | some p =>
      if (r.state i).done = [] then none
      else some (p.key, r.txn.version)

variable {r r' : Running} {i j : Nat} {e : Event}

theorem lock_eq_some
    {l : Lock} :
    r.lock i = some l ↔
      ∃ p, r.txn.pieces[i]? = some p ∧
        (r.state i).request = .handled .twoPcPrepareAgree ∧
        (r.state i).done = [] ∧
        l = ⟨p.key, r.txn.version, (r.state i).image⟩ := by
  unfold lock
  cases hPiece : r.txn.pieces[i]? with
  | none => simp
  | some p =>
      by_cases hHeld :
          (r.state i).request = .handled .twoPcPrepareAgree ∧
            (r.state i).done = []
      · simp only [hHeld, and_self, if_true, Option.some.injEq,
          true_and, exists_eq_left']
        exact ⟨Eq.symm, Eq.symm⟩
      · constructor
        · intro h
          simp [hHeld] at h
        · rintro ⟨_, _, hRequest, hDone, _⟩
          exact absurd ⟨hRequest, hDone⟩ hHeld

/- Locks and endings depend on the piece's own messages. -/
theorem lock_congr
    (hTxn : r'.txn = r.txn)
    (hState : r'.state i = r.state i) :
    r'.lock i = r.lock i := by
  unfold lock
  rw [hTxn, hState]

theorem ended_congr
    (hTxn : r'.txn = r.txn)
    (hDone : (r'.state i).done = (r.state i).done) :
    r'.ended i = r.ended i := by
  unfold ended
  rw [hTxn, hDone]

/- A piece whose prepare has not been handled has no lock. -/
theorem lock_eq_none
    (h : ∀ type, (r.state i).request ≠ .handled type) :
    r.lock i = none := by
  cases hLock : r.lock i with
  | none => rfl
  | some l =>
      rcases lock_eq_some.mp hLock with ⟨_, _, hRequest, _⟩
      exact absurd hRequest (h _)

/-
  A piece's lock changes when its prepare is handled and when
  its second message is handled, at no other time.
-/
theorem Moved.lock_eq
    (hTracked : Tracked r)
    (hMoved : Moved r e r')
    (hPrepare : e ≠ .prepare j)
    (hCommit : ∀ agree, e ≠ .commit j agree) :
    r'.lock j = r.lock j := by
  have hTxn := hMoved.txn_eq
  cases hMoved with
  | send quick hSession =>
      by_cases hEq : j = r.session.coordinator.sent
      · have hUnsent := hTracked.unsent j (Nat.le_of_eq hEq.symm)
        rw [lock_eq_none (r := r)
            (fun type h => by rw [hUnsent] at h; cases h),
          lock_eq_none (fun type h => by simp [hEq] at h)]
      · exact lock_congr hTxn (by simp [hEq])
  | @prepare i quick type image hSent =>
      have hNe : j ≠ i := fun h => hPrepare (h ▸ rfl)
      exact lock_congr hTxn (by simp [hNe])
  | @response i type session hHandled hSession =>
      unfold lock
      rw [hTxn]
      simp only [finished_request, finished_done,
        finished_image]
  | @commit i agree hOnWay =>
      have hNe : j ≠ i := fun h => hCommit agree (h ▸ rfl)
      exact lock_congr hTxn (by simp [hNe])
  | deadline hSession => exact lock_congr hTxn rfl
  | timer hSession => exact lock_congr hTxn rfl

theorem Moved.ended_eq
    (hMoved : Moved r e r')
    (hCommit : ∀ agree, e ≠ .commit j agree) :
    r'.ended j = r.ended j := by
  have hTxn := hMoved.txn_eq
  cases hMoved with
  | send quick hSession =>
      refine ended_congr hTxn ?_
      by_cases hEq : j = r.session.coordinator.sent
      · simp [hEq]
      · simp [hEq]
  | @prepare i quick type image hSent =>
      refine ended_congr hTxn ?_
      by_cases hEq : j = i
      · simp [hEq]
      · simp [hEq]
  | @response i type session hHandled hSession =>
      exact ended_congr hTxn (by simp)
  | @commit i agree hOnWay =>
      have hNe : j ≠ i := fun h => hCommit agree (h ▸ rfl)
      exact ended_congr hTxn (by simp [hNe])
  | deadline hSession => exact ended_congr hTxn rfl
  | timer hSession => exact ended_congr hTxn rfl

end Running

namespace Sys

def lock (s : Sys) (t i : Nat) : Option Lock :=
  match s.txns[t]? with
  | none => none
  | some r => r.lock i

def ended (s : Sys) (t i : Nat) :
    Option (BlockKey × Version) :=
  match s.txns[t]? with
  | none => none
  | some r => r.ended i

variable {conf : StorageConf} {s s' : Sys} {e : Event}
variable {t : Nat} {r : Running}

theorem lock_of_txn
    (h : s.txns[t]? = some r)
    (i : Nat) :
    s.lock t i = r.lock i := by
  simp [lock, h]

theorem ended_of_txn
    (h : s.txns[t]? = some r)
    (i : Nat) :
    s.ended t i = r.ended i := by
  simp [ended, h]

/- A write that has just started has no messages yet. -/
theorem Stepped.txns_of_none
    (h : Stepped conf s e s')
    (hNone : s.txns[t]? = none) :
    s'.txns[t]? = none ∨
      ∃ txn, e = .start txn ∧
        s'.txns[t]? = some (Running.start txn) := by
  cases hSome : s'.txns[t]? with
  | none => exact Or.inl rfl
  | some r' =>
      rcases h.txns hSome with
        ⟨txn, hStart, rfl, _⟩ | ⟨r, hr, _⟩
      · exact Or.inr ⟨txn, hStart, rfl⟩
      · rw [hNone] at hr
        cases hr

theorem Stepped.lock_eq
    (hTracked : Tracked s)
    (h : Stepped conf s e s')
    {i : Nat}
    (hPrepare : e.target ≠ some (t, .prepare i))
    (hCommit : ∀ agree, e.target ≠ some (t, .commit i agree)) :
    s'.lock t i = s.lock t i := by
  cases hTxn : s.txns[t]? with
  | none =>
      rcases h.txns_of_none hTxn with
        hNone | ⟨txn, _, hStart⟩
      · simp [lock, hTxn, hNone]
      · rw [lock_of_txn hStart]
        simp only [lock, hTxn]
        exact Running.lock_eq_none (fun type hType => by
          cases hType)
  | some r =>
      rcases h.exists_txn hTxn with ⟨r', hr', hCase⟩
      rw [lock_of_txn hTxn, lock_of_txn hr']
      rcases hCase with ⟨rfl, _⟩ | ⟨ev, hTarget, hMoved⟩
      · rfl
      · refine hMoved.lock_eq (hTracked t r hTxn) ?_ ?_
        · rintro rfl
          exact hPrepare hTarget
        · rintro agree rfl
          exact hCommit agree hTarget

theorem Stepped.ended_eq
    (h : Stepped conf s e s')
    {i : Nat}
    (hCommit : ∀ agree, e.target ≠ some (t, .commit i agree)) :
    s'.ended t i = s.ended t i := by
  cases hTxn : s.txns[t]? with
  | none =>
      rcases h.txns_of_none hTxn with
        hNone | ⟨txn, _, hStart⟩
      · simp [ended, hTxn, hNone]
      · rw [ended_of_txn hStart]
        simp only [ended, hTxn, Running.ended, Running.start]
        split <;> simp
  | some r =>
      rcases h.exists_txn hTxn with ⟨r', hr', hCase⟩
      rw [ended_of_txn hTxn, ended_of_txn hr']
      rcases hCase with ⟨rfl, _⟩ | ⟨ev, hTarget, hMoved⟩
      · rfl
      · refine hMoved.ended_eq ?_
        rintro agree rfl
        exact hCommit agree hTarget

end Sys

----------
-- One Round Of Second Messages
----------

namespace Running

/-
  A write with plain prepares whose second round is sent once
  all blocks have answered: before that no piece has a second
  message, after it each has one, on its way or handled.
-/
structure InRound (r : Running) : Prop where
  tracked : Tracked r
  plain :
    ∀ i quick, (r.state i).request = .sent quick →
      quick = false
  round :
    (r.session.answered.length < r.size ∧
      ∀ i, (r.state i).onWay = [] ∧ (r.state i).done = []) ∨
    (r.session.answered.length = r.size ∧
      ∀ i,
        ((r.state i).onWay =
            [r.session.coordinator.allSsbdAgree] ∧
          (r.state i).done = []) ∨
        ((r.state i).onWay = [] ∧
          (r.state i).done =
            [r.session.coordinator.allSsbdAgree]))

theorem inRound_start
    (txn : Txn) :
    InRound (start txn) where
  tracked := tracked_start txn
  plain := fun _ _ h => by cases h
  round := by
    left
    refine ⟨?_, fun _ => ⟨rfl, rfl⟩⟩
    exact List.length_pos_of_ne_nil txn.nonempty

variable {r : Running} {i : Nat}

/- Handling an answer keeps the rounds apart. -/
theorem InRound.response
    {type : MsgT}
    {session : Session}
    (h : InRound r)
    (hSession :
      r.stepSession (.respond i type) = some session)
    (hAhead : Session.Ahead r.size r.session) :
    (session.answered.length < r.size ∧
        r.session.coordinator.outcome type = none ∧
        ∀ j, (r.state j).onWay = [] ∧ (r.state j).done = []) ∨
      (session.answered.length = r.size ∧
        r.session.coordinator.outcome type =
          some session.coordinator.allSsbdAgree ∧
        ∀ j, (r.state j).onWay = [] ∧
          (r.state j).done = []) := by
  rcases Session.step_respond hSession with
    ⟨⟨hSent, hNew⟩, rfl⟩
  have hCounted := h.tracked.counted
  have hLt := hCounted.answered_lt hSent hNew
  have hLe := hCounted.sent_le
  have hCount := hCounted.outstanding
  have hFresh :
      ∀ j, (r.state j).onWay = [] ∧ (r.state j).done = [] := by
    rcases h.round with ⟨_, hEmpty⟩ | ⟨hAll, _⟩
    · exact hEmpty
    · omega
  simp only [List.length_append, List.length_singleton,
    Coordinator.onResponse_allSsbdAgree]
  unfold Session.Ahead at hAhead
  by_cases hOne : r.session.coordinator.outstandingRequests = 1
  · right
    refine ⟨by omega, ?_, hFresh⟩
    simp [Coordinator.outcome, hOne]
  · left
    refine ⟨by omega, ?_, hFresh⟩
    have hNot :
        ¬ r.session.coordinator.outstandingRequests - 1 = 0 := by
      omega
    simp [Coordinator.outcome, hNot]

theorem InRound.moved
    {r' : Running}
    {e : Event}
    (h : InRound r)
    (hMoved : Moved r e r')
    (hPlain : ∀ quick, e = .send quick → quick = false)
    (hAhead :
      ∀ i, e = .response i → Session.Ahead r.size r.session) :
    InRound r' := by
  have hTracked := h.tracked.moved hMoved
  cases hMoved with
  | send quick hSession =>
      rcases Session.step_send hSession with ⟨_, rfl⟩
      refine { tracked := hTracked, plain := ?_, round := ?_ }
      · intro i quick' hSent
        by_cases hEq : i = r.session.coordinator.sent
        · simp only [setPiece_state, hEq, if_true,
            Request.sent.injEq] at hSent
          rw [← hSent]
          exact hPlain quick rfl
        · simp only [setPiece_state, hEq, if_false] at hSent
          exact h.plain i quick' hSent
      · have hState :
            ∀ i, (if i = r.session.coordinator.sent then
                { r.state r.session.coordinator.sent with
                  request := .sent quick }
              else r.state i).onWay = (r.state i).onWay ∧
            (if i = r.session.coordinator.sent then
                { r.state r.session.coordinator.sent with
                  request := .sent quick }
              else r.state i).done = (r.state i).done := by
          intro i
          by_cases hEq : i = r.session.coordinator.sent
          · simp [hEq]
          · simp [hEq]
        simp only [setPiece_state, hState]
        exact h.round
  | @prepare i quick type image hSent =>
      refine { tracked := hTracked, plain := ?_, round := ?_ }
      · intro j quick' hSent'
        by_cases hEq : j = i
        · simp [hEq] at hSent'
        · simp only [setPiece_state, hEq, if_false] at hSent'
          exact h.plain j quick' hSent'
      · have hState :
            ∀ j, (if j = i then
                { r.state i with
                  request := .handled type, image := image }
              else r.state j).onWay = (r.state j).onWay ∧
            (if j = i then
                { r.state i with
                  request := .handled type, image := image }
              else r.state j).done = (r.state j).done := by
          intro j
          by_cases hEq : j = i
          · simp [hEq]
          · simp [hEq]
        simp only [setPiece_state, hState]
        exact h.round
  | @response i type session hHandled hSession =>
      refine { tracked := hTracked, plain := ?_, round := ?_ }
      · intro j quick hSent
        rw [finished_request] at hSent
        exact h.plain j quick hSent
      · rcases h.response hSession (hAhead i rfl) with
          ⟨hLeft, hNone, hFresh⟩ | ⟨hAll, hSome, hFresh⟩
        · rw [hNone]
          exact Or.inl ⟨hLeft, hFresh⟩
        · rw [hSome]
          refine Or.inr ⟨hAll, fun j => Or.inl ?_⟩
          simp [Sys.finished, broadcast, hFresh j]
  | @commit i agree hOnWay =>
      refine { tracked := hTracked, plain := ?_, round := ?_ }
      · intro j quick hSent
        by_cases hEq : j = i
        · simp only [setPiece_state, hEq, if_true] at hSent
          exact h.plain i quick hSent
        · simp only [setPiece_state, hEq, if_false] at hSent
          exact h.plain j quick hSent
      · rcases h.round with ⟨_, hEmpty⟩ | ⟨hAll, hEach⟩
        · rw [(hEmpty i).1] at hOnWay
          cases hOnWay
        · right
          refine ⟨hAll, fun j => ?_⟩
          by_cases hEq : j = i
          · subst hEq
            rcases hEach j with ⟨hWay, hDone⟩ | ⟨hWay, _⟩
            · right
              rw [hWay, List.mem_singleton] at hOnWay
              simp [hWay, hDone, hOnWay]
            · rw [hWay] at hOnWay
              cases hOnWay
          · simpa [hEq] using hEach j
  | deadline hSession =>
      rcases Session.step_deadline hSession with rfl
      exact
        { tracked := hTracked
          plain := h.plain
          round := h.round }
  | timer hSession =>
      rcases Session.step_timer hSession with ⟨_, rfl⟩
      exact
        { tracked := hTracked
          plain := h.plain
          round := h.round }

/- A prepare on its way has had no second message. -/
theorem InRound.done_of_sent
    {quick : Bool}
    (h : InRound r)
    (hi : i < r.size)
    (hSent : (r.state i).request = .sent quick) :
    (r.state i).done = [] := by
  have hLeft := h.tracked.answered_lt_of_sent hi hSent
  rcases h.round with ⟨_, hEmpty⟩ | ⟨hAll, _⟩
  · exact (hEmpty i).2
  · omega

/-
  A second message on its way: all blocks have answered, and
  it tells whether all of them agreed.
-/
theorem InRound.of_onWay
    {agree : Bool}
    (h : InRound r)
    (hOnWay : agree ∈ (r.state i).onWay) :
    (r.state i).done = [] ∧
      (agree = true ↔
        ∀ j < r.size,
          (r.state j).request =
            .handled .twoPcPrepareAgree) := by
  rcases h.round with ⟨_, hEmpty⟩ | ⟨hAll, hEach⟩
  · rw [(hEmpty i).1] at hOnWay
    cases hOnWay
  · rcases hEach i with ⟨hWay, hDone⟩ | ⟨hWay, _⟩
    · rw [hWay, List.mem_singleton] at hOnWay
      refine ⟨hDone, ?_⟩
      rw [hOnWay, h.tracked.counted.agree]
      constructor
      · intro hAgree j hj
        rcases h.tracked.counted.exists_answer hAll j hj with
          ⟨type, hMem⟩
        have hType : type = .twoPcPrepareAgree :=
          hAgree _ hMem
        exact hType ▸ h.tracked.answered j type hMem
      · rintro hHandled ⟨j, type⟩ hMem
        have hj : j < r.size :=
          Nat.lt_of_lt_of_le
            (h.tracked.counted.index_lt _ hMem)
            h.tracked.counted.sent_le
        have hAnswer := h.tracked.answered j type hMem
        rw [hHandled j hj] at hAnswer
        exact (Request.handled.inj hAnswer).symm
    · rw [hWay] at hOnWay
      cases hOnWay

end Running

----------
-- Runs That Keep Writes Apart
----------

namespace Sys

/-
  Versions are distinct and not zero, and prepares are plain.
  Answers are handled while the send loop is ahead of them. A
  rollback reaches a block while no other write has a lock on
  it.
-/
def Isolated (s : Sys) : Event → Prop
| .start txn =>
    txn.version ≠ 0 ∧
      ∀ r ∈ s.txns, r.txn.version ≠ txn.version
| .send _ quick => quick = false
| .response t _ =>
    ∀ r, s.txns[t]? = some r →
      Session.Ahead r.size r.session
| .commit t i false =>
    ∀ r p, s.txns[t]? = some r →
      r.txn.pieces[i]? = some p →
      ∀ u j l, u ≠ t → s.lock u j = some l → l.key ≠ p.key
| _ => True

/- Writes that have their own versions, each in its round. -/
structure Rounds (s : Sys) : Prop where
  inRound :
    ∀ (t : Nat) (r : Running), s.txns[t]? = some r →
      Running.InRound r
  version_ne :
    ∀ (t : Nat) (r : Running), s.txns[t]? = some r →
      r.txn.version ≠ 0
  distinct :
    ∀ (t u : Nat) (r r' : Running),
      s.txns[t]? = some r → s.txns[u]? = some r' →
      r.txn.version = r'.txn.version → t = u

/-
  The blocks of the servers and the locks agree: a block has
  one lock at most, a locked block has the image of its lock
  pending, and a block without a lock has nothing pending.
-/
structure Locked (conf : StorageConf) (s : Sys) : Prop where
  unique :
    ∀ t i l u j m, s.lock t i = some l →
      s.lock u j = some m → l.key = m.key → t = u
  held :
    ∀ t i l, s.lock t i = some l →
      (s.block conf l.key).content ≠ none ∧
      (s.block conf l.key).log.pending = l.version ∧
      (s.block conf l.key).log.data = l.image ∧
      (s.block conf l.key).log.committed ≠ l.version
  free :
    ∀ k, (∀ t i l, s.lock t i = some l → l.key ≠ k) →
      (s.block conf k).created.havePending = false
  committed :
    ∀ k, (s.block conf k).log.committed = 0 ∨
      ∃ t i, s.ended t i =
        some (k, (s.block conf k).log.committed)

variable {conf : StorageConf} {s s' : Sys} {e : Event}

theorem Rounds.tracked
    (h : Rounds s) :
    Tracked s :=
  fun t r hr => (h.inRound t r hr).tracked

theorem rounds_init : Rounds init where
  inRound := fun t r h => by simp [init] at h
  version_ne := fun t r h => by simp [init] at h
  distinct := fun t u r r' h => by simp [init] at h

theorem locked_init : Locked conf init where
  unique := fun t i l u j m h => by simp [lock, init] at h
  held := fun t i l h => by simp [lock, init] at h
  free := fun k _ => rfl
  committed := fun k => Or.inl rfl

/- The version of a write after a step. -/
theorem Stepped.version
    (h : Stepped conf s e s')
    {u : Nat}
    {r' : Running}
    (hr' : s'.txns[u]? = some r') :
    (∃ txn, e = .start txn ∧ r'.txn = txn ∧
        u = s.txns.length) ∨
      ∃ r, s.txns[u]? = some r ∧ r'.txn = r.txn := by
  rcases h.txns hr' with
    ⟨txn, hStart, rfl, hNew⟩ |
      ⟨r, hr, ⟨rfl, _⟩ | ⟨ev, _, hMoved⟩⟩
  · exact Or.inl ⟨txn, hStart, rfl, hNew⟩
  · exact Or.inr ⟨r', hr, rfl⟩
  · exact Or.inr ⟨r, hr, hMoved.txn_eq⟩

theorem Rounds.stepped
    (h : Rounds s)
    (hStep : Stepped conf s e s')
    (hIsolated : Isolated s e) :
    Rounds s' := by
  refine { inRound := ?_, version_ne := ?_, distinct := ?_ }
  · intro u r' hr'
    rcases hStep.txns hr' with
      ⟨txn, _, rfl, _⟩ |
        ⟨r, hr, ⟨rfl, _⟩ | ⟨ev, hTarget, hMoved⟩⟩
    · exact Running.inRound_start txn
    · exact h.inRound u r' hr
    · refine (h.inRound u r hr).moved hMoved ?_ ?_
      · rintro quick rfl
        cases e with
        | send t quick' =>
            cases hTarget
            exact hIsolated
        | _ => cases hTarget
      · rintro i rfl
        cases e with
        | response t i' =>
            cases hTarget
            exact hIsolated r hr
        | _ => cases hTarget
  · intro u r' hr'
    rcases hStep.version hr' with
      ⟨txn, rfl, hTxn, _⟩ | ⟨r, hr, hTxn⟩
    · rw [hTxn]
      exact hIsolated.1
    · rw [hTxn]
      exact h.version_ne u r hr
  · intro t u r r' hr hr' hVersion
    rcases hStep.version hr with
      ⟨txn, hStart, hTxn, hNew⟩ | ⟨q, hq, hTxn⟩
    · rcases hStep.version hr' with
        ⟨txn', _, _, hNew'⟩ | ⟨q', hq', hTxn'⟩
      · rw [hNew, hNew']
      · subst hStart
        rw [hTxn, hTxn'] at hVersion
        exact absurd hVersion.symm
          (hIsolated.2 q' (List.mem_of_getElem? hq'))
    · rcases hStep.version hr' with
        ⟨txn', hStart', hTxn', _⟩ | ⟨q', hq', hTxn'⟩
      · subst hStart'
        rw [hTxn, hTxn'] at hVersion
        exact absurd hVersion
          (hIsolated.2 q (List.mem_of_getElem? hq))
      · rw [hTxn, hTxn'] at hVersion
        exact h.distinct t u q q' hq hq' hVersion

/- Steps that leave the blocks and the locks alone. -/
theorem Locked.of_same
    (h : Locked conf s)
    (hBlock : ∀ k, s'.block conf k = s.block conf k)
    (hLock : ∀ t i, s'.lock t i = s.lock t i)
    (hEnded : ∀ t i, s'.ended t i = s.ended t i) :
    Locked conf s' where
  unique := by
    simp only [hLock]
    exact h.unique
  held := by
    simp only [hLock, hBlock]
    exact h.held
  free := by
    simp only [hLock, hBlock]
    exact h.free
  committed := by
    simp only [hEnded, hBlock]
    exact h.committed

variable {l : Lock}

/- A locked block has an image pending. -/
theorem Locked.havePending
    (h : Locked conf s)
    (hRounds : Rounds s)
    {t i : Nat}
    (hLock : s.lock t i = some l) :
    (s.block conf l.key).created = s.block conf l.key ∧
      (s.block conf l.key).created.havePending = true := by
  rcases h.held t i l hLock with
    ⟨hContent, hPending, _, hCommitted⟩
  have hCreated :
      (s.block conf l.key).created = s.block conf l.key := by
    unfold Block.created
    cases hSome : (s.block conf l.key).content with
    | none => exact absurd hSome hContent
    | some bytes => rfl
  have hVersion : l.version ≠ 0 := by
    cases hTxn : s.txns[t]? with
    | none => simp [lock, hTxn] at hLock
    | some r =>
        rw [lock_of_txn hTxn] at hLock
        rcases Running.lock_eq_some.mp hLock with
          ⟨_, _, _, _, rfl⟩
        exact hRounds.version_ne t r hTxn
  refine ⟨hCreated, ?_⟩
  rw [hCreated]
  simp [Block.havePending, LogEntry.havePending, hPending,
    hVersion, Ne.symm hCommitted]

/- Pieces of one write on one block are the same piece. -/
theorem index_eq_of_key
    {r : Running}
    {i j : Nat}
    {p q : Piece}
    (hp : r.txn.pieces[i]? = some p)
    (hq : r.txn.pieces[j]? = some q)
    (hKey : p.key = q.key) :
    i = j := by
  have hi : (r.txn.pieces.map Piece.key)[i]? = some p.key := by
    simp [hp]
  have hj : (r.txn.pieces.map Piece.key)[j]? = some p.key := by
    simp [hq, hKey]
  have hLt : i < (r.txn.pieces.map Piece.key).length :=
    (List.getElem?_eq_some_iff.mp hi).1
  exact (List.getElem?_inj hLt r.txn.nodup).mp
    (hi.trans hj.symm)

----------
-- Prepares Take Locks
----------

variable {t i : Nat} {r r' : Running} {p : Piece}

/- The committed version of a block is of another write. -/
theorem Locked.committed_ne
    (h : Locked conf s)
    (hRounds : Rounds s)
    (hTxn : s.txns[t]? = some r)
    (hPiece : r.txn.pieces[i]? = some p)
    (hDone : (r.state i).done = []) :
    (s.block conf p.key).created.log.committed ≠
      r.txn.version := by
  have hVersion := hRounds.version_ne t r hTxn
  have hOwn :
      (s.block conf p.key).log.committed ≠ r.txn.version := by
    rcases h.committed p.key with hZero | ⟨u, j, hEnded⟩
    · rw [hZero]
      exact Ne.symm hVersion
    · intro hEq
      cases hOther : s.txns[u]? with
      | none => simp [ended, hOther] at hEnded
      | some q =>
          rw [ended_of_txn hOther] at hEnded
          unfold Running.ended at hEnded
          cases hPiece' : q.txn.pieces[j]? with
          | none => simp [hPiece'] at hEnded
          | some p' =>
              by_cases hDone' : (q.state j).done = []
              · simp [hPiece', hDone'] at hEnded
              · simp only [hPiece', hDone', if_false,
                  Option.some.injEq, Prod.mk.injEq] at hEnded
                have hSame : u = t :=
                  hRounds.distinct u t q r hOther hTxn
                    (hEnded.2.trans hEq)
                subst hSame
                rw [hTxn] at hOther
                cases hOther
                have hIndex :=
                  index_eq_of_key hPiece' hPiece hEnded.1
                subst hIndex
                exact hDone' hDone
  unfold Block.created
  cases (s.block conf p.key).content with
  | none => exact Ne.symm hVersion
  | some bytes => exact hOwn

/- An aborted prepare changes nothing. -/
theorem Locked.prepare_abort
    (h : Locked conf s)
    (hRounds : Rounds s)
    (hStep : Stepped conf s (.prepare t i) s')
    (hTxn : s.txns[t]? = some r)
    (hSent : (r.state i).request = .sent false)
    (hTxn' : s'.txns[t]? = some r')
    (hHandled :
      (r'.state i).request = .handled .twoPcPrepareAbort)
    (hPending :
      (s.block conf p.key).created.havePending = true)
    (hBlock : ∀ l, s'.block conf l =
      if l = p.key then (s.block conf l).created
      else s.block conf l) :
    Locked conf s' := by
  have hExists : ∃ u j l, s.lock u j = some l ∧
      l.key = p.key := by
    by_contra hNone
    have hFree := h.free p.key (fun u j l hLock hKey =>
      hNone ⟨u, j, l, hLock, hKey⟩)
    rw [hFree] at hPending
    cases hPending
  rcases hExists with ⟨u, j, l, hLock, hKey⟩
  have hCreated := (h.havePending hRounds hLock).1
  rw [hKey] at hCreated
  refine h.of_same ?_ ?_ ?_
  · intro k
    rw [hBlock k]
    by_cases hEq : k = p.key
    · rw [if_pos hEq, hEq, hCreated]
    · rw [if_neg hEq]
  · intro u j
    by_cases hOwn : u = t ∧ j = i
    · rcases hOwn with ⟨rfl, rfl⟩
      rw [lock_of_txn hTxn, lock_of_txn hTxn',
        Running.lock_eq_none (r := r)
          (fun type hType => by rw [hSent] at hType; cases hType)]
      cases hLock' : r'.lock j with
      | none => rfl
      | some m =>
          rcases Running.lock_eq_some.mp hLock' with
            ⟨_, _, hAgree, _⟩
          rw [hHandled] at hAgree
          cases hAgree
    · refine hStep.lock_eq hRounds.tracked ?_ ?_
      · intro hTarget
        cases hTarget
        exact hOwn ⟨rfl, rfl⟩
      · intro agree hTarget
        cases hTarget
  · intro u j
    refine hStep.ended_eq ?_
    intro agree hTarget
    cases hTarget

/- An agreed prepare locks its block. -/
theorem Locked.prepare_agree
    (h : Locked conf s)
    (hRounds : Rounds s)
    (hStep : Stepped conf s (.prepare t i) s')
    (hTxn : s.txns[t]? = some r)
    (hPiece : r.txn.pieces[i]? = some p)
    (hSent : (r.state i).request = .sent false)
    (hDone : (r.state i).done = [])
    (hTxn' : s'.txns[t]? = some r')
    (hLock' : r'.lock i =
      some ⟨p.key, r.txn.version,
        p.image (s.block conf p.key).bytes⟩)
    (hPending :
      (s.block conf p.key).created.havePending = false)
    (hBlock : ∀ l, s'.block conf l =
      if l = p.key then
        (s.block conf l).created.logged
          (p.image (s.block conf l).bytes) r.txn.version
      else s.block conf l) :
    Locked conf s' := by
  have hNew : s'.lock t i =
      some ⟨p.key, r.txn.version,
        p.image (s.block conf p.key).bytes⟩ := by
    rw [lock_of_txn hTxn', hLock']
  have hOther : ∀ u j, ¬ (u = t ∧ j = i) →
      s'.lock u j = s.lock u j := by
    intro u j hOwn
    refine hStep.lock_eq hRounds.tracked ?_ ?_
    · intro hTarget
      cases hTarget
      exact hOwn ⟨rfl, rfl⟩
    · intro agree hTarget
      cases hTarget
  -- nobody else has a lock on the block
  have hUnlocked : ∀ u j l, s.lock u j = some l →
      l.key ≠ p.key := by
    intro u j l hLock hKey
    have hHave := (h.havePending hRounds hLock).2
    rw [hKey, hPending] at hHave
    cases hHave
  have hCases : ∀ u j l, s'.lock u j = some l →
      (u = t ∧ j = i ∧
        l = ⟨p.key, r.txn.version,
          p.image (s.block conf p.key).bytes⟩) ∨
      (s.lock u j = some l ∧ l.key ≠ p.key) := by
    intro u j l hLock
    by_cases hOwn : u = t ∧ j = i
    · rcases hOwn with ⟨rfl, rfl⟩
      rw [hNew] at hLock
      exact Or.inl ⟨rfl, rfl, (Option.some.inj hLock).symm⟩
    · rw [hOther u j hOwn] at hLock
      exact Or.inr ⟨hLock, hUnlocked u j l hLock⟩
  refine
    { unique := ?_, held := ?_, free := ?_, committed := ?_ }
  · intro u j l u' j' m hl hm hKey
    rcases hCases u j l hl with ⟨rfl, _, rfl⟩ | ⟨hl', hNe⟩
    · rcases hCases u' j' m hm with
        ⟨rfl, _, _⟩ | ⟨_, hNe'⟩
      · rfl
      · exact absurd hKey.symm hNe'
    · rcases hCases u' j' m hm with ⟨_, _, rfl⟩ | ⟨hm', _⟩
      · exact absurd hKey hNe
      · exact h.unique u j l u' j' m hl' hm' hKey
  · intro u j l hLock
    rcases hCases u j l hLock with ⟨_, _, rfl⟩ | ⟨hLock', hNe⟩
    · rw [hBlock p.key, if_pos rfl]
      refine ⟨by simp [Block.logged], rfl, rfl, ?_⟩
      exact h.committed_ne hRounds hTxn hPiece hDone
    · rw [hBlock l.key, if_neg hNe]
      exact h.held u j l hLock'
  · intro k hNone
    have hNe : k ≠ p.key := by
      intro hEq
      exact hNone t i _ hNew hEq.symm
    rw [hBlock k, if_neg hNe]
    apply h.free
    intro u j l hLock
    by_cases hOwn : u = t ∧ j = i
    · rcases hOwn with ⟨rfl, rfl⟩
      rw [lock_of_txn hTxn, Running.lock_eq_none
        (fun type hType => by rw [hSent] at hType; cases hType)]
        at hLock
      cases hLock
    · exact hNone u j l (by rw [hOther u j hOwn]; exact hLock)
  · intro k
    have hEnded : ∀ u j, s'.ended u j = s.ended u j := by
      intro u j
      refine hStep.ended_eq ?_
      intro agree hTarget
      cases hTarget
    simp only [hEnded, hBlock k]
    by_cases hEq : k = p.key
    · subst hEq
      rw [if_pos rfl]
      unfold Block.created
      cases (s.block conf p.key).content with
      | none => exact Or.inl rfl
      | some bytes => exact h.committed p.key
    · rw [if_neg hEq]
      exact h.committed k

----------
-- Second Messages Return Locks
----------

variable {agree : Bool}

/- The lock that a commit finds. -/
theorem lock_of_commit
    (hRounds : Rounds s)
    (hTxn : s.txns[t]? = some r)
    (hPiece : r.txn.pieces[i]? = some p)
    (hOnWay : true ∈ (r.state i).onWay) :
    s.lock t i =
      some ⟨p.key, r.txn.version, (r.state i).image⟩ := by
  rcases (hRounds.inRound t r hTxn).of_onWay hOnWay with
    ⟨hDone, hAgree⟩
  have hi : i < r.size := (List.getElem?_eq_some_iff.mp hPiece).1
  rw [lock_of_txn hTxn]
  exact Running.lock_eq_some.mpr
    ⟨p, hPiece, hAgree.mp rfl i hi, hDone, rfl⟩

/- At a second message the block has no other lock. -/
theorem only_lock_of_commit
    (h : Locked conf s)
    (hRounds : Rounds s)
    (hTxn : s.txns[t]? = some r)
    (hPiece : r.txn.pieces[i]? = some p)
    (hOnWay : agree ∈ (r.state i).onWay)
    (hIsolated : Isolated s (.commit t i agree))
    {u j : Nat}
    (hLock : s.lock u j = some l)
    (hKey : l.key = p.key) :
    u = t ∧ j = i := by
  have hOwner : u = t := by
    cases agree with
    | true =>
        exact h.unique u j l t i _ hLock
          (lock_of_commit hRounds hTxn hPiece hOnWay) hKey
    | false =>
        by_contra hNe
        exact hIsolated r p hTxn hPiece u j l hNe hLock hKey
  subst hOwner
  rw [lock_of_txn hTxn] at hLock
  rcases Running.lock_eq_some.mp hLock with
    ⟨q, hOther, _, _, rfl⟩
  exact ⟨rfl, index_eq_of_key hOther hPiece hKey⟩

theorem Locked.commit
    (h : Locked conf s)
    (hRounds : Rounds s)
    (hStep : Stepped conf s (.commit t i agree) s')
    (hIsolated : Isolated s (.commit t i agree))
    (hTxn : s.txns[t]? = some r)
    (hPiece : r.txn.pieces[i]? = some p)
    (hOnWay : agree ∈ (r.state i).onWay)
    (hTxn' : s'.txns[t]? = some r')
    (hLock' : r'.lock i = none)
    (hEnded' : r'.ended i = some (p.key, r.txn.version))
    (hBlock : ∀ l, s'.block conf l =
      if l = p.key then
        if agree then (s.block conf l).executed
        else (s.block conf l).rolledBack
      else s.block conf l) :
    Locked conf s' := by
  have hOther : ∀ u j, ¬ (u = t ∧ j = i) →
      s'.lock u j = s.lock u j := by
    intro u j hOwn
    refine hStep.lock_eq hRounds.tracked ?_ ?_
    · intro hTarget
      cases hTarget
    · intro agree' hTarget
      cases hTarget
      exact hOwn ⟨rfl, rfl⟩
  have hCases : ∀ u j l, s'.lock u j = some l →
      s.lock u j = some l ∧ l.key ≠ p.key := by
    intro u j l hLock
    by_cases hOwn : u = t ∧ j = i
    · rcases hOwn with ⟨rfl, rfl⟩
      rw [lock_of_txn hTxn', hLock'] at hLock
      cases hLock
    · rw [hOther u j hOwn] at hLock
      refine ⟨hLock, fun hKey => hOwn ?_⟩
      exact only_lock_of_commit h hRounds hTxn hPiece hOnWay
        hIsolated hLock hKey
  refine
    { unique := ?_, held := ?_, free := ?_, committed := ?_ }
  · intro u j l u' j' m hl hm hKey
    exact h.unique u j l u' j' m (hCases u j l hl).1
      (hCases u' j' m hm).1 hKey
  · intro u j l hLock
    rcases hCases u j l hLock with ⟨hOld, hNe⟩
    rw [hBlock l.key, if_neg hNe]
    exact h.held u j l hOld
  · intro k hNone
    rw [hBlock k]
    by_cases hEq : k = p.key
    · rw [if_pos hEq]
      cases agree with
      | true =>
          simp [Block.executed, Block.created,
            Block.havePending, LogEntry.havePending]
      | false =>
          cases hContent : (s.block conf k).content with
          | none | some bytes =>
              simp [Block.rolledBack, Block.logged,
                Block.created, hContent, Block.havePending,
                LogEntry.havePending]
    · rw [if_neg hEq]
      apply h.free
      intro u j l hLock hKey
      by_cases hOwn : u = t ∧ j = i
      · rcases hOwn with ⟨rfl, rfl⟩
        rw [lock_of_txn hTxn] at hLock
        rcases Running.lock_eq_some.mp hLock with
          ⟨q, hq, _, _, rfl⟩
        rw [hPiece] at hq
        cases hq
        exact hEq hKey.symm
      · exact hNone u j l
          (by rw [hOther u j hOwn]; exact hLock) hKey
  · intro k
    have hNewEnded : s'.ended t i =
        some (p.key, r.txn.version) := by
      rw [ended_of_txn hTxn', hEnded']
    have hOldEnded : s.ended t i = none := by
      rw [ended_of_txn hTxn]
      simp [Running.ended, hPiece,
        ((hRounds.inRound t r hTxn).of_onWay hOnWay).1]
    have hKeep : ∀ u j m, s.ended u j = some m →
        s'.ended u j = some m := by
      intro u j m hEnded
      rw [← hEnded]
      refine hStep.ended_eq ?_
      intro agree' hTarget
      cases hTarget
      rw [hOldEnded] at hEnded
      cases hEnded
    rw [hBlock k]
    by_cases hEq : k = p.key
    · subst hEq
      rw [if_pos rfl]
      cases agree with
      | true =>
          right
          have hHeld := h.held t i _
            (lock_of_commit hRounds hTxn hPiece hOnWay)
          refine ⟨t, i, ?_⟩
          simp only [if_true, Block.executed]
          rw [hNewEnded, hHeld.2.1]
      | false =>
          rcases h.committed p.key with hZero | ⟨u, j, hEnded⟩
          · exact Or.inl hZero
          · exact Or.inr ⟨u, j, hKeep u j _ hEnded⟩
    · rw [if_neg hEq]
      rcases h.committed k with hZero | ⟨u, j, hEnded⟩
      · exact Or.inl hZero
      · exact Or.inr ⟨u, j, hKeep u j _ hEnded⟩

----------
-- Isolation
----------

/- The step lemma: servers and locks stay in agreement. -/
theorem Locked.stepped
    (h : Locked conf s)
    (hRounds : Rounds s)
    (hStep : Stepped conf s e s')
    (hIsolated : Isolated s e) :
    Locked conf s' := by
  have hStepped := hStep
  -- events that reach no server change no block and no lock
  have hQuiet :
      (∀ k, s'.block conf k = s.block conf k) →
      (∀ t i, e.target ≠ some (t, .prepare i)) →
      (∀ t i agree, e.target ≠ some (t, .commit i agree)) →
        Locked conf s' := by
    intro hBlock hPrepare hCommit
    refine h.of_same hBlock ?_ ?_
    · intro t i
      exact hStepped.lock_eq hRounds.tracked (hPrepare t i)
        (hCommit t i)
    · intro t i
      exact hStepped.ended_eq (hCommit t i)
  cases hStep with
  | start txn | send hTxn hPiece hSession hQuick =>
      exact hQuiet (fun _ => rfl) (fun _ _ hT => by cases hT)
        (fun _ _ _ hT => by cases hT)
  | response hTxn hHandled hSession =>
      refine hQuiet ?_ (fun _ _ hT => by cases hT)
        (fun _ _ _ hT => by cases hT)
      intro k
      simp [block]
  | deadline hTxn hSession | timer hTxn hSession =>
      exact hQuiet (fun _ => rfl) (fun _ _ hT => by cases hT)
        (fun _ _ _ hT => by cases hT)
  | @prepare t i r p quick resp servers hTxn hPiece hSent
      hRequest =>
      have hIn := hRounds.inRound t r hTxn
      have hPlain := hIn.plain i quick hSent
      subst hPlain
      have hi : i < r.size :=
        (List.getElem?_eq_some_iff.mp hPiece).1
      have hDone := hIn.done_of_sent hi hSent
      rcases Cluster.request_prepare hRequest with
        ⟨hType, hBlock⟩
      have hTxn' := getElem?_setTxn
        (s := { s with servers := servers }) hTxn
        (r.setPiece i
          { r.state i with
            request := .handled resp.header.type
            image := (servers.block conf p.key).log.data }) t
      rw [if_pos rfl] at hTxn'
      by_cases hPending :
          (s.block conf p.key).created.havePending = true
      · replace hType := hType.trans (if_pos hPending)
        refine h.prepare_abort hRounds hStepped hTxn hSent
          hTxn' (by simp [hType]) hPending ?_
        intro l
        refine (hBlock l).trans ?_
        by_cases hEq : l = p.key
        · subst hEq
          rw [if_pos rfl, if_pos rfl]
          exact if_pos hPending
        · rw [if_neg hEq, if_neg hEq]
          rfl
      · have hFree :
            (s.block conf p.key).created.havePending =
              false := by
          simpa using hPending
        replace hType := hType.trans (if_neg hPending)
        have hNewBlock : ∀ l, servers.block conf l =
            if l = p.key then
              (s.block conf l).created.logged
                (p.image (s.block conf l).bytes) r.txn.version
            else s.block conf l := by
          intro l
          refine (hBlock l).trans ?_
          by_cases hEq : l = p.key
          · subst hEq
            rw [if_pos rfl, if_pos rfl]
            exact if_neg hPending
          · rw [if_neg hEq, if_neg hEq]
            rfl
        refine h.prepare_agree hRounds hStepped hTxn hPiece
          hSent hDone hTxn' ?_ hFree hNewBlock
        refine Running.lock_eq_some.mpr
          ⟨p, hPiece, by simp [hType], by simp [hDone], ?_⟩
        rw [Running.setPiece_state, if_pos rfl, hNewBlock p.key,
          if_pos rfl]
        rfl
  | @commit t i agree r p resp servers hTxn hPiece hOnWay
      hRequest =>
      have hBlock := Cluster.request_commit hRequest
      have hTxn' := getElem?_setTxn
        (s := { s with servers := servers }) hTxn
        (r.setPiece i
          { r.state i with
            onWay := (r.state i).onWay.erase agree
            done := (r.state i).done ++ [agree] }) t
      rw [if_pos rfl] at hTxn'
      refine h.commit hRounds hStepped hIsolated hTxn hPiece
        hOnWay hTxn' ?_ ?_ hBlock
      · simp [Running.lock, hPiece]
      · simp [Running.ended, hPiece]

/- The run lemma, from the first state on. -/
theorem locked_of_run
    {es : List Event}
    (hRun : run (step conf) init es = some s)
    (hIsolated : Along (step conf) Isolated init es) :
    Rounds s ∧ Locked conf s := by
  refine invariant_of_run
    (I := fun s => Rounds s ∧ Locked conf s) ?_
    ⟨rounds_init, locked_init⟩ hRun hIsolated
  intro s e s' hInv hCond hStep
  have hStepped := stepped_of_step hStep
  exact ⟨hInv.1.stepped hStepped hCond,
    hInv.2.stepped hInv.1 hStepped hCond⟩

/-
  Every second message of a write tells whether all of its
  blocks agreed. A commit installs the image that the write's
  prepare has logged. A rollback changes no content, and no
  log that is locked by another write.
-/
theorem isolation_of_isolated
    (conf : StorageConf)
    (es : List Event)
    (s s' : Sys)
    (t i : Nat)
    (agree : Bool)
    (r : Running)
    (p : Piece)
    (hRun : run (step conf) init es = some s)
    (hStep : s.step conf (.commit t i agree) = some s')
    (hIsolated :
      Along (step conf) Isolated init
        (es ++ [.commit t i agree]))
    (hTxn : s.txns[t]? = some r)
    (hPiece : r.txn.pieces[i]? = some p) :
    (agree = true ↔
        ∀ j < r.size,
          (r.state j).request =
            .handled .twoPcPrepareAgree) ∧
      (agree = true →
        (s'.block conf p.key).content =
          some (r.state i).image) ∧
      (agree = false →
        (∀ k, (s'.block conf k).content =
          (s.block conf k).content) ∧
        (∀ u j l, u ≠ t → s.lock u j = some l →
          (s'.block conf l.key).log =
            (s.block conf l.key).log)) := by
  rcases (along_append hRun).mp hIsolated with
    ⟨hBefore, hLast⟩
  have hCond : Isolated s (.commit t i agree) :=
    ((along_cons hStep).mp hLast).1
  rcases locked_of_run hRun hBefore with ⟨hRounds, hLocked⟩
  cases stepped_of_step hStep with
  | @commit _ _ _ r₁ p₁ resp servers hTxn₁ hPiece₁ hOnWay
      hRequest =>
      rw [hTxn] at hTxn₁
      cases hTxn₁
      rw [hPiece] at hPiece₁
      cases hPiece₁
      have hBlock := Cluster.request_commit hRequest
      refine ⟨((hRounds.inRound t r hTxn).of_onWay hOnWay).2,
        ?_, ?_⟩
      · rintro rfl
        have hHeld := hLocked.held t i _
          (lock_of_commit hRounds hTxn hPiece hOnWay)
        refine (congrArg Block.content (hBlock p.key)).trans ?_
        rw [if_pos rfl]
        exact congrArg some hHeld.2.2.1
      · rintro rfl
        refine ⟨?_, ?_⟩
        · intro k
          refine (congrArg Block.content (hBlock k)).trans ?_
          by_cases hEq : k = p.key
          · rw [if_pos hEq]
            rfl
          · rw [if_neg hEq]
            rfl
        · intro u j l hOther hLock
          have hNe : l.key ≠ p.key :=
            hCond r p hTxn hPiece u j l hOther hLock
          refine (congrArg Block.log (hBlock l.key)).trans ?_
          rw [if_neg hNe]
          rfl

/- A write of some bytes at the start of one block. -/
def blockWrite
    (dataFunction : Nat)
    (version : Version)
    (data : Bytes) :
    Txn :=
  { dataFunction := dataFunction
    kind := .single
    version := version
    uuids := [Vector.replicate 32 7]
    pieces := [⟨Vector.replicate 32 7, 0, 0, data⟩]
    nonempty := List.cons_ne_nil _ _
    nodup := List.nodup_singleton _ }

/-
  Two writers of one block. The second is told to abort, and
  its rollback comes after the commit of the first.
-/
theorem isolation_of_late_rollback :
    ∃ s s',
      run (step .small) init
          [.start (blockWrite 0 1 [1, 2]),
            .start (blockWrite 1 2 [3]), .send 0 false,
            .prepare 0 0, .send 1 false, .prepare 1 0,
            .response 0 0, .response 1 0,
            .commit 0 0 true] = some s ∧
        s.step .small (.commit 1 0 false) = some s' ∧
        (∀ k, (s'.block .small k).content =
          (s.block .small k).content) := by
  refine ⟨_, _, rfl, rfl, ?_⟩
  refine ((isolation_of_isolated .small
    [.start (blockWrite 0 1 [1, 2]),
      .start (blockWrite 1 2 [3]), .send 0 false,
      .prepare 0 0, .send 1 false, .prepare 1 0,
      .response 0 0, .response 1 0, .commit 0 0 true]
    _ _ 1 0 false _ ⟨Vector.replicate 32 7, 0, 0, [3]⟩
    rfl rfl ?_ rfl rfl).2.2 rfl).1
  -- the steps one by one
  refine And.intro ⟨by decide, by simp [init]⟩ ?_
  refine And.intro
    ⟨by decide, by
      simp [init, Running.start, blockWrite]⟩ ?_
  refine And.intro rfl (And.intro trivial ?_)
  refine And.intro rfl (And.intro trivial ?_)
  refine And.intro
    (fun r h => by cases h; exact Or.inl rfl) ?_
  refine And.intro
    (fun r h => by cases h; exact Or.inl rfl) ?_
  refine And.intro trivial (And.intro ?_ trivial)
  intro r p _ _ u j l hu hLock
  -- the first writer's lock has been returned
  rcases u with _ | _ | u
  · rcases j with _ | j
    · cases hLock
    · cases hLock
  · exact absurd rfl hu
  · cases hLock

/-
  Two writers of one block again. The first has been answered
  agree when the rollback of the second empties the log, and
  its commit then installs an empty block, although its
  client was told `OK`.
-/
theorem rollback_discards_agreed_image :
    ∃ s₁ s₂ s₃ r,
      run (step .small) init
          [.start (blockWrite 0 1 [1, 2]),
            .start (blockWrite 1 2 [3]), .send 0 false,
            .prepare 0 0, .send 1 false, .prepare 1 0,
            .response 1 0] = some s₁ ∧
        s₁.lock 0 0 =
          some ⟨⟨Vector.replicate 32 7, 0⟩, 1, [1, 2]⟩ ∧
        (s₁.block .small
          ⟨Vector.replicate 32 7, 0⟩).log = ⟨0, 1, [1, 2]⟩ ∧
        s₁.step .small (.commit 1 0 false) =
          some s₂ ∧
        (s₂.block .small
          ⟨Vector.replicate 32 7, 0⟩).log = ⟨0, 0, []⟩ ∧
        run (step .small) s₂
          [.response 0 0, .commit 0 0 true] = some s₃ ∧
        s₃.txns[0]? = some r ∧
        r.session.coordinator.replies =
          [Coordinator.okReply] ∧
        (r.state 0).request = .handled .twoPcPrepareAgree ∧
        (r.state 0).image = [1, 2] ∧
        (s₃.block .small
          ⟨Vector.replicate 32 7, 0⟩).content = some [] := by
  refine ⟨_, _, _, _, rfl, rfl, rfl, rfl, rfl, rfl, rfl, rfl,
    rfl, rfl, ?_⟩
  decide

end Sys

end Slfs
