import Slfs.DataFunction.Isolation

/-
  Quick prepares.

  A quick prepare logs its image without asking whether one
  is pending. A data function sends it for files that it has
  last written without finding a pending log, which it knows
  before its commit has arrived. `Sys.Apart` asks that a write
  starts after all writes that share a block with it are over.

  Main declarations:
    * `Sys.Apart`
    * `Sys.quick_eq_plain_of_apart`
-/

----------
-- Writes That Are Over
----------

namespace Slfs

open Transition

namespace Running

/- All answers and all second messages have been handled. -/
def Over (r : Running) : Prop :=
  r.session.answered.length = r.size ∧
    ∀ i < r.size, (r.state i).onWay = []

/-
  A piece whose image may be in the log: its prepare has been
  handled, and a second message is on its way or will be.
-/
def Busy (r : Running) (i : Nat) : Prop :=
  (∃ type, (r.state i).request = .handled type) ∧
    (r.session.answered.length < r.size ∨
      (r.state i).onWay ≠ [])

/- The second round goes to all blocks. -/
def SecondSent (r : Running) : Prop :=
  r.session.answered.length = r.size →
    ∀ i, (r.state i).onWay ≠ [] ∨ (r.state i).done ≠ []

variable {r r' : Running} {i : Nat} {e : Event}

theorem Busy.not_over
    (hi : i < r.size)
    (h : Busy r i) :
    ¬ Over r := by
  rintro ⟨hAll, hNone⟩
  rcases h.2 with hLeft | hWay
  · omega
  · exact hWay (hNone i hi)

/- The last answer sends the second round. -/
theorem outcome_of_last
    {type : MsgT}
    {session : Session}
    (h : Tracked r)
    (hSession :
      r.stepSession (.respond i type) = some session)
    (hAll : session.answered.length = r.size) :
    r.session.coordinator.outcome type =
      some (r.session.coordinator.agreed type) := by
  rcases Session.step_respond hSession with
    ⟨⟨hSent, hNew⟩, rfl⟩
  have hLt := h.counted.answered_lt hSent hNew
  have hLe := h.counted.sent_le
  have hCount := h.counted.outstanding
  rw [List.length_append, List.length_singleton] at hAll
  have hOne :
      r.session.coordinator.outstandingRequests - 1 = 0 := by
    omega
  simp [Coordinator.outcome, hOne]

theorem Over.moved
    (hTracked : Tracked r)
    (h : Over r)
    (hMoved : Moved r e r') :
    Over r' := by
  have hLe := hTracked.counted.sent_le
  have hAnswered := hTracked.counted.answered_le
  have hAll := h.1
  cases hMoved with
  | send quick hSession =>
      rcases Session.step_send hSession with ⟨hLt, rfl⟩
      omega
  | @prepare i quick type image hSent =>
      refine ⟨hAll, fun j hj => ?_⟩
      have hOld := h.2 j hj
      by_cases hEq : j = i
      · simpa [hEq] using hEq ▸ hOld
      · simpa [hEq] using hOld
  | @response i type session hHandled hSession =>
      rcases Session.step_respond hSession with
        ⟨⟨hSent, hNew⟩, rfl⟩
      have hLt := hTracked.counted.answered_lt hSent hNew
      omega
  | @commit i agree hOnWay =>
      refine ⟨hAll, fun j hj => ?_⟩
      have hOld := h.2 j hj
      by_cases hEq : j = i
      · rw [hEq] at hOld
        rw [hOld] at hOnWay
        cases hOnWay
      · simpa [hEq] using hOld
  | deadline hSession =>
      rcases Session.step_deadline hSession with rfl
      exact h
  | timer hSession =>
      rcases Session.step_timer hSession with ⟨_, rfl⟩
      exact h

/- A busy piece stays busy until its second message. -/
theorem Busy.moved
    (hTracked : Tracked r)
    (h : Busy r i)
    (hMoved : Moved r e r')
    (hCommit : ∀ agree, e ≠ .commit i agree) :
    Busy r' i := by
  rcases h with ⟨⟨type, hHandled⟩, hDue⟩
  cases hMoved with
  | send quick hSession =>
      rcases Session.step_send hSession with ⟨_, rfl⟩
      have hNe : i ≠ r.session.coordinator.sent := by
        intro hEq
        have hUnsent :=
          hTracked.unsent i (Nat.le_of_eq hEq.symm)
        rw [hHandled] at hUnsent
        cases hUnsent
      exact ⟨⟨type, by simpa [hNe] using hHandled⟩,
        by simpa [hNe, size] using hDue⟩
  | @prepare j quick type' image hSent =>
      have hNe : i ≠ j := by
        intro hEq
        rw [← hEq, hHandled] at hSent
        cases hSent
      exact ⟨⟨type, by simpa [hNe] using hHandled⟩,
        by simpa [hNe, size] using hDue⟩
  | @response j type' session hOther hSession =>
      refine ⟨⟨type, by simpa using hHandled⟩, ?_⟩
      by_cases hAll : session.answered.length = r.size
      · right
        rw [outcome_of_last hTracked hSession hAll]
        simp [Sys.finished, broadcast]
      · left
        have hCounted :=
          Session.counted_step _ _ _ hTracked.counted hSession
        have hAnswered := hCounted.answered_le
        have hLe := hCounted.sent_le
        simp only [finished_session]
        have hSize :
            (Sys.finished { r with session := session }
              (r.session.coordinator.outcome type')).size =
              r.size := by
          simp [size]
        rw [hSize]
        omega
  | @commit j agree hOnWay =>
      have hNe : i ≠ j := by
        intro hEq
        exact hCommit agree (hEq ▸ rfl)
      exact ⟨⟨type, by simpa [hNe] using hHandled⟩,
        by simpa [hNe, size] using hDue⟩
  | deadline hSession =>
      rcases Session.step_deadline hSession with rfl
      exact ⟨⟨type, hHandled⟩, hDue⟩
  | timer hSession =>
      rcases Session.step_timer hSession with ⟨_, rfl⟩
      exact ⟨⟨type, hHandled⟩, hDue⟩

theorem SecondSent.moved
    (hTracked : Tracked r)
    (h : SecondSent r)
    (hMoved : Moved r e r') :
    SecondSent r' := by
  intro hAll i
  cases hMoved with
  | send quick hSession =>
      rcases Session.step_send hSession with ⟨hLt, rfl⟩
      have hAnswered := hTracked.counted.answered_le
      have hSize : r.session.answered.length = r.size := hAll
      omega
  | @prepare j quick type image hSent =>
      have hOld := h hAll i
      by_cases hEq : i = j
      · simpa [hEq] using hEq ▸ hOld
      · simpa [hEq] using hOld
  | @response j type session hHandled hSession =>
      left
      have hSize : session.answered.length = r.size := by
        simpa [size] using hAll
      rw [outcome_of_last hTracked hSession hSize]
      simp [Sys.finished, broadcast]
  | @commit j agree hOnWay =>
      have hOld := h hAll i
      by_cases hEq : i = j
      · right
        simp [hEq]
      · simpa [hEq] using hOld
  | deadline hSession =>
      rcases Session.step_deadline hSession with rfl
      exact h hAll i
  | timer hSession =>
      rcases Session.step_timer hSession with ⟨_, rfl⟩
      exact h hAll i

end Running

----------
-- Pending Logs Are Due To Busy Pieces
----------

/- Two writes have a block in common. -/
def Txn.Shares (a b : Txn) : Prop :=
  ∃ p ∈ a.pieces, ∃ q ∈ b.pieces, p.key = q.key

namespace Sys

/- A write starts after the writes that share a block. -/
def Apart (s : Sys) : Event → Prop
| .start txn =>
    ∀ r ∈ s.txns, txn.Shares r.txn → r.Over
| _ => True

/- What is pending in a log is due to a busy piece. -/
structure Covered (conf : StorageConf) (s : Sys) :
    Prop where
  tracked : Tracked s
  pending :
    ∀ k, (s.block conf k).havePending = true →
      ∃ (t i : Nat) (r : Running) (p : Piece),
        s.txns[t]? = some r ∧
        r.txn.pieces[i]? = some p ∧ p.key = k ∧ r.Busy i

/-
  Of two writes that share a block one is over, and what is
  pending in a log is due to a busy piece.
-/
structure Accounted (conf : StorageConf) (s : Sys) :
    Prop where
  tracked : Tracked s
  secondSent :
    ∀ (t : Nat) (r : Running), s.txns[t]? = some r →
      r.SecondSent
  apart :
    ∀ (t u : Nat) (r q : Running), s.txns[t]? = some r →
      s.txns[u]? = some q → t ≠ u →
      r.txn.Shares q.txn → r.Over ∨ q.Over
  pending :
    ∀ k, (s.block conf k).havePending = true →
      ∃ (t i : Nat) (r : Running) (p : Piece),
        s.txns[t]? = some r ∧
        r.txn.pieces[i]? = some p ∧ p.key = k ∧ r.Busy i

variable {conf : StorageConf} {s s' : Sys} {e : Event}

theorem covered_init : Covered conf init where
  tracked := tracked_init
  pending := fun k h => by cases h

theorem accounted_init : Accounted conf init where
  tracked := tracked_init
  secondSent := fun t r h => by simp [init] at h
  apart := fun t u r q h => by simp [init] at h
  pending := covered_init.pending

theorem Accounted.covered
    (h : Accounted conf s) :
    Covered conf s :=
  ⟨h.tracked, h.pending⟩

variable {t : Nat} {r : Running} {p : Piece}
variable {quick : Bool}

section

variable (h : Covered conf s)
variable (hStep : Stepped conf s e s')
include h hStep

/- A busy piece after a step that is not its commit. -/
theorem Covered.busy_stepped
    {i : Nat}
    (hr : s.txns[t]? = some r)
    (hPiece : r.txn.pieces[i]? = some p)
    (hBusy : r.Busy i)
    (hCommit :
      ∀ agree, e.target ≠ some (t, .commit i agree)) :
    ∃ r', s'.txns[t]? = some r' ∧
      r'.txn.pieces[i]? = some p ∧ r'.Busy i := by
  rcases hStep.exists_txn hr with
    ⟨r', hr', ⟨rfl, _⟩ | ⟨ev, hTarget, hMoved⟩⟩
  · exact ⟨r', hr', hPiece, hBusy⟩
  · refine ⟨r', hr', by rw [hMoved.txn_eq]; exact hPiece, ?_⟩
    refine hBusy.moved (h.tracked t r hr) hMoved ?_
    rintro agree rfl
    exact hCommit agree hTarget

/- Blocks that a step leaves as they are. -/
theorem Covered.pending_of_same
    {k : BlockKey}
    (hBlock : s'.block conf k = s.block conf k)
    (hCommit : ∀ (t i : Nat) (agree : Bool) (r : Running)
      (p : Piece), e.target = some (t, .commit i agree) →
        s.txns[t]? = some r → r.txn.pieces[i]? = some p →
        p.key ≠ k)
    (hPending : (s'.block conf k).havePending = true) :
    ∃ (t i : Nat) (r : Running) (p : Piece),
      s'.txns[t]? = some r ∧
      r.txn.pieces[i]? = some p ∧ p.key = k ∧ r.Busy i := by
  rw [hBlock] at hPending
  rcases h.pending k hPending with
    ⟨t, i, r, p, hr, hPiece, hKey, hBusy⟩
  rcases h.busy_stepped hStep hr hPiece hBusy
    (fun agree hTarget =>
      hCommit t i agree r p hTarget hr hPiece hKey) with
    ⟨r', hr', hPiece', hBusy'⟩
  exact ⟨t, i, r', p, hr', hPiece', hKey, hBusy'⟩

theorem Covered.pending_stepped
    (k : BlockKey)
    (hPending : (s'.block conf k).havePending = true) :
    ∃ (t i : Nat) (r : Running) (p : Piece),
      s'.txns[t]? = some r ∧
      r.txn.pieces[i]? = some p ∧ p.key = k ∧ r.Busy i := by
  have hStepped := hStep
  cases hStep with
  | start txn | send hTxn hPiece hSession hQuick =>
      exact h.pending_of_same hStepped rfl
        (fun _ _ _ _ _ hT => by cases hT) hPending
  | response hTxn hHandled hSession =>
      exact h.pending_of_same hStepped (by simp [block])
        (fun _ _ _ _ _ hT => by cases hT) hPending
  | deadline hTxn hSession | timer hTxn hSession =>
      exact h.pending_of_same hStepped rfl
        (fun _ _ _ _ _ hT => by cases hT) hPending
  | @prepare t i r p quick resp servers hTxn hPiece hSent
      hRequest =>
      by_cases hKey : k = p.key
      · -- the piece that was just logged
        have hi : i < r.size :=
          (List.getElem?_eq_some_iff.mp hPiece).1
        have hLeft :=
          (h.tracked t r hTxn).answered_lt_of_sent hi hSent
        have hTxn' := getElem?_setTxn
          (s := { s with servers := servers }) hTxn
          (r.setPiece i
            { r.state i with
              request := .handled resp.header.type
              image :=
                (servers.block conf p.key).log.data }) t
        rw [if_pos rfl] at hTxn'
        exact ⟨t, i, _, p, hTxn', hPiece, hKey.symm,
          ⟨resp.header.type, by simp⟩, Or.inl hLeft⟩
      · refine h.pending_of_same hStepped ?_
          (fun _ _ _ _ _ hT => by cases hT) hPending
        refine (Cluster.request_block hRequest k).trans ?_
        exact if_neg hKey
  | @commit t i agree r p resp servers hTxn hPiece hOnWay
      hRequest =>
      have hBlock := Cluster.request_commit hRequest k
      by_cases hKey : k = p.key
      · -- neither message leaves anything pending
        rw [if_pos hKey] at hBlock
        have hNone : (servers.block conf k).havePending =
            false := by
          rw [hBlock]
          cases agree with
          | true =>
              simp [Block.executed, Block.havePending,
                LogEntry.havePending]
          | false =>
              simp [Block.rolledBack, Block.logged,
                Block.havePending, LogEntry.havePending]
        have hSome : (servers.block conf k).havePending =
            true := hPending
        rw [hNone] at hSome
        cases hSome
      · refine h.pending_of_same hStepped
          (hBlock.trans (if_neg hKey)) ?_ hPending
        intro t' i' agree' r' p' hTarget hr' hp'
        cases hTarget
        rw [hTxn] at hr'
        cases hr'
        rw [hPiece] at hp'
        cases hp'
        exact fun hEq => hKey hEq.symm

theorem Covered.stepped : Covered conf s' where
  tracked := h.tracked.stepped hStep
  pending := h.pending_stepped hStep

end

/-
  No log is left behind. Whatever the order of the messages,
  quick prepares, timeouts and rollbacks of other writes
  included, nothing is pending once all writes are over. A
  server handles the messages to a block one at a time.
-/
theorem not_pending_of_over
    (conf : StorageConf)
    (es : List Event)
    (s : Sys)
    (hRun : run (step conf) init es = some s)
    (hOver : ∀ r ∈ s.txns, r.Over)
    (k : BlockKey) :
    (s.block conf k).havePending = false := by
  have hCovered : Covered conf s :=
    invariant_of_any_run
      (fun _ _ _ hInv hStep =>
        hInv.stepped (stepped_of_step hStep))
      covered_init hRun
  rw [Bool.eq_false_iff]
  intro hPending
  rcases hCovered.pending k hPending with
    ⟨t, i, r, p, hr, hPiece, _, hBusy⟩
  have hi : i < r.size := (List.getElem?_eq_some_iff.mp hPiece).1
  exact hBusy.not_over hi (hOver r (List.mem_of_getElem? hr))

/-
  Two writers of one block. The rollback of the second one
  empties the log of the first.
-/
def rolledBackBetween : List Event :=
  [.start (blockWrite 0 1 [1, 2]),
    .start (blockWrite 1 2 [3]), .send 0 false,
    .prepare 0 0, .send 1 false, .prepare 1 0,
    .response 1 0, .commit 1 0 false,
    .response 0 0, .commit 0 0 true]

theorem not_pending_of_rolledBackBetween :
    ∃ s,
      run (step .small) init rolledBackBetween =
          some s ∧
        ∀ k, (s.block .small k).havePending = false := by
  refine ⟨_, rfl, ?_⟩
  refine not_pending_of_over .small rolledBackBetween _ rfl ?_
  intro r hr
  rcases List.mem_pair.mp hr with rfl | rfl
  · exact ⟨rfl, by decide⟩
  · exact ⟨rfl, by decide⟩

section

variable (h : Accounted conf s)
variable (hStep : Stepped conf s e s')
include h hStep

/- Old writes that are over stay over. -/
theorem Accounted.over_stepped
    {r' : Running}
    (hr : s.txns[t]? = some r)
    (hr' : s'.txns[t]? = some r')
    (hOver : r.Over) :
    r'.Over := by
  rcases hStep.exists_txn hr with
    ⟨r₁, hr₁, ⟨rfl, _⟩ | ⟨ev, _, hMoved⟩⟩
  · rw [hr'] at hr₁
    cases hr₁
    exact hOver
  · rw [hr'] at hr₁
    cases hr₁
    exact hOver.moved (h.tracked t r hr) hMoved

theorem Accounted.apart_stepped
    (hApart : Apart s e)
    (t u : Nat)
    (r q : Running)
    (hr : s'.txns[t]? = some r)
    (hq : s'.txns[u]? = some q)
    (hNe : t ≠ u)
    (hShares : r.txn.Shares q.txn) :
    r.Over ∨ q.Over := by
  rcases hStep.version hr with
    ⟨txn, hStart, hTxn, hNew⟩ | ⟨r₀, hr₀, hTxn⟩
  · rcases hStep.version hq with
      ⟨txn', _, _, hNew'⟩ | ⟨q₀, hq₀, hTxn'⟩
    · exact absurd (hNew.trans hNew'.symm) hNe
    · right
      subst hStart
      rw [hTxn, hTxn'] at hShares
      exact h.over_stepped hStep hq₀ hq
        (hApart q₀ (List.mem_of_getElem? hq₀) hShares)
  · rcases hStep.version hq with
      ⟨txn', hStart', hTxn', _⟩ | ⟨q₀, hq₀, hTxn'⟩
    · left
      subst hStart'
      rw [hTxn, hTxn'] at hShares
      rcases hShares with ⟨p, hp, p', hp', hKey⟩
      exact h.over_stepped hStep hr₀ hr
        (hApart r₀ (List.mem_of_getElem? hr₀)
          ⟨p', hp', p, hp, hKey.symm⟩)
    · rw [hTxn, hTxn'] at hShares
      rcases h.apart t u r₀ q₀ hr₀ hq₀ hNe hShares with
        hOver | hOver
      · exact Or.inl (h.over_stepped hStep hr₀ hr hOver)
      · exact Or.inr (h.over_stepped hStep hq₀ hq hOver)

theorem Accounted.stepped
    (hApart : Apart s e) :
    Accounted conf s' where
  tracked := h.tracked.stepped hStep
  secondSent := by
    intro u r' hr'
    rcases hStep.txns hr' with
      ⟨txn, _, rfl, _⟩ | ⟨r, hr, ⟨rfl, _⟩ | ⟨ev, _, hMoved⟩⟩
    · intro hAll
      exact absurd hAll.symm (Nat.ne_of_gt
        (List.length_pos_of_ne_nil txn.nonempty))
    · exact h.secondSent u r' hr
    · exact (h.secondSent u r hr).moved (h.tracked u r hr)
        hMoved
  apart := h.apart_stepped hStep hApart
  pending := h.covered.pending_stepped hStep

end

theorem accounted_of_run
    {es : List Event}
    (hRun : run (step conf) init es = some s)
    (hApart : Along (step conf) Apart init es) :
    Accounted conf s := by
  refine invariant_of_run
    (I := Accounted conf) ?_ accounted_init hRun hApart
  intro s e s' hInv hCond hStep
  exact hInv.stepped (stepped_of_step hStep) hCond

----------
-- Quick Prepares Among Writes That Are Apart
----------

variable {s : Sys}

/- A prepare on its way finds no pending log. -/
theorem Accounted.havePending_of_sent
    (h : Accounted conf s)
    {i : Nat}
    (hTxn : s.txns[t]? = some r)
    (hPiece : r.txn.pieces[i]? = some p)
    (hSent : (r.state i).request = .sent quick) :
    (s.block conf p.key).havePending = false := by
  by_contra hNot
  have hPending : (s.block conf p.key).havePending = true := by
    simpa using hNot
  rcases h.pending p.key hPending with
    ⟨u, j, q, p', hq, hPiece', hKey, hBusy⟩
  have hi : i < r.size :=
    (List.getElem?_eq_some_iff.mp hPiece).1
  have hj : j < q.size :=
    (List.getElem?_eq_some_iff.mp hPiece').1
  by_cases hSame : u = t
  · subst hSame
    rw [hTxn] at hq
    cases hq
    have hIndex := index_eq_of_key hPiece' hPiece hKey
    subst hIndex
    rcases hBusy.1 with ⟨type, hHandled⟩
    rw [hSent] at hHandled
    cases hHandled
  · have hShares : q.txn.Shares r.txn :=
      ⟨p', List.mem_of_getElem? hPiece', p,
        List.mem_of_getElem? hPiece, hKey⟩
    rcases h.apart u t q r hq hTxn hSame hShares with
      hOver | hOver
    · exact hBusy.not_over hj hOver
    · have hLeft :=
        (h.tracked t r hTxn).answered_lt_of_sent hi hSent
      have hAll := hOver.1
      omega

/- Nor a lock of another write. -/
theorem Accounted.lock_of_sent
    (h : Accounted conf s)
    {i : Nat}
    (hTxn : s.txns[t]? = some r)
    (hPiece : r.txn.pieces[i]? = some p)
    (hSent : (r.state i).request = .sent quick)
    {u j : Nat}
    {l : Lock}
    (hOther : u ≠ t)
    (hLock : s.lock u j = some l) :
    l.key ≠ p.key := by
  intro hKey
  have hi : i < r.size :=
    (List.getElem?_eq_some_iff.mp hPiece).1
  cases hq : s.txns[u]? with
  | none => simp [lock, hq] at hLock
  | some q =>
      rw [lock_of_txn hq] at hLock
      rcases Running.lock_eq_some.mp hLock with
        ⟨p', hPiece', _, hDone, rfl⟩
      have hShares : q.txn.Shares r.txn :=
        ⟨p', List.mem_of_getElem? hPiece', p,
          List.mem_of_getElem? hPiece, hKey⟩
      have hj : j < q.size :=
        (List.getElem?_eq_some_iff.mp hPiece').1
      rcases h.apart u t q r hq hTxn hOther hShares with
        hOver | hOver
      · rcases h.secondSent u q hq hOver.1 j with hWay | hEnd
        · exact hWay (hOver.2 j hj)
        · exact hEnd hDone
      · have hLeft :=
          (h.tracked t r hTxn).answered_lt_of_sent hi hSent
        have hAll := hOver.1
        omega

/-
  When writes that share a block do not overlap, a quick
  prepare reaches its block while nothing is pending there.
  The server's answer and what it leaves in its blocks are
  those of a plain prepare, and no lock of another write is
  on the block.
-/
theorem quick_eq_plain_of_apart
    (conf : StorageConf)
    (es : List Event)
    (s : Sys)
    (t i : Nat)
    (r : Running)
    (p : Piece)
    (hRun : run (step conf) init es = some s)
    (hApart : Along (step conf) Apart init es)
    (hTxn : s.txns[t]? = some r)
    (hPiece : r.txn.pieces[i]? = some p)
    (hQuick : (r.state i).request = .sent true) :
    (s.block conf p.key).havePending = false ∧
      (∀ resp servers resp' servers',
        s.servers.request conf
            (p.prepareRequest true r.txn.version) =
          some (resp, servers) →
        s.servers.request conf
            (p.prepareRequest false r.txn.version) =
          some (resp', servers') →
        resp.header.type = resp'.header.type ∧
          ∀ k, servers.block conf k =
            servers'.block conf k) ∧
      (∀ u j l, u ≠ t → s.lock u j = some l →
        l.key ≠ p.key) := by
  have h := accounted_of_run hRun hApart
  have hNone := h.havePending_of_sent hTxn hPiece hQuick
  refine ⟨hNone, ?_, ?_⟩
  · intro resp servers resp' servers' hFast hPlain
    have hCreated : (s.servers.block conf
        p.key).created.havePending = false :=
      Block.havePending_created hNone
    rcases Cluster.request_prepareQuick hFast with
      ⟨hType, hBlock⟩
    rcases Cluster.request_prepare hPlain with
      ⟨hType', hBlock'⟩
    rw [hCreated] at hType'
    refine ⟨hType.trans hType'.symm, ?_⟩
    intro k
    rw [hBlock k, hBlock' k]
    by_cases hKey : k = p.key
    · subst hKey
      simp [hCreated]
    · simp [hKey]
  · intro u j l hOther hLock
    exact h.lock_of_sent hTxn hPiece hQuick hOther hLock

/-
  A data function writes a block twice, the second time with
  a quick prepare, after its first commit has arrived.
-/
theorem quick_eq_plain_after_commit :
    ∃ s r,
      run (step .small) init
          [.start (blockWrite 0 1 [1, 2]), .send 0 false,
            .prepare 0 0, .response 0 0, .commit 0 0 true,
            .start (blockWrite 0 2 [3]), .send 1 true] =
        some s ∧
        s.txns[1]? = some r ∧
        (r.state 0).request = .sent true ∧
        (s.block .small
          ⟨Vector.replicate 32 7, 0⟩).havePending = false := by
  refine ⟨_, _, rfl, rfl, rfl, ?_⟩
  refine (quick_eq_plain_of_apart .small
    [.start (blockWrite 0 1 [1, 2]), .send 0 false,
      .prepare 0 0, .response 0 0, .commit 0 0 true,
      .start (blockWrite 0 2 [3]), .send 1 true]
    _ 1 0 _ ⟨Vector.replicate 32 7, 0, 0, [3]⟩
    rfl ?_ rfl rfl rfl).1
  refine And.intro (fun r hr => by cases hr) ?_
  refine And.intro trivial (And.intro trivial ?_)
  refine And.intro trivial (And.intro trivial ?_)
  refine And.intro ?_ (And.intro trivial trivial)
  intro r hr _
  rw [List.mem_singleton.mp hr]
  exact ⟨rfl, by decide⟩

/-
  Two data functions write one block. The second one has
  written it before, so its prepare is quick; it arrives
  while the image of the first is pending and replaces it.
-/
theorem quick_prepare_overwrites_pending_log :
    ∃ s s' r,
      run (step .small) init
          [.start (blockWrite 1 1 [9]), .send 0 false,
            .prepare 0 0, .response 0 0, .commit 0 0 true,
            .start (blockWrite 0 2 [1, 2]), .send 1 false,
            .prepare 1 0,
            .start (blockWrite 1 3 [3]), .send 2 true] =
        some s ∧
        s.txns[2]? = some r ∧
        (r.state 0).request = .sent true ∧
        s.lock 1 0 =
          some ⟨⟨Vector.replicate 32 7, 0⟩, 2, [1, 2]⟩ ∧
        (s.block .small
          ⟨Vector.replicate 32 7, 0⟩).havePending = true ∧
        (s.block .small ⟨Vector.replicate 32 7, 0⟩).log =
          ⟨1, 2, [1, 2]⟩ ∧
        s.step .small (.prepare 2 0) = some s' ∧
        (s'.block .small ⟨Vector.replicate 32 7, 0⟩).log =
          ⟨1, 3, [3]⟩ := by
  refine ⟨_, _, _, rfl, rfl, rfl, rfl, rfl, rfl, rfl, ?_⟩
  decide

end Sys

end Slfs
