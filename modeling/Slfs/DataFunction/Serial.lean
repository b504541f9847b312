import Slfs.DataFunction.ErrorReply

/-
  Reads and commits that nothing else comes between.

  While no other request writes, in whatever order messages
  and answers arrive, a read brings the bytes of its range,
  and a commit writes all of its pieces.

  Main declarations:
    * `Writing.Delivered`, a commit and its messages so far
    * `Writing.Over.stepped`
-/

----------
-- Reads Of Some Servers
----------

namespace Slfs

open Transition

namespace Reading

variable {conf : StorageConf} {base : Cluster}
variable {r : Reading}

/-
  A read whose answers come from some servers. The slots of
  the accumulator are filled with answers.
-/
structure Serving
    (conf : StorageConf)
    (base : Cluster)
    (r : Reading) :
    Prop where
  served :
    ∀ i buf, r.answers i = some buf →
      ∃ chunk, (chunks conf r.range)[i]? = some chunk ∧
        base.readAnswer conf r.range.uuid chunk = some buf
  filled :
    ∀ i buf, r.reader.results[i]? = some (some buf) →
      r.answers i = some buf

theorem serving_start (call : Cont × Range) :
    (start conf call).Serving conf base where
  served := by
    intro i buf hNone
    cases hNone
  filled := by
    intro i buf hSome
    have hMem := List.mem_of_getElem? hSome
    have hNone := List.eq_of_mem_replicate hMem
    cases hNone

variable {i : Nat} {buf : Bytes}

/- One more answer is sent. -/
theorem Serving.serve
    (h : r.Serving conf base)
    {chunk : Chunk}
    (hChunk : (chunks conf r.range)[i]? = some chunk)
    (hServed :
      base.readAnswer conf r.range.uuid chunk = some buf)
    (hNew : r.answers i = none) :
    { r with
      answers :=
        Function.update r.answers i (some buf) }.Serving
      conf base where
  served := by
    intro j other hOther
    simp only at hOther
    by_cases hIndex : j = i
    · subst hIndex
      rw [Function.update_self] at hOther
      cases hOther
      exact ⟨chunk, hChunk, hServed⟩
    · rw [Function.update_of_ne hIndex] at hOther
      exact h.served j other hOther
  filled := by
    intro j other hOther
    have hOld := h.filled j other hOther
    have hIndex : j ≠ i := by
      intro hEq
      rw [hEq, hNew] at hOld
      cases hOld
    simp only
    rw [Function.update_of_ne hIndex]
    exact hOld

/- An answer is handled. -/
theorem Serving.onResponse
    (h : r.Serving conf base)
    (hServed : r.answers i = some buf) :
    (r.onResponse i buf).Serving conf base where
  served := h.served
  filled := by
    intro j other hOther
    have hResults :
        (r.onResponse i buf).reader.results =
          r.reader.results.set i (some buf) := by
      unfold Reading.onResponse Reader.onResponse
      simp only
      split <;> rfl
    rw [hResults] at hOther
    by_cases hIndex : j = i
    · subst hIndex
      have hLt := (List.getElem?_eq_some_iff.mp hOther).1
      rw [List.getElem?_set_self (by simpa using hLt)] at hOther
      cases hOther
      exact hServed
    · rw [List.getElem?_set_ne (Ne.symm hIndex)] at hOther
      exact h.filled j other hOther

/- All slots are filled: the bytes of the range. -/
theorem Serving.readBytes
    (h : r.Serving conf base)
    (hSlots :
      r.reader.results.length = (chunks conf r.range).length)
    (hAll : r.reader.results.all Option.isSome)
    (hSome : r.reader.results ≠ []) :
    base.readBytes conf r.range.uuid r.range.position
        r.range.size =
      some (Reader.collect r.reader.results) := by
  have hSize : r.range.size ≠ 0 := by
    intro hZero
    have hNone : chunks conf r.range = [] := by
      unfold chunks Cluster.readChunks
      rw [hZero, Nat.add_zero]
      exact Chunks.chunks_of_le (Nat.mod_le _ _)
    rw [hNone] at hSlots
    exact hSome (List.length_eq_zero_iff.mp hSlots)
  -- each slot has what the server answers for its chunk
  have hSlot : ∀ (i : Nat) (chunk : Chunk),
      (chunks conf r.range)[i]? = some chunk →
        ∃ buf, r.reader.results[i]? = some (some buf) ∧
          base.readAnswer conf r.range.uuid chunk =
            some buf := by
    intro i chunk hChunk
    have hLt : i < r.reader.results.length := by
      rw [hSlots]
      exact (List.getElem?_eq_some_iff.mp hChunk).1
    have hGet := List.getElem?_eq_getElem hLt
    have hIs := List.all_eq_true.mp hAll _
      (List.getElem_mem hLt)
    rcases Option.isSome_iff_exists.mp hIs with ⟨buf, hBuf⟩
    rw [hBuf] at hGet
    rcases h.served i buf (h.filled i buf hGet) with
      ⟨other, hOther, hServed⟩
    rw [hChunk] at hOther
    cases hOther
    exact ⟨buf, hGet, hServed⟩
  have hAnswer : ∀ chunk ∈ chunks conf r.range,
      base.readAnswer conf r.range.uuid chunk =
        some ((base.readAnswer conf r.range.uuid
          chunk).getD []) := by
    intro chunk hMem
    rcases List.getElem?_of_mem hMem with ⟨i, hi⟩
    rcases hSlot i chunk hi with ⟨buf, _, hBuf⟩
    rw [hBuf, Option.getD_some]
  have hResults : r.reader.results =
      (chunks conf r.range).map (fun chunk =>
        base.readAnswer conf r.range.uuid chunk) := by
    refine List.ext_getElem? ?_
    intro i
    cases hChunk : (chunks conf r.range)[i]? with
    | none =>
        rw [List.getElem?_map, hChunk, Option.map_none]
        rw [List.getElem?_eq_none_iff] at hChunk ⊢
        omega
    | some chunk =>
        rcases hSlot i chunk hChunk with ⟨buf, hGet, hBuf⟩
        rw [List.getElem?_map, hChunk, Option.map_some, hBuf,
          hGet]
  unfold Cluster.readBytes Cluster.readAnswers
  rw [if_neg hSize]
  have hMap := mapM_option_eq_some hAnswer
  unfold chunks at hMap
  rw [hMap, Option.map_some, hResults, Reader.collect,
    List.flatMap_map, ← List.flatMap_def]
  rfl

/- The last answer brings the bytes of the range. -/
theorem Serving.content
    (h : r.Serving conf base)
    (hTimely : r.Timely conf)
    {i : Nat}
    {buf content : Bytes}
    {rest : List Bytes}
    (hServed : r.answers i = some buf)
    (hSlot : r.reader.results[i]? = some none)
    (hLast :
      (r.onResponse i buf).reader.replies =
        content :: rest) :
    base.readBytes conf r.range.uuid r.range.position
      r.range.size = some content := by
  have hReplies : r.reader.replies = [] := by
    simpa [Called] using hTimely.not_called hSlot
  have hLt := (List.getElem?_eq_some_iff.mp hSlot).1
  by_cases hAll :
      (r.reader.results.set i (some buf)).all Option.isSome
  · have hReader : (r.onResponse i buf).reader =
        { results := r.reader.results.set i (some buf)
          replies :=
            [Reader.collect
              (r.reader.results.set i (some buf))] } := by
      simp [Reading.onResponse, Reader.onResponse, hAll,
        hReplies]
    have hBytes := (h.onResponse hServed).readBytes
      (by rw [hReader]
          simpa [Reading.onResponse] using hTimely.slots)
      (by rw [hReader]; exact hAll)
      (by
        rw [hReader]
        exact List.ne_nil_of_length_pos (by
          rw [List.length_set]
          omega))
    rw [hReader] at hLast hBytes
    cases hLast
    exact hBytes
  · simp [Reading.onResponse, Reader.onResponse, hAll,
      hReplies] at hLast

end Reading

----------
-- Commits And Their Messages
----------

namespace Writing

/- One step of a commit over the servers. -/
inductive Stepped
    (conf : StorageConf)
    (servers : Cluster)
    (w : Writing) :
    Cluster → Writing → Prop where
| send
    {session : Session} (quick : Bool)
    (hSession : w.stepSession .send = some session) :
    Stepped conf servers w servers
      { w with
        session := session
        requests := Function.update w.requests
          w.session.coordinator.sent (.sent quick) }
| prepare
    {i : Nat} {p : Piece} {quick : Bool} {resp : Packet}
    {servers' : Cluster}
    (hPiece : w.pieces[i]? = some p)
    (hSent : w.requests i = .sent quick)
    (hRequest :
      servers.request conf (p.prepareRequest quick w.version) =
        some (resp, servers')) :
    Stepped conf servers w servers'
      { w with
        requests := Function.update w.requests i
          (.handled resp.header.type) }
| response
    {i : Nat} {type : MsgT} {session : Session}
    (hHandled : w.requests i = .handled type)
    (hSession :
      w.stepSession (.respond i type) = some session) :
    Stepped conf servers w servers
      ({ w with session := session }.broadcast
        (w.session.coordinator.outcome type))
| commit
    {i : Nat} {agree : Bool} {p : Piece} {resp : Packet}
    {servers' : Cluster}
    (hPiece : w.pieces[i]? = some p)
    (hOnWay : (i, agree) ∈ w.onWay)
    (hRequest :
      servers.request conf (p.commitRequest agree w.version) =
        some (resp, servers')) :
    Stepped conf servers w servers'
      { w with onWay := w.onWay.erase (i, agree) }
| deadline
    {session : Session}
    (hSession : w.stepSession .deadline = some session) :
    Stepped conf servers w servers { w with session := session }
| timer
    {session : Session}
    (hSession : w.stepSession .timer = some session) :
    Stepped conf servers w servers { w with session := session }

/-
  What the requests of a commit record: nothing before they
  are sent, and what the server said before it is counted.
-/
structure Recorded (w : Writing) : Prop where
  size_pos : 0 < w.size
  unsent :
    ∀ i, w.session.coordinator.sent ≤ i →
      w.requests i = .unsent
  handled :
    ∀ i type, (i, type) ∈ w.session.answered →
      w.requests i = .handled type

/- Nothing of the commit is on its way. -/
def Over (w : Writing) : Prop :=
  w.session.answered.length = w.size ∧ w.onWay = []

instance decidableOver
    (w : Writing) :
    Decidable w.Over := by
  unfold Over
  infer_instance

/- The write of piece `i` has been executed. -/
def Executed (w : Writing) (i : Nat) : Prop :=
  true ∈ w.session.coordinator.commits ∧ (i, true) ∉ w.onWay

/- The messages of piece `i` that its server has handled. -/
def Logged (w : Writing) (i : Nat) (log : List Delivery) :
    Prop :=
  match w.requests i with
  | .unsent | .sent _ => log = []
  | .handled type =>
      type = .twoPcPrepareAgree ∧
        ∃ quick,
          (¬ w.Executed i ∧ log = [.prepare i quick]) ∨
            (w.Executed i ∧
              log = [.prepare i quick, .commitExecute i])

/-
  A commit that found some servers with nothing pending, and
  what its messages have made of them.
-/
structure Delivered
    (conf : StorageConf)
    (base servers : Cluster)
    (w : Writing) :
    Prop extends Recorded w where
  once : w.onWay.Nodup
  agree : ∀ b ∈ w.session.coordinator.commits, b = true
  log :
    ∃ log,
      run (Cluster.deliver conf w.pieces w.version) base log =
        some servers ∧
      (∀ d ∈ log, d.index < w.size) ∧
      ∀ i < w.size,
        w.Logged i (log.filter (fun d => d.index = i))

variable {conf : StorageConf}
variable {base servers servers' : Cluster}
variable {w w' : Writing}

theorem recorded_start
    {version : Version}
    {writes : Writes}
    (hPieces : Cluster.piecesOf conf writes.2 ≠ []) :
    (start conf version writes).Recorded where
  size_pos := List.length_pos_of_ne_nil hPieces
  unsent := fun _ _ => rfl
  handled := by simp [start, Session.start]

theorem delivered_start
    {version : Version}
    {writes : Writes}
    (hPieces : Cluster.piecesOf conf writes.2 ≠ []) :
    (start conf version writes).Delivered conf base base where
  toRecorded := recorded_start hPieces
  once := List.nodup_nil
  agree := by simp [start, Session.start, Coordinator.start]
  log := ⟨[], rfl, by simp, fun _ _ => rfl⟩

theorem Stepped.pieces_eq
    (h : Stepped conf servers w servers' w') :
    w'.pieces = w.pieces := by
  cases h with
  | send | prepare | commit | deadline | timer => rfl
  | @response i type =>
      cases w.session.coordinator.outcome type <;> rfl

/- A step keeps the record. -/
theorem Recorded.stepped
    (h : w.Recorded)
    (hSettled : w.Settled)
    (hStep : Stepped conf servers w servers' w') :
    w'.Recorded := by
  have hCounted := hSettled.faithful.counted
  cases hStep with
  | @send session quick hSession =>
      rcases Session.step_send hSession with ⟨_, rfl⟩
      refine
        { size_pos := h.size_pos
          unsent := ?_
          handled := ?_ }
      · intro i hi
        have hLt : w.session.coordinator.sent < i := hi
        simp only
        rw [Function.update_of_ne (by omega)]
        exact h.unsent i (by omega)
      · intro i type hMem
        have hLt := hCounted.index_lt (i, type) hMem
        simp only at hLt ⊢
        rw [Function.update_of_ne (by omega)]
        exact h.handled i type hMem
  | @prepare i p quick resp servers' hPiece hSent hRequest =>
      refine
        { size_pos := h.size_pos
          unsent := ?_
          handled := ?_ }
      · intro j hj
        have hOld := h.unsent j hj
        have hNe : j ≠ i := by
          rintro rfl
          rw [hOld] at hSent
          cases hSent
        simp only
        rw [Function.update_of_ne hNe]
        exact hOld
      · intro j type hMem
        have hOld := h.handled j type hMem
        have hNe : j ≠ i := by
          rintro rfl
          rw [hOld] at hSent
          cases hSent
        simp only
        rw [Function.update_of_ne hNe]
        exact hOld
  | @response i type session hHandled hSession =>
      rcases Session.step_respond hSession with ⟨hGuard, rfl⟩
      have hNew :
          { w with
            session :=
              { coordinator :=
                  w.session.coordinator.onResponse w.kind type
                answered :=
                  w.session.answered ++ [(i, type)] } }.Recorded := by
        refine
          { size_pos := h.size_pos
            unsent := by simpa using h.unsent
            handled := ?_ }
        intro j other hMem
        rcases List.mem_append.mp hMem with hOld | hLast
        · exact h.handled j other hOld
        · have hEq := List.mem_singleton.mp hLast
          cases hEq
          exact hHandled
      cases w.session.coordinator.outcome type with
      | none => exact hNew
      | some agree =>
          exact ⟨hNew.size_pos, hNew.unsent, hNew.handled⟩
  | commit => exact ⟨h.size_pos, h.unsent, h.handled⟩
  | deadline hSession =>
      have hEq := Session.step_deadline hSession
      subst hEq
      exact ⟨h.size_pos, h.unsent, h.handled⟩
  | timer hSession =>
      rcases Session.step_timer hSession with ⟨_, rfl⟩
      exact ⟨h.size_pos, h.unsent, h.handled⟩

----------
-- What The Messages Make Of The Servers
----------

variable {i : Nat} {quick : Bool} {log : List Delivery}
variable {d : Delivery} {p : Piece} {resp : Packet}

/- A commit that has not decided yet has committed nothing. -/
theorem Recorded.commits_of_sent
    (h : w.Recorded)
    (hSettled : w.Settled)
    (hLt : i < w.size)
    (hSent : w.requests i = .sent quick) :
    w.session.coordinator.commits = [] := by
  rcases hSettled.faithful.phase with hNone | hWait | hDone
  · exact hNone.2
  · exact hWait.commits
  · -- the request would have been answered
    rcases hSettled.faithful.counted.exists_answer
      hDone.answered_eq i hLt with
      ⟨type, hMem⟩
    rw [h.handled i type hMem] at hSent
    cases hSent

/- A commit that has decided has all of its answers. -/
theorem Recorded.handled_of_commits
    (h : w.Recorded)
    (hSettled : w.Settled)
    (hCommits : w.session.coordinator.commits ≠ [])
    (hLt : i < w.size) :
    ∃ type, w.requests i = .handled type := by
  rcases hSettled.faithful.phase with hNone | hWait | hDone
  · exact absurd hNone.2 hCommits
  · exact absurd hWait.commits hCommits
  · rcases hSettled.faithful.counted.exists_answer
      hDone.answered_eq i hLt with
      ⟨type, hMem⟩
    exact ⟨type, h.handled i type hMem⟩

/- The log of a piece that a step does not touch. -/
theorem Logged.congr
    (h : w.Logged i log)
    (hRequests : w'.requests i = w.requests i)
    (hExecuted : w'.Executed i ↔ w.Executed i) :
    w'.Logged i log := by
  unfold Logged at h ⊢
  rw [hRequests]
  simp only [hExecuted]
  exact h

/- Messages of a piece in a log with one more message. -/
theorem filter_index_append_of_eq
    (hIndex : d.index = i) :
    (log ++ [d]).filter (fun d => d.index = i) =
      log.filter (fun d => d.index = i) ++ [d] := by
  rw [List.filter_append]
  simp [hIndex]

theorem filter_index_append_of_ne
    (hIndex : d.index ≠ i) :
    (log ++ [d]).filter (fun d => d.index = i) =
      log.filter (fun d => d.index = i) := by
  rw [List.filter_append]
  simp [hIndex]

section

variable (h : w.Delivered conf base servers)
include h

/- A server handles a prepare. -/
theorem Delivered.prepare
    (hSettled : w.Settled)
    (hNodup : (w.pieces.map Piece.key).Nodup)
    (hPending : base.NoPending conf)
    (hRecorded : w'.Recorded)
    (hPiece : w.pieces[i]? = some p)
    (hSent : w.requests i = .sent quick)
    (hRequest :
      servers.request conf (p.prepareRequest quick w.version) =
        some (resp, servers'))
    (hNext : w' =
      { w with
        requests := Function.update w.requests i
          (.handled resp.header.type) }) :
    w'.Delivered conf base servers' := by
  subst hNext
  rcases h.log with ⟨log, hRun, hInside, hLogged⟩
  have hLt : i < w.size := (List.getElem?_eq_some_iff.mp hPiece).1
  have hNone : log.filter (fun d => d.index = i) = [] := by
    have hOld := hLogged i hLt
    unfold Logged at hOld
    rw [hSent] at hOld
    exact hOld
  have hFree : (servers.block conf p.key).havePending = false := by
    rw [Cluster.run_deliver_piece hNodup hPiece hRun, hNone]
    exact hPending p.key
  have hAgree := (Cluster.request_prepare_agree hFree hRequest).1
  have hCommits :=
    h.toRecorded.commits_of_sent hSettled hLt hSent
  have hDeliver :
      servers.deliver conf w.pieces w.version
        (.prepare i quick) = some servers' := by
    unfold Cluster.deliver
    simp only [Delivery.index, Delivery.packet, hPiece,
      hRequest, Option.map_some]
  have hOwn : (Delivery.prepare i quick).index = i := rfl
  refine
    { toRecorded := hRecorded
      once := h.once
      agree := h.agree
      log := ⟨log ++ [.prepare i quick], ?_, ?_, ?_⟩ }
  · exact run_append.mpr
      ⟨servers, hRun, run_singleton.mpr hDeliver⟩
  · intro d hMem
    rcases List.mem_append.mp hMem with hOld | hLast
    · exact hInside d hOld
    · rw [List.mem_singleton.mp hLast]
      exact hLt
  · intro j hj
    by_cases hIndex : i = j
    · subst hIndex
      rw [filter_index_append_of_eq hOwn, hNone]
      unfold Logged
      simp only [Function.update_self]
      refine ⟨hAgree, quick, Or.inl ⟨?_, rfl⟩⟩
      intro hExecuted
      have hMem := hExecuted.1
      simp only [hCommits, List.not_mem_nil] at hMem
    · rw [filter_index_append_of_ne (hOwn ▸ hIndex)]
      exact (hLogged j hj).congr
        (Function.update_of_ne (Ne.symm hIndex) _ _) Iff.rfl

/- The answers that are counted are all agrees. -/
theorem Delivered.agreed
    {type : MsgT}
    (hLt : i < w.size)
    (hHandled : w.requests i = .handled type) :
    type = .twoPcPrepareAgree := by
  rcases h.log with ⟨log, _, _, hLogged⟩
  have hOld := hLogged i hLt
  unfold Logged at hOld
  rw [hHandled] at hOld
  exact hOld.1

/- The coordinator counts an answer. -/
theorem Delivered.response
    (hSettled : w.Settled)
    {type : MsgT}
    {session : Session}
    (hHandled : w.requests i = .handled type)
    (hSession :
      w.stepSession (.respond i type) = some session)
    (hNext : w' =
      { w with session := session }.broadcast
        (w.session.coordinator.outcome type))
    (hRecorded : w'.Recorded) :
    w'.Delivered conf base servers := by
  subst hNext
  rcases Session.step_respond hSession with ⟨hGuard, rfl⟩
  have hCounted := hSettled.faithful.counted
  have hLt : i < w.size :=
    Nat.lt_of_lt_of_le hGuard.1 hCounted.sent_le
  have hType := h.agreed hLt hHandled
  have hMore := hCounted.answered_lt hGuard.1 hGuard.2
  have hLe := hCounted.sent_le
  have hWait : Session.Waiting w.size w.session := by
    rcases hSettled.faithful.phase with hNone | hWait | hDone
    · have hZero : w.size = 0 := hNone.1
      omega
    · exact hWait
    · have hAll := hDone.answered_eq
      omega
  have hOnWay : w.onWay = [] := by
    refine List.eq_nil_iff_forall_not_mem.mpr ?_
    intro m hMem
    have hOld := hSettled.onWay m hMem
    rw [hWait.commits] at hOld
    cases hOld
  rcases h.log with ⟨log, hRun, hInside, hLogged⟩
  cases hOutcome : w.session.coordinator.outcome type with
  | none =>
      rw [hOutcome] at hRecorded
      have hCommits :
          (w.session.coordinator.onResponse w.kind
            type).commits = w.session.coordinator.commits := by
        simp only [Coordinator.onResponse, hOutcome]
      refine
        { toRecorded := hRecorded
          once := h.once
          agree := ?_
          log := ⟨log, hRun, hInside, ?_⟩ }
      · intro b hMem
        exact h.agree b (hCommits ▸ hMem)
      · intro j hj
        refine (hLogged j hj).congr rfl ?_
        simp only [Executed, broadcast, hCommits]
  | some agree =>
      rw [hOutcome] at hRecorded
      -- every answer so far was an agree
      have hAll : w.session.coordinator.allSsbdAgree = true := by
        refine hCounted.agree.mpr ?_
        rintro ⟨j, other⟩ hMem
        have hIndex := hCounted.index_lt _ hMem
        exact h.agreed (Nat.lt_of_lt_of_le hIndex hLe)
          (h.handled j other hMem)
      have hTrue : agree = true := by
        unfold Coordinator.outcome at hOutcome
        split at hOutcome
        · cases hOutcome
          simp [Coordinator.agreed, hAll, hType]
        · cases hOutcome
      subst hTrue
      have hCommits :
          (w.session.coordinator.onResponse w.kind
            type).commits = [true] := by
        simp only [Coordinator.onResponse, hOutcome,
          hWait.commits, List.nil_append]
      refine
        { toRecorded := hRecorded
          once := ?_
          agree := ?_
          log := ⟨log, hRun, hInside, ?_⟩ }
      · simp only [broadcast, hOnWay, List.nil_append]
        refine List.nodup_range.map ?_
        intro a b hEq
        exact congrArg Prod.fst hEq
      · intro b hMem
        have hOne : b ∈ [true] := hCommits ▸ hMem
        exact List.mem_singleton.mp hOne
      · intro j hj
        refine (hLogged j hj).congr rfl ?_
        constructor
        · intro hExecuted
          refine absurd ?_ hExecuted.2
          simp only [broadcast, hOnWay, List.nil_append]
          exact List.mem_map.mpr
            ⟨j, List.mem_range.mpr hj, rfl⟩
        · intro hExecuted
          have hMem := hExecuted.1
          rw [hWait.commits] at hMem
          cases hMem

/- A server handles a message of the second round. -/
theorem Delivered.commit
    (hSettled : w.Settled)
    {agree : Bool}
    (hPiece : w.pieces[i]? = some p)
    (hOnWay : (i, agree) ∈ w.onWay)
    (hRequest :
      servers.request conf (p.commitRequest agree w.version) =
        some (resp, servers'))
    (hNext : w' =
      { w with onWay := w.onWay.erase (i, agree) })
    (hRecorded : w'.Recorded) :
    w'.Delivered conf base servers' := by
  subst hNext
  have hDecided := hSettled.onWay _ hOnWay
  have hTrue := h.agree agree hDecided
  subst hTrue
  have hLt : i < w.size := (List.getElem?_eq_some_iff.mp hPiece).1
  rcases h.toRecorded.handled_of_commits hSettled
    (List.ne_nil_of_mem hDecided) hLt with
    ⟨type, hHandled⟩
  rcases h.log with ⟨log, hRun, hInside, hLogged⟩
  have hDeliver :
      servers.deliver conf w.pieces w.version
        (.commitExecute i) = some servers' := by
    unfold Cluster.deliver
    simp only [Delivery.index, Delivery.packet, hPiece,
      hRequest, Option.map_some]
  have hGone : ∀ j, (j, true) ∈ w.onWay.erase (i, true) ↔
      j ≠ i ∧ (j, true) ∈ w.onWay := by
    intro j
    rw [h.once.mem_erase_iff]
    simp
  have hOwn : (Delivery.commitExecute i).index = i := rfl
  refine
    { toRecorded := hRecorded
      once := h.once.erase _
      agree := h.agree
      log := ⟨log ++ [.commitExecute i], ?_, ?_, ?_⟩ }
  · exact run_append.mpr
      ⟨servers, hRun, run_singleton.mpr hDeliver⟩
  · intro d hMem
    rcases List.mem_append.mp hMem with hOld | hLast
    · exact hInside d hOld
    · rw [List.mem_singleton.mp hLast]
      exact hLt
  · intro j hj
    by_cases hIndex : i = j
    · subst hIndex
      rw [filter_index_append_of_eq hOwn]
      have hOld := hLogged i hj
      unfold Logged at hOld ⊢
      simp only [hHandled] at hOld ⊢
      rcases hOld with ⟨hAgree, quick, hLog⟩
      refine ⟨hAgree, quick, Or.inr ⟨⟨hDecided, ?_⟩, ?_⟩⟩
      · simp [hGone]
      · rcases hLog with ⟨_, hLog⟩ | ⟨hExecuted, _⟩
        · rw [hLog]
          rfl
        · exact absurd hOnWay hExecuted.2
    · rw [filter_index_append_of_ne (hOwn ▸ hIndex)]
      refine (hLogged j hj).congr rfl ?_
      simp only [Executed, hGone]
      simp [Ne.symm hIndex]

/- A step of the commit, whichever it is. -/
theorem Delivered.stepped
    (hSettled : w.Settled)
    (hNodup : (w.pieces.map Piece.key).Nodup)
    (hPending : base.NoPending conf)
    (hStep : Stepped conf servers w servers' w') :
    w'.Delivered conf base servers' := by
  have hRecorded := h.toRecorded.stepped hSettled hStep
  rcases h.log with ⟨log, hRun, hInside, hLogged⟩
  cases hStep with
  | @send session quick hSession =>
      rcases Session.step_send hSession with ⟨hMore, rfl⟩
      refine
        { toRecorded := hRecorded
          once := h.once
          agree := h.agree
          log := ⟨log, hRun, hInside, ?_⟩ }
      intro j hj
      by_cases hIndex : j = w.session.coordinator.sent
      · have hOld := hLogged j hj
        have hUnsent := h.unsent j (by omega)
        unfold Logged at hOld ⊢
        simp only [hUnsent] at hOld
        simp only [hIndex, Function.update_self]
        rw [← hIndex]
        exact hOld
      · exact (hLogged j hj).congr
          (Function.update_of_ne hIndex _ _) Iff.rfl
  | prepare hPiece hSent hRequest =>
      exact h.prepare hSettled hNodup hPending hRecorded hPiece
        hSent hRequest rfl
  | response hHandled hSession =>
      exact h.response hSettled hHandled hSession rfl hRecorded
  | commit hPiece hOnWay hRequest =>
      exact h.commit hSettled hPiece hOnWay hRequest rfl
        hRecorded
  | deadline hSession =>
      have hEq := Session.step_deadline hSession
      subst hEq
      exact
        { toRecorded := hRecorded
          once := h.once
          agree := h.agree
          log := ⟨log, hRun, hInside, hLogged⟩ }
  | timer hSession =>
      rcases Session.step_timer hSession with ⟨_, rfl⟩
      exact
        { toRecorded := hRecorded
          once := h.once
          agree := h.agree
          log := ⟨log, hRun, hInside, hLogged⟩ }

/- A commit with nothing on its way has written its pieces. -/
theorem Delivered.wrote
    (hSettled : w.Settled)
    (hNodup : (w.pieces.map Piece.key).Nodup)
    (hPending : base.NoPending conf)
    (hOver : w.Over) :
    Cluster.Wrote conf w.pieces base servers := by
  rcases hOver with ⟨hAll, hOnWay⟩
  have hPos := h.size_pos
  have hDone : Session.Decided w.size w.session := by
    rcases hSettled.faithful.phase with hNone | hWait | hDone
    · have hZero : w.size = 0 := hNone.1
      omega
    · have hLt := hWait.answered_lt
      omega
    · exact hDone
  have hTrue : true ∈ w.session.coordinator.commits := by
    rcases List.length_eq_one_iff.mp hDone.commits with
      ⟨b, hOne⟩
    have hMem : b ∈ w.session.coordinator.commits := by
      rw [hOne]
      exact List.mem_singleton.mpr rfl
    rw [← h.agree b hMem]
    exact hMem
  rcases h.log with ⟨log, hRun, hInside, hLogged⟩
  refine Cluster.wrote_of_scheduled hNodup hPending
    ⟨hInside, ?_⟩ hRun
  intro i hi
  rcases h.toRecorded.handled_of_commits hSettled
    (List.ne_nil_of_mem hTrue) hi with
    ⟨type, hHandled⟩
  have hOld := hLogged i hi
  unfold Logged at hOld
  simp only [hHandled] at hOld
  rcases hOld with ⟨_, quick, ⟨hNot, _⟩ | ⟨_, hLog⟩⟩
  · refine absurd ⟨hTrue, ?_⟩ hNot
    rw [hOnWay]
    exact List.not_mem_nil
  · exact ⟨quick, hLog⟩

end

/- A commit with nothing on its way does nothing more. -/
theorem Over.stepped
    (h : w.Over)
    (hRecorded : w.Recorded)
    (hSettled : w.Settled)
    (hStep : Stepped conf servers w servers' w') :
    servers' = servers ∧ w'.Over ∧
      w'.session.coordinator.replies =
        w.session.coordinator.replies := by
  rcases h with ⟨hAll, hOnWay⟩
  have hCounted := hSettled.faithful.counted
  have hLe := hCounted.answered_le
  have hSize := hCounted.sent_le
  have hPos := hRecorded.size_pos
  cases hStep with
  | send _ hSession =>
      have hMore := (Session.step_send hSession).1
      omega
  | prepare hPiece hSent =>
      have hLt := (List.getElem?_eq_some_iff.mp hPiece).1
      rcases hCounted.exists_answer hAll _ hLt with
        ⟨type, hMem⟩
      rw [hRecorded.handled _ type hMem] at hSent
      cases hSent
  | response _ hSession =>
      have hGuard := (Session.step_respond hSession).1
      have hLt := hCounted.answered_lt hGuard.1 hGuard.2
      omega
  | commit _ hMem =>
      rw [hOnWay] at hMem
      cases hMem
  | deadline hSession =>
      have hEq := Session.step_deadline hSession
      subst hEq
      exact ⟨rfl, ⟨hAll, hOnWay⟩, rfl⟩
  | timer hSession =>
      have hExpired := (Session.step_timer hSession).1
      rcases hSettled.faithful.phase with hNone | hWait | hDone
      · have hZero : w.size = 0 := hNone.1
        omega
      · rw [hWait.timer] at hExpired
        cases hExpired
      · rw [hDone.timer] at hExpired
        cases hExpired

end Writing

end Slfs
