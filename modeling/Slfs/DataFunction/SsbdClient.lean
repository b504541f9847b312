import Slfs.Lib.Table
import Slfs.Lib.Transition
import Slfs.Ssbd.Wire

/-
  The client side of the connection to a storage server.

  A request becomes a job that waits for its response. A
  response runs the job and takes it out of the jobs that
  wait. A failed write and closing the socket cancel jobs
  without taking them out. Packets are written one at a time,
  and the first one starts the loop that reads responses.

  Main declarations:
    * `SsbdClient.Waits`, a condition on events
    * `SsbdClient.called_once_iff`
-/

----------
-- Jobs
----------

namespace Slfs

/- The part of a header under which a job waits. -/
structure JobKey where
  uuid : Uuid
  blockid : UInt32
  salt : Vector UInt8 4
deriving DecidableEq, Repr

namespace WirePacket

def jobKey (p : WirePacket) : JobKey :=
  { uuid := p.header.uuid
    blockid := p.header.blockid
    salt := p.header.salt }

/- What a job that is cancelled gets for a response. -/
def cancelled (request : WirePacket) : WirePacket :=
  { header := { request.header with type := .err }
    data := [] }

end WirePacket

/-
  A job is known by the request it was made from. `called` is
  the record of the calls to callbacks. `sent` and `dropped`
  are not part of the client: the keys that were sent, and
  those of the jobs that were cancelled.
-/
structure SsbdClient where
  outstandingJobs : List WirePacket
  writeQueue : List WirePacket
  isWriting : Bool
  writing : Option WirePacket
  readStarted : Bool
  reading : Bool
  called : List (JobKey × WirePacket)
  sent : List JobKey
  dropped : List JobKey
deriving DecidableEq, Repr

namespace SsbdClient

def init : SsbdClient :=
  { outstandingJobs := []
    writeQueue := []
    isWriting := false
    writing := none
    readStarted := false
    reading := false
    called := []
    sent := []
    dropped := [] }

/- How often the callback of a request was called. -/
def calls (k : JobKey) (c : SsbdClient) : Nat :=
  c.called.countP (fun call => call.1 = k)

/- The callback of a job is called. -/
def run (request resp : WirePacket) (c : SsbdClient) :
    SsbdClient :=
  { c with called := c.called ++ [(request.jobKey, resp)] }

def cancel (request : WirePacket) (c : SsbdClient) :
    SsbdClient :=
  { c.run request request.cancelled with
    dropped := c.dropped ++ [request.jobKey] }

/- The next packet of the queue is written, if there is one. -/
def startWriteOnePacket (c : SsbdClient) : SsbdClient :=
  match c.writeQueue with
  | [] => { c with isWriting := false, writing := none }
  | p :: queue =>
      { c with writeQueue := queue, writing := some p }

def startWriteSocket (p : WirePacket) (c : SsbdClient) :
    SsbdClient :=
  if c.isWriting then
    { c with writeQueue := c.writeQueue ++ [p] }
  else
    { c with
      writeQueue := c.writeQueue ++ [p]
      isWriting := true }.startWriteOnePacket

def startSendRequest (request : WirePacket) (c : SsbdClient) :
    SsbdClient :=
  { c with
    outstandingJobs := c.outstandingJobs ++ [request]
    sent := c.sent ++ [request.jobKey]
  }.startWriteSocket request

/- The loop is started once. -/
def startReadLoop (c : SsbdClient) : SsbdClient :=
  if c.readStarted then c
  else { c with readStarted := true, reading := true }

def close (c : SsbdClient) : SsbdClient :=
  c.outstandingJobs.foldl (fun c job => c.cancel job) c

/- What can happen to the client. -/
inductive Event where
| send (request : WirePacket)
| written
| writeFailed
| response (resp : WirePacket)
| readFailed
| close
deriving DecidableEq, Repr

/-
  Keys are sent once, only a packet that is being written is
  completed, and responses come for jobs that wait, as long as
  the loop reads.
-/
def step (c : SsbdClient) : Event → Option SsbdClient
| .send request =>
    if request.jobKey ∈ c.sent then none
    else some (c.startSendRequest request)
| .written =>
    match c.writing with
    | none => none
    | some _ => some c.startReadLoop.startWriteOnePacket
| .writeFailed =>
    match c.writing with
    | none => none
    | some p =>
        some { c.cancel p with
          isWriting := false
          writing := none }
| .response resp =>
    if c.reading then
      match c.outstandingJobs.find?
          (fun job => job.jobKey = resp.jobKey) with
      | none => none
      | some job =>
          some { c.run job resp with
            outstandingJobs :=
              c.outstandingJobs.eraseP
                (fun job => job.jobKey = resp.jobKey) }
    else none
| .readFailed =>
    if c.reading then some { c with reading := false } else none
| .close => some c.close

/- Every callback was called once at most. -/
def CalledOnce (c : SsbdClient) : Prop :=
  ∀ k, c.calls k ≤ 1

/-
  An event finishes jobs that wait and that have not been
  cancelled before.
-/
def Waits (c : SsbdClient) : Event → Prop
| .send _ => True
| .written => True
| .writeFailed =>
    ∀ p ∈ c.writing,
      p.jobKey ∈ c.outstandingJobs.map WirePacket.jobKey ∧
        p.jobKey ∉ c.dropped
| .response resp => resp.jobKey ∉ c.dropped
| .readFailed => True
| .close => ∀ job ∈ c.outstandingJobs, job.jobKey ∉ c.dropped

instance (c : SsbdClient) (e : Event) : Decidable (Waits c e) :=
  match e with
  | .send _ => .isTrue trivial
  | .written => .isTrue trivial
  | .writeFailed =>
      inferInstanceAs (Decidable (∀ p ∈ c.writing,
        p.jobKey ∈ c.outstandingJobs.map WirePacket.jobKey ∧
          p.jobKey ∉ c.dropped))
  | .response resp =>
      inferInstanceAs (Decidable (resp.jobKey ∉ c.dropped))
  | .readFailed => .isTrue trivial
  | .close =>
      inferInstanceAs (Decidable (∀ job ∈ c.outstandingJobs,
        job.jobKey ∉ c.dropped))

----------
-- Calls
----------

variable {c c' : SsbdClient}

@[simp] theorem calls_run
    (k : JobKey)
    (request resp : WirePacket)
    (c : SsbdClient) :
    (c.run request resp).calls k =
      c.calls k + if request.jobKey = k then 1 else 0 := by
  simp [run, calls, List.countP_append]

@[simp] theorem calls_cancel
    (k : JobKey)
    (request : WirePacket)
    (c : SsbdClient) :
    (c.cancel request).calls k =
      c.calls k + if request.jobKey = k then 1 else 0 :=
  calls_run k request request.cancelled c

/- Writing calls no callback and changes no job. -/
theorem startWriteOnePacket_frame
    (c : SsbdClient) :
    c.startWriteOnePacket.outstandingJobs =
        c.outstandingJobs ∧
      c.startWriteOnePacket.called = c.called ∧
      c.startWriteOnePacket.sent = c.sent ∧
      c.startWriteOnePacket.dropped = c.dropped := by
  unfold startWriteOnePacket
  split
  · exact ⟨rfl, rfl, rfl, rfl⟩
  · exact ⟨rfl, rfl, rfl, rfl⟩

/- The packets that are written or wait to be. -/
def packets (c : SsbdClient) : List WirePacket :=
  c.writing.toList ++ c.writeQueue

theorem packets_startWriteOnePacket
    (c : SsbdClient) :
    ∀ p ∈ c.startWriteOnePacket.packets,
      p ∈ c.writeQueue := by
  unfold startWriteOnePacket packets
  split
  · rename_i hQueue
    simp [hQueue]
  · rename_i p queue hQueue
    simp [hQueue]

/-
  Which callbacks were called: of the jobs that wait, those
  that were cancelled, and of the others that were sent, all.
-/
structure Tracked (c : SsbdClient) : Prop where
  nodup : (c.outstandingJobs.map WirePacket.jobKey).Nodup
  waiting :
    ∀ job ∈ c.outstandingJobs, job.jobKey ∉ c.dropped →
      c.calls job.jobKey = 0
  dropped : ∀ k ∈ c.dropped, 1 ≤ c.calls k
  answered :
    ∀ k ∈ c.sent,
      k ∉ c.outstandingJobs.map WirePacket.jobKey →
      1 ≤ c.calls k
  unsent : ∀ k, k ∉ c.sent → c.calls k = 0
  jobs : ∀ job ∈ c.outstandingJobs, job.jobKey ∈ c.sent
  written : ∀ p ∈ c.packets, p.jobKey ∈ c.sent

theorem tracked_init : Tracked init where
  nodup := List.nodup_nil
  waiting := by simp [init]
  dropped := by simp [init]
  answered := by simp [init]
  unsent := by simp [init, calls]
  jobs := by simp [init]
  written := by simp [init, packets]

/- What closing the socket does, job by job. -/
theorem close_foldl
    (jobs : List WirePacket)
    (c : SsbdClient) :
    ∃ called dropped,
      jobs.foldl (fun c job => c.cancel job) c =
        { c with called := called, dropped := dropped } ∧
      dropped = c.dropped ++ jobs.map WirePacket.jobKey ∧
      ∀ k, called.countP (fun call => call.1 = k) =
        c.calls k + (jobs.map WirePacket.jobKey).count k := by
  induction jobs generalizing c with
  | nil => exact ⟨c.called, c.dropped, rfl, by simp, by simp [calls]⟩
  | cons job jobs ih =>
      rcases ih (c.cancel job) with
        ⟨called, dropped, hFold, hDropped, hCalls⟩
      refine ⟨called, dropped, ?_, ?_, ?_⟩
      · rw [List.foldl_cons, hFold]
        rfl
      · rw [hDropped]
        simp [cancel, run]
      · intro k
        rw [hCalls, calls_cancel, List.map_cons,
          List.count_cons]
        simp only [beq_iff_eq]
        omega

----------
-- Steps
----------

/- What sending a request changes. -/
theorem startSendRequest_frame
    (request : WirePacket)
    (c : SsbdClient) :
    (c.startSendRequest request).outstandingJobs =
        c.outstandingJobs ++ [request] ∧
      (c.startSendRequest request).called = c.called ∧
      (c.startSendRequest request).sent =
        c.sent ++ [request.jobKey] ∧
      (c.startSendRequest request).dropped = c.dropped ∧
      ∀ p ∈ (c.startSendRequest request).packets,
        p ∈ c.packets ∨ p = request := by
  unfold startSendRequest startWriteSocket
  split
  · refine ⟨rfl, rfl, rfl, rfl, ?_⟩
    intro p hp
    simp only [packets, List.mem_append,
      List.mem_singleton] at hp ⊢
    tauto
  · rcases startWriteOnePacket_frame
      { c with
        outstandingJobs := c.outstandingJobs ++ [request]
        sent := c.sent ++ [request.jobKey]
        writeQueue := c.writeQueue ++ [request]
        isWriting := true } with
      ⟨hJobs, hCalled, hSent, hDropped⟩
    refine ⟨hJobs, hCalled, hSent, hDropped, ?_⟩
    intro p hp
    have hIn := packets_startWriteOnePacket _ p hp
    simp only [packets, List.mem_append,
      List.mem_singleton] at hIn ⊢
    tauto

theorem startReadLoop_frame
    (c : SsbdClient) :
    c.startReadLoop.outstandingJobs = c.outstandingJobs ∧
      c.startReadLoop.called = c.called ∧
      c.startReadLoop.sent = c.sent ∧
      c.startReadLoop.dropped = c.dropped ∧
      c.startReadLoop.writeQueue = c.writeQueue := by
  unfold startReadLoop
  split
  · exact ⟨rfl, rfl, rfl, rfl, rfl⟩
  · exact ⟨rfl, rfl, rfl, rfl, rfl⟩

/- What a step changes, case by case. -/
theorem step_send
    {request : WirePacket}
    (hStep : c.step (.send request) = some c') :
    request.jobKey ∉ c.sent ∧
      c' = c.startSendRequest request := by
  rw [step] at hStep
  split at hStep
  · cases hStep
  · rename_i hNew
    exact ⟨hNew, (Option.some.inj hStep).symm⟩

theorem step_written
    (hStep : c.step .written = some c') :
    c' = c.startReadLoop.startWriteOnePacket := by
  rw [step] at hStep
  split at hStep
  · cases hStep
  · exact (Option.some.inj hStep).symm

theorem step_writeFailed
    (hStep : c.step .writeFailed = some c') :
    ∃ p, c.writing = some p ∧
      c' =
        { c.cancel p with
          isWriting := false
          writing := none } := by
  rw [step] at hStep
  split at hStep
  · cases hStep
  · rename_i p hWriting
    exact ⟨p, hWriting, (Option.some.inj hStep).symm⟩

theorem step_response
    {resp : WirePacket}
    (hStep : c.step (.response resp) = some c') :
    ∃ job ∈ c.outstandingJobs, job.jobKey = resp.jobKey ∧
      c' =
        { c.run job resp with
          outstandingJobs :=
            c.outstandingJobs.eraseP
              (fun job => job.jobKey = resp.jobKey) } := by
  rw [step] at hStep
  split at hStep
  · split at hStep
    · cases hStep
    · rename_i job hFind
      have hKey := List.find?_some hFind
      rw [decide_eq_true_eq] at hKey
      exact ⟨job, List.mem_of_find?_eq_some hFind, hKey,
        (Option.some.inj hStep).symm⟩
  · cases hStep

theorem step_readFailed
    (hStep : c.step .readFailed = some c') :
    c' = { c with reading := false } := by
  rw [step] at hStep
  split at hStep
  · exact (Option.some.inj hStep).symm
  · cases hStep

/- The keys of the jobs that still wait after a response. -/
theorem mem_eraseP_iff
    {jobs : List WirePacket}
    (hNodup : (jobs.map WirePacket.jobKey).Nodup)
    {k : JobKey}
    {job : WirePacket} :
    job ∈ jobs.eraseP (fun job => job.jobKey = k) ↔
      job ∈ jobs ∧ job.jobKey ≠ k := by
  rw [Table.eraseP_eq_filter WirePacket.jobKey hNodup,
    List.mem_filter, decide_eq_true_eq]

namespace Tracked

theorem send
    (h : Tracked c)
    {request : WirePacket}
    (hNew : request.jobKey ∉ c.sent) :
    Tracked (c.startSendRequest request) := by
  rcases startSendRequest_frame request c with
    ⟨hJobs, hCalled, hSent, hDropped, hPackets⟩
  have hCalls :
      ∀ k, (c.startSendRequest request).calls k = c.calls k := by
    intro k
    rw [calls, hCalled]
    rfl
  constructor
  · rw [hJobs, List.map_append, List.map_singleton,
      List.nodup_append]
    refine ⟨h.nodup, List.nodup_singleton _, ?_⟩
    intro k hk k' hk'
    rcases List.mem_map.mp hk with ⟨job, hJob, hKey⟩
    rw [List.mem_singleton.mp hk', ← hKey]
    intro hSame
    exact hNew (hSame ▸ h.jobs job hJob)
  · intro job hJob hNot
    rw [hJobs] at hJob
    rw [hDropped] at hNot
    rw [hCalls]
    rcases List.mem_append.mp hJob with hOld | hLast
    · exact h.waiting job hOld hNot
    · rw [List.mem_singleton.mp hLast]
      exact h.unsent _ hNew
  · intro k hk
    rw [hDropped] at hk
    rw [hCalls]
    exact h.dropped k hk
  · intro k hk hNot
    rw [hSent] at hk
    rw [hJobs, List.map_append, List.mem_append, not_or,
      List.map_singleton, List.mem_singleton] at hNot
    rw [hCalls]
    rcases List.mem_append.mp hk with hOld | hLast
    · exact h.answered k hOld hNot.1
    · exact absurd (List.mem_singleton.mp hLast) hNot.2
  · intro k hk
    rw [hSent, List.mem_append, not_or] at hk
    rw [hCalls]
    exact h.unsent k hk.1
  · intro job hJob
    rw [hJobs] at hJob
    rw [hSent]
    rcases List.mem_append.mp hJob with hOld | hLast
    · exact List.mem_append_left _ (h.jobs job hOld)
    · rw [List.mem_singleton.mp hLast]
      exact List.mem_append_right _ List.mem_cons_self
  · intro p hp
    rw [hSent]
    rcases hPackets p hp with hOld | hLast
    · exact List.mem_append_left _ (h.written p hOld)
    · rw [hLast]
      exact List.mem_append_right _ List.mem_cons_self

theorem startWriteOnePacket
    (h : Tracked c) :
    Tracked c.startReadLoop.startWriteOnePacket := by
  rcases startReadLoop_frame c with
    ⟨hJobs, hCalled, hSent, hDropped, hQueue⟩
  rcases startWriteOnePacket_frame c.startReadLoop with
    ⟨hJobs', hCalled', hSent', hDropped'⟩
  have hCalls :
      ∀ k, c.startReadLoop.startWriteOnePacket.calls k =
        c.calls k := by
    intro k
    rw [calls, hCalled', hCalled]
    rfl
  constructor
  · rw [hJobs', hJobs]
    exact h.nodup
  · intro job hJob hNot
    rw [hJobs', hJobs] at hJob
    rw [hDropped', hDropped] at hNot
    rw [hCalls]
    exact h.waiting job hJob hNot
  · intro k hk
    rw [hDropped', hDropped] at hk
    rw [hCalls]
    exact h.dropped k hk
  · intro k hk hNot
    rw [hSent', hSent] at hk
    rw [hJobs', hJobs] at hNot
    rw [hCalls]
    exact h.answered k hk hNot
  · intro k hk
    rw [hSent', hSent] at hk
    rw [hCalls]
    exact h.unsent k hk
  · intro job hJob
    rw [hJobs', hJobs] at hJob
    rw [hSent', hSent]
    exact h.jobs job hJob
  · intro p hp
    have hIn := packets_startWriteOnePacket _ p hp
    rw [hQueue] at hIn
    rw [hSent', hSent]
    exact h.written p (List.mem_append_right _ hIn)

/- A job is cancelled after its write failed. -/
theorem cancel
    {p : WirePacket}
    (h : Tracked c)
    (hWriting : c.writing = some p) :
    Tracked
      { c.cancel p with isWriting := false, writing := none } := by
  have hSent : p.jobKey ∈ c.sent := by
    apply h.written p
    simp [packets, hWriting]
  have hCalls := fun k => calls_cancel k p c
  constructor
  · exact h.nodup
  · intro job hJob hNot
    have hNot' : job.jobKey ∉ c.dropped ++ [p.jobKey] := hNot
    rw [List.mem_append, not_or, List.mem_singleton] at hNot'
    have hNe : p.jobKey ≠ job.jobKey :=
      fun hSame => hNot'.2 hSame.symm
    change (c.cancel p).calls job.jobKey = 0
    rw [hCalls, if_neg hNe, h.waiting job hJob hNot'.1]
  · intro k hk
    change 1 ≤ (c.cancel p).calls k
    rw [hCalls]
    have hk' : k ∈ c.dropped ++ [p.jobKey] := hk
    rcases List.mem_append.mp hk' with hOld | hLast
    · have hOne := h.dropped k hOld
      omega
    · rw [if_pos (List.mem_singleton.mp hLast).symm]
      omega
  · intro k hk hNot
    change 1 ≤ (c.cancel p).calls k
    rw [hCalls]
    have hOne := h.answered k hk hNot
    omega
  · intro k hk
    change (c.cancel p).calls k = 0
    have hNe : p.jobKey ≠ k := fun hSame => hk (hSame ▸ hSent)
    rw [hCalls, if_neg hNe, h.unsent k hk]
  · exact h.jobs
  · intro q hq
    apply h.written q
    have hIn : q ∈ (c.cancel p).writeQueue := by
      simpa [packets] using hq
    exact List.mem_append_right _ hIn

/- A job gets its response and no longer waits. -/
theorem response
    {job resp : WirePacket}
    (h : Tracked c)
    (hJob : job ∈ c.outstandingJobs)
    (hKey : job.jobKey = resp.jobKey) :
    Tracked
      { c.run job resp with
        outstandingJobs :=
          c.outstandingJobs.eraseP
            (fun job => job.jobKey = resp.jobKey) } := by
  have hCalls := fun k => calls_run k job resp c
  constructor
  · refine List.Nodup.sublist ?_ h.nodup
    exact (List.eraseP_sublist).map _
  · intro job' hJob' hNot
    rcases (mem_eraseP_iff h.nodup).mp hJob' with ⟨hIn, hNe⟩
    change (c.run job resp).calls job'.jobKey = 0
    have hNe' : job.jobKey ≠ job'.jobKey := by
      rw [hKey]
      exact Ne.symm hNe
    rw [hCalls, if_neg hNe', h.waiting job' hIn hNot]
  · intro k hk
    change 1 ≤ (c.run job resp).calls k
    rw [hCalls]
    have hOne := h.dropped k hk
    omega
  · intro k hk hNot
    change 1 ≤ (c.run job resp).calls k
    rw [hCalls]
    by_cases hSame : job.jobKey = k
    · rw [if_pos hSame]
      omega
    · have hOld :
          k ∉ c.outstandingJobs.map WirePacket.jobKey := by
        intro hIn
        apply hNot
        rcases List.mem_map.mp hIn with ⟨job', hJob', hKey'⟩
        apply List.mem_map.mpr
        refine ⟨job', (mem_eraseP_iff h.nodup).mpr
          ⟨hJob', ?_⟩, hKey'⟩
        rw [hKey', ← hKey]
        exact Ne.symm hSame
      have hOne := h.answered k hk hOld
      omega
  · intro k hk
    change (c.run job resp).calls k = 0
    have hNe : job.jobKey ≠ k :=
      fun hSame => hk (hSame ▸ h.jobs job hJob)
    rw [hCalls, if_neg hNe, h.unsent k hk]
  · intro job' hJob'
    exact h.jobs job'
      ((mem_eraseP_iff h.nodup).mp hJob').1
  · exact h.written

/- All jobs are cancelled. -/
theorem close
    (h : Tracked c) :
    Tracked c.close := by
  rcases close_foldl c.outstandingJobs c with
    ⟨called, dropped, hClose, hDropped, hCalls⟩
  rw [SsbdClient.close, hClose]
  constructor
  · exact h.nodup
  · intro job hJob hNot
    have hIn : job.jobKey ∈ dropped := by
      rw [hDropped]
      exact List.mem_append_right _ (List.mem_map_of_mem hJob)
    exact absurd hIn hNot
  · intro k hk
    change 1 ≤ called.countP _
    have hk' : k ∈ dropped := hk
    rw [hDropped] at hk'
    rw [hCalls]
    rcases List.mem_append.mp hk' with hOld | hJob
    · have hOne := h.dropped k hOld
      omega
    · have hOne := List.count_pos_iff.mpr hJob
      omega
  · intro k hk hNot
    change 1 ≤ called.countP _
    rw [hCalls]
    have hOne := h.answered k hk hNot
    omega
  · intro k hk
    change called.countP _ = 0
    have hNone :
        k ∉ c.outstandingJobs.map WirePacket.jobKey := by
      intro hIn
      rcases List.mem_map.mp hIn with ⟨job, hJob, hKey⟩
      exact hk (hKey ▸ h.jobs job hJob)
    rw [hCalls, h.unsent k hk, List.count_eq_zero.mpr hNone]
  · exact h.jobs
  · exact h.written

theorem step
    {e : Event}
    (h : Tracked c)
    (hStep : c.step e = some c') :
    Tracked c' := by
  cases e with
  | send request =>
      rcases step_send hStep with ⟨hNew, hEq⟩
      rw [hEq]
      exact h.send hNew
  | written =>
      rw [step_written hStep]
      exact h.startWriteOnePacket
  | writeFailed =>
      rcases step_writeFailed hStep with ⟨p, hWriting, hEq⟩
      rw [hEq]
      exact h.cancel hWriting
  | response resp =>
      rcases step_response hStep with ⟨job, hJob, hKey, hEq⟩
      rw [hEq]
      exact h.response hJob hKey
  | readFailed =>
      rw [step_readFailed hStep]
      exact { h with }
  | close =>
      cases hStep
      exact h.close

end Tracked

----------
-- Called Once
----------

theorem calledOnce_congr
    (hCalls : ∀ k, c'.calls k = c.calls k)
    (h : CalledOnce c) :
    CalledOnce c' := by
  intro k
  rw [hCalls]
  exact h k

/- One more call is the first one. -/
theorem calledOnce_iff_of_call
    {k₀ : JobKey}
    (h : CalledOnce c)
    (hCalls :
      ∀ k, c'.calls k =
        c.calls k + if k₀ = k then 1 else 0) :
    CalledOnce c' ↔ c.calls k₀ = 0 := by
  constructor
  · intro hOnce
    have hLe := hOnce k₀
    rw [hCalls, if_pos rfl] at hLe
    omega
  · intro hNone k
    rw [hCalls]
    have hLe := h k
    split
    · rename_i hSame
      rw [← hSame, hNone]
    · exact hLe

/- A job that waits was called exactly if it was cancelled. -/
theorem Tracked.calls_eq_zero_iff
    (h : Tracked c)
    {job : WirePacket}
    (hJob : job ∈ c.outstandingJobs) :
    c.calls job.jobKey = 0 ↔ job.jobKey ∉ c.dropped := by
  constructor
  · intro hNone hDropped
    have hOne := h.dropped _ hDropped
    omega
  · exact h.waiting job hJob

theorem Tracked.calledOnce_close
    (h : Tracked c)
    (hOnce : CalledOnce c) :
    CalledOnce c.close ↔ c.Waits .close := by
  rcases close_foldl c.outstandingJobs c with
    ⟨called, dropped, hClose, _, hCalls⟩
  have hEach :
      ∀ k, c.close.calls k =
        c.calls k +
          (c.outstandingJobs.map WirePacket.jobKey).count k := by
    intro k
    rw [SsbdClient.close, hClose]
    exact hCalls k
  constructor
  · intro hAfter job hJob
    apply (h.calls_eq_zero_iff hJob).mp
    have hLe := hAfter job.jobKey
    have hIn :
        job.jobKey ∈
          c.outstandingJobs.map WirePacket.jobKey :=
      List.mem_map_of_mem hJob
    have hOne := List.count_pos_iff.mpr hIn
    rw [hEach] at hLe
    omega
  · intro hWaits k
    rw [hEach]
    by_cases hIn :
        k ∈ c.outstandingJobs.map WirePacket.jobKey
    · rcases List.mem_map.mp hIn with ⟨job, hJob, hKey⟩
      rw [List.count_eq_one_of_mem h.nodup hIn, ← hKey,
        (h.calls_eq_zero_iff hJob).mpr (hWaits job hJob)]
    · rw [List.count_eq_zero.mpr hIn]
      exact hOnce k

/- A step keeps callbacks called once exactly if it waits. -/
theorem Tracked.calledOnce_step
    {e : Event}
    (h : Tracked c)
    (hOnce : CalledOnce c)
    (hStep : c.step e = some c') :
    CalledOnce c' ↔ c.Waits e := by
  cases e with
  | send request =>
      rcases step_send hStep with ⟨_, hEq⟩
      refine ⟨fun _ => trivial, fun _ => ?_⟩
      apply calledOnce_congr _ hOnce
      intro k
      rw [hEq, calls, (startSendRequest_frame request c).2.1]
      rfl
  | written =>
      refine ⟨fun _ => trivial, fun _ => ?_⟩
      apply calledOnce_congr _ hOnce
      intro k
      rw [step_written hStep, calls,
        (startWriteOnePacket_frame _).2.1,
        (startReadLoop_frame c).2.1]
      rfl
  | writeFailed =>
      rcases step_writeFailed hStep with ⟨p, hWriting, hEq⟩
      have hIff : CalledOnce c' ↔ c.calls p.jobKey = 0 := by
        apply calledOnce_iff_of_call hOnce
        intro k
        rw [hEq]
        exact calls_cancel k p c
      rw [hIff, Waits, hWriting]
      constructor
      · intro hNone q hq
        cases hq
        have hSent : p.jobKey ∈ c.sent := by
          apply h.written p
          simp [packets, hWriting]
        refine ⟨?_, ?_⟩
        · by_contra hNot
          have hOne := h.answered _ hSent hNot
          omega
        · intro hDropped
          have hOne := h.dropped _ hDropped
          omega
      · intro hWaits
        rcases hWaits p rfl with ⟨hIn, hNot⟩
        rcases List.mem_map.mp hIn with ⟨job, hJob, hKey⟩
        rw [← hKey] at hNot ⊢
        exact h.waiting job hJob hNot
  | response resp =>
      rcases step_response hStep with ⟨job, hJob, hKey, hEq⟩
      have hIff : CalledOnce c' ↔ c.calls job.jobKey = 0 := by
        apply calledOnce_iff_of_call hOnce
        intro k
        rw [hEq]
        exact calls_run k job resp c
      rw [hIff, h.calls_eq_zero_iff hJob, hKey]
      rfl
  | readFailed =>
      refine ⟨fun _ => trivial, fun _ => ?_⟩
      apply calledOnce_congr _ hOnce
      intro k
      rw [step_readFailed hStep]
      rfl
  | close =>
      cases hStep
      exact h.calledOnce_close hOnce

/-
  In every run, every callback is called once at most, in all
  its states, exactly if every event finishes jobs that wait
  and were not cancelled before.
-/
theorem called_once_iff
    {es : List Event}
    {c : SsbdClient}
    (hRun : Transition.run step init es = some c) :
    Transition.Always step CalledOnce init es ↔
      Transition.Along step Waits init es := by
  apply Transition.always_iff_along_within
    (W := fun _ _ => True) (J := Tracked)
  · intro s e s' hTracked _ hStep
    exact hTracked.step hStep
  · intro s e s' hTracked hOnce _ hStep
    exact hTracked.calledOnce_step hOnce hStep
  · exact tracked_init
  · intro k
    exact Nat.zero_le _
  · exact hRun
  · exact Transition.along_of_forall (fun _ _ => trivial)

/- A request for a block. -/
def request (blockid : UInt32) : WirePacket :=
  { header :=
      { type := .get
        uuid := Vector.replicate 32 7
        blockid := blockid
        position := 0
        datasize := 4
        version := 0
        salt := Vector.replicate 4 1 }
    data := [] }

/- Two requests, a response, and a write that fails. -/
theorem called_once_answered :
    Transition.Always step CalledOnce init
      [.send (request 0), .send (request 1), .written,
        .response (request 0), .writeFailed] := by
  rcases Option.isSome_iff_exists.mp
      (show (Transition.run step init
        [.send (request 0), .send (request 1), .written,
          .response (request 0), .writeFailed]).isSome from by
            decide +kernel) with
    ⟨c, hRun⟩
  exact (called_once_iff hRun).mpr (by decide +kernel)

/-
  A write fails and the client is closed. Or the client is
  closed while a packet is being written.
-/
theorem called_twice :
    (Transition.run step init
        [.send (request 0), .writeFailed, .close]).map
      (calls (request 0).jobKey) = some 2 ∧
    (Transition.run step init
        [.send (request 0), .close, .writeFailed]).map
      (calls (request 0).jobKey) = some 2 := by
  decide +kernel

end SsbdClient

end Slfs
