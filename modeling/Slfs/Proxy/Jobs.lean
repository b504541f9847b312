import Slfs.Ssbd.Packet
import Slfs.Lib.Table
import Slfs.Lib.Transition

/-
  Jobs of the proxy.

  The proxy hands each request of a client to a worker as a
  job, and answers the client when the job's completion signal
  is fired. Work that a handler defers is put into one list,
  from which any thread takes any entry next. Which workers
  the policy names is part of the step that processes a job.

  Main declarations:
    * `Proxy.Launcher.step`
    * `Proxy.Launcher.completion_at_most_once`
-/

----------
-- Packets Of The Proxy
----------

namespace Slfs

open Transition

namespace Proxy

/- Message types between clients, proxy and workers. -/
inductive MsgT where
| err
| put
| get
| ack
| proxyjoin
| setTimer
| cacheTransfer
| workerReg
| workerDereg
| workerPushRequest
| workerResponse
| trigger
| triggerReject
| proxySendError
| openFileSuccess
| openFileNotFound
| renameSuccess
| renameFail
| proxySendOk
| proxySendIp
deriving DecidableEq, Repr

structure PacketHeader where
  type : MsgT
  key : Uuid
  sequence : Vector UInt8 4
  randomSalt : Vector UInt8 4
deriving DecidableEq, Repr

structure Packet where
  header : PacketHeader
  data : Bytes
deriving DecidableEq, Repr

/- What packets are told apart by in a table of jobs. -/
abbrev FullKey :=
  Uuid × Vector UInt8 4 × Vector UInt8 4

def PacketHeader.fullKey (h : PacketHeader) : FullKey :=
  (h.key, h.randomSalt, h.sequence)

----------
-- Workers
----------

/-
  A worker: its address and port, and the jobs sent to it
  that it has not answered.
-/
structure Worker where
  valid : Bool
  endpoint : Vector UInt8 6
  startedJobs : List (FullKey × Nat)
deriving DecidableEq, Repr

namespace Worker

def find
    (worker : Worker)
    (h : PacketHeader) : Option Nat :=
  (worker.startedJobs.find?
    (fun e => e.1 = h.fullKey)).map Prod.snd

def erase
    (worker : Worker)
    (h : PacketHeader) : Worker :=
  { worker with
    startedJobs :=
      worker.startedJobs.eraseP
        (fun e => e.1 = h.fullKey) }

/- A job under a key that is in the table is not added. -/
def emplace
    (worker : Worker)
    (h : PacketHeader)
    (job : Nat) : Worker :=
  if (worker.find h).isSome then worker
  else
    { worker with
      startedJobs :=
        worker.startedJobs ++ [(h.fullKey, job)] }

end Worker

----------
-- The Launcher
----------

/-
  What has been deferred: to process a job, to look at an
  acknowledgement or a response of a worker, or to complete
  a job that the proxy answers by itself.
-/
inductive Handler where
| processJob (job : Nat)
| ack (worker : Nat) (pack : Packet)
| response (worker : Nat) (pack : Packet)
| complete (job : Nat)
deriving DecidableEq, Repr

/-
  The packets of the jobs, the workers, the deferred
  handlers, and the completion signals fired so far, each
  with the packet it was fired with.
-/
structure Launcher where
  jobs : List Packet
  workers : List Worker
  posted : List Handler
  completed : List (Nat × Packet)
deriving DecidableEq, Repr

namespace Launcher

def start : Launcher :=
  { jobs := []
    workers := []
    posted := []
    completed := [] }

def post (h : Handler) (l : Launcher) : Launcher :=
  { l with posted := l.posted ++ [h] }

def onCompletion
    (job : Nat)
    (pack : Packet)
    (l : Launcher) : Launcher :=
  { l with completed := l.completed ++ [(job, pack)] }

def schedule (pack : Packet) (l : Launcher) : Launcher :=
  post (.processJob l.jobs.length)
    { l with jobs := l.jobs ++ [pack] }

def reschedule (job : Nat) (l : Launcher) : Launcher :=
  l.post (.processJob job)

def addWorker
    (endpoint : Vector UInt8 6)
    (l : Launcher) : Launcher :=
  { l with
    workers := l.workers ++
      [{ valid := true
         endpoint := endpoint
         startedJobs := [] }] }

/-
  Close a worker: its jobs are rescheduled, and they stay
  in its table.
-/
def close
    (w : Nat)
    (worker : Worker)
    (l : Launcher) : Launcher :=
  worker.startedJobs.foldl
    (fun l e => l.reschedule e.2)
    { l with
      workers :=
        l.workers.set w { worker with valid := false } }

/- Answers of the proxy itself need no worker. -/
def startWrite
    (w : Nat)
    (worker : Worker)
    (job : Nat)
    (pack : Packet)
    (l : Launcher) : Launcher :=
  match pack.header.type with
  | .proxySendIp =>
      post (.complete job)
        { l with
          jobs :=
            l.jobs.set job
              { pack with data := worker.endpoint.toList } }
  | .proxySendError | .proxySendOk => l.post (.complete job)
  | _ =>
      { l with
        workers :=
          l.workers.set w (worker.emplace pack.header job) }

def validWorker
    (w : Option Nat)
    (l : Launcher) : Option (Nat × Worker) := do
  let w ← w
  let worker ← l.workers[w]?
  if worker.valid then some (w, worker) else none

def processJob
    (assigned available : Option Nat)
    (job : Nat)
    (pack : Packet)
    (l : Launcher) : Launcher :=
  match l.validWorker assigned with
  | some (w, worker) => l.startWrite w worker job pack
  | none =>
      match l.validWorker available with
      | some (w, worker) => l.startWrite w worker job pack
      | none => l.reschedule job

/- The deferred part of `on_worker_response`. -/
def onWorkerResponse
    (w : Nat)
    (worker : Worker)
    (pack : Packet)
    (l : Launcher) : Launcher :=
  match worker.find pack.header with
  | none => l
  | some job =>
      onCompletion job pack
        { l with
          workers := l.workers.set w (worker.erase pack.header) }

/-
  Run a handler. An acknowledgement only stops the timer of
  its job, which reschedules nothing.
-/
def runHandler
    (assigned available : Option Nat)
    (l : Launcher) : Handler → Option Launcher
| .processJob job => do
    let pack ← l.jobs[job]?
    some (l.processJob assigned available job pack)
| .ack _ _ => some l
| .response w pack => do
    let worker ← l.workers[w]?
    some (l.onWorkerResponse w worker pack)
| .complete job => do
    let pack ← l.jobs[job]?
    some (l.onCompletion job pack)

end Launcher

/- What makes the proxy close a worker. -/
inductive CloseCause where
| workerDereg
| readError
| writeError
deriving DecidableEq, Repr

/- What happens at the proxy. -/
inductive Event where
| addWorker (endpoint : Vector UInt8 6)
| schedule (pack : Packet)
| workerAck (worker : Nat) (pack : Packet)
| workerResponse (worker : Nat) (pack : Packet)
| close (cause : CloseCause) (worker : Nat)
| run (handler : Nat) (assigned available : Option Nat)
deriving DecidableEq, Repr

namespace Launcher

def step (l : Launcher) : Event → Option Launcher
| .addWorker endpoint => some (l.addWorker endpoint)
| .schedule pack => some (l.schedule pack)
| .workerAck w pack => do
    let _ ← l.workers[w]?
    some (l.post (.ack w pack))
| .workerResponse w pack => do
    let _ ← l.workers[w]?
    some (l.post (.response w pack))
| .close _ w => do
    let worker ← l.workers[w]?
    some (l.close w worker)
| .run i assigned available => do
    let h ← l.posted[i]?
    runHandler assigned available
      { l with posted := l.posted.eraseIdx i } h

/- How often the signal of a job has been fired. -/
def completions (l : Launcher) (job : Nat) : Nat :=
  l.completed.countP (fun c => c.1 = job)

end Launcher

----------
-- What Is Owed To A Job
----------

/- The job that a handler will process or complete. -/
def Handler.job? : Handler → Option Nat
| .processJob job => some job
| .complete job => some job
| .ack _ _ => none
| .response _ _ => none

/- How often a worker that is not closed holds a job. -/
def Worker.load (job : Nat) (worker : Worker) : Nat :=
  if worker.valid then
    worker.startedJobs.countP (fun e => e.2 = job)
  else 0

namespace Launcher

/-
  In how many places a completion of a job can come from,
  counting those that have fired.
-/
def owed (l : Launcher) (job : Nat) : Nat :=
  l.posted.countP (fun h => h.job? = some job) +
    (l.workers.map (Worker.load job)).sum +
    l.completions job

theorem completions_le_owed
    (l : Launcher)
    (job : Nat) :
    l.completions job ≤ l.owed job := by
  unfold owed
  omega

/- A deferred handler owes something to its job. -/
@[simp] theorem owed_post
    (h : Handler)
    (l : Launcher)
    (job : Nat) :
    (l.post h).owed job =
      l.owed job + if h.job? = some job then 1 else 0 := by
  simp only [owed, post, completions, List.countP_append,
    List.countP_singleton, decide_eq_true_eq]
  omega

@[simp] theorem owed_onCompletion
    (job job' : Nat)
    (pack : Packet)
    (l : Launcher) :
    (l.onCompletion job pack).owed job' =
      l.owed job' + if job = job' then 1 else 0 := by
  simp only [owed, onCompletion, completions,
    List.countP_append, List.countP_singleton,
    decide_eq_true_eq]
  omega

variable {l : Launcher}

theorem owed_setWorker
    {w : Nat}
    {worker : Worker}
    (hWorker : l.workers[w]? = some worker)
    (worker' : Worker)
    (job : Nat) :
    ({ l with workers := l.workers.set w worker' } :
        Launcher).owed job + worker.load job =
      l.owed job + worker'.load job := by
  have hSum :=
    Table.sum_map_set (Worker.load job) hWorker worker'
  unfold owed completions
  simp only
  omega

/- Taking a handler out of the list takes its job with it. -/
theorem owed_eraseHandler
    {i : Nat}
    {h : Handler}
    (hHandler : l.posted[i]? = some h)
    (job : Nat) :
    ({ l with posted := l.posted.eraseIdx i } :
        Launcher).owed job +
        (if h.job? = some job then 1 else 0) =
      l.owed job := by
  rcases List.getElem?_eq_some_iff.mp hHandler with ⟨hi, hGet⟩
  have hPerm := List.getElem_cons_eraseIdx_perm hi
  have hCount :=
    hPerm.countP_eq (fun h => h.job? = some job)
  rw [hGet, List.countP_cons] at hCount
  simp only [decide_eq_true_eq] at hCount
  unfold owed completions
  simp only
  omega

end Launcher

----------
-- What A Step Owes
----------

namespace Worker

/- A job with the key of another one is not put in. -/
theorem load_emplace
    (worker : Worker)
    (h : PacketHeader)
    (job job' : Nat) :
    (worker.emplace h job).load job' ≤
      worker.load job' + if job = job' then 1 else 0 := by
  unfold emplace
  by_cases hFound : (worker.find h).isSome
  · rw [if_pos hFound]
    omega
  · rw [if_neg hFound]
    by_cases hValid : worker.valid
    · simp [load, hValid, List.countP_append,
        List.countP_singleton]
    · simp [load, hValid]

variable {worker : Worker} {h : PacketHeader}
variable {job : Nat}

theorem mem_emplace
    {e : FullKey × Nat}
    (hMem : e ∈ (worker.emplace h job).startedJobs) :
    e ∈ worker.startedJobs ∨ e = (h.fullKey, job) := by
  unfold emplace at hMem
  split at hMem
  · exact Or.inl hMem
  · rcases List.mem_append.mp hMem with hOld | hNew
    · exact Or.inl hOld
    · exact Or.inr (List.mem_singleton.mp hNew)

/- A job that is answered leaves the table of its worker. -/
theorem load_erase
    (hValid : worker.valid = true)
    (hFind : worker.find h = some job)
    (job' : Nat) :
    (worker.erase h).load job' +
        (if job = job' then 1 else 0) =
      worker.load job' := by
  rcases Option.map_eq_some_iff.mp hFind with ⟨e, hSome, hJob⟩
  have hCount :=
    (Table.perm_eraseP hSome).countP_eq (fun e => e.2 = job')
  rw [List.countP_cons, hJob] at hCount
  simp only [decide_eq_true_eq] at hCount
  simp only [load, erase, hValid, if_true]
  exact hCount.symm

end Worker

namespace Launcher

/- Each job of a closed worker is owed by a handler. -/
theorem owed_foldl_reschedule
    (entries : List (FullKey × Nat))
    (l : Launcher)
    (job : Nat) :
    (entries.foldl (fun l e => l.reschedule e.2) l).owed job =
      l.owed job + entries.countP (fun e => e.2 = job) := by
  induction entries generalizing l with
  | nil => simp
  | cons e entries ih =>
      rw [List.foldl_cons, ih, List.countP_cons]
      simp only [reschedule, owed_post, Handler.job?,
        Option.some.injEq, decide_eq_true_eq]
      omega

variable {l l' : Launcher} {w : Nat} {worker : Worker}
variable {choice assigned available : Option Nat}
variable {h : Handler} {e : Event}

/-
  Closing moves the jobs of a worker to the deferred list.
  A worker closed before must have none left to move.
-/
theorem owed_close
    (hWorker : l.workers[w]? = some worker)
    (hOnce :
      worker.valid = true ∨ worker.startedJobs = [])
    (job : Nat) :
    (l.close w worker).owed job = l.owed job := by
  have hSet :=
    owed_setWorker hWorker { worker with valid := false } job
  unfold close
  rw [owed_foldl_reschedule]
  rcases hOnce with hValid | hEmpty
  · simp only [Worker.load, hValid, if_true,
      Bool.false_eq_true, if_false] at hSet
    exact hSet
  · simp only [Worker.load, hEmpty, List.countP_nil,
      ite_self] at hSet ⊢
    exact hSet

theorem validWorker_iff :
    l.validWorker choice = some (w, worker) ↔
      choice = some w ∧ l.workers[w]? = some worker ∧
        worker.valid = true := by
  cases choice with
  | none => simp [validWorker]
  | some v =>
      cases hGet : l.workers[v]? with
      | none =>
          simp only [validWorker, Option.bind_eq_bind,
            Option.bind_some, hGet, Option.bind_none]
          constructor
          · intro h
            cases h
          · rintro ⟨hIndex, hWorker, _⟩
            cases hIndex
            rw [hGet] at hWorker
            cases hWorker
      | some found =>
          by_cases hValid : found.valid = true
          · simp only [validWorker, Option.bind_eq_bind,
              Option.bind_some, hGet, hValid, if_true,
              Option.some.injEq, Prod.mk.injEq]
            constructor
            · rintro ⟨hIndex, hSame⟩
              subst hIndex hSame
              exact ⟨rfl, hGet, hValid⟩
            · rintro ⟨hIndex, hWorker, _⟩
              subst hIndex
              rw [hGet] at hWorker
              exact ⟨rfl, Option.some.inj hWorker⟩
          · simp only [validWorker, Option.bind_eq_bind,
              Option.bind_some, hGet, hValid]
            constructor
            · intro h
              cases h
            · rintro ⟨hIndex, hWorker, hOther⟩
              cases hIndex
              rw [hGet] at hWorker
              cases hWorker
              exact absurd hOther hValid

theorem validWorker_eq_some
    (h : l.validWorker choice = some (w, worker)) :
    l.workers[w]? = some worker :=
  (validWorker_iff.mp h).2.1

/- A worker that gets a job owes it. -/
theorem owed_startWrite
    (hWorker : l.workers[w]? = some worker)
    (job : Nat)
    (pack : Packet)
    (job' : Nat) :
    (l.startWrite w worker job pack).owed job' ≤
      l.owed job' + if job = job' then 1 else 0 := by
  have hSet :=
    owed_setWorker hWorker (worker.emplace pack.header job) job'
  have hLoad := worker.load_emplace pack.header job job'
  have hJobs :
      ∀ jobs, ({ l with jobs := jobs } : Launcher).owed job' =
        l.owed job' := fun _ => rfl
  unfold startWrite
  split
  · simp [hJobs, Handler.job?]
  · simp [Handler.job?]
  · simp [Handler.job?]
  · omega

/- A job is owed by a worker, or by a handler again. -/
theorem owed_processJob
    (l : Launcher)
    (assigned available : Option Nat)
    (job : Nat)
    (pack : Packet)
    (job' : Nat) :
    (l.processJob assigned available job pack).owed job' ≤
      l.owed job' + if job = job' then 1 else 0 := by
  unfold processJob
  split
  · rename_i w worker hWorker
    exact owed_startWrite (validWorker_eq_some hWorker)
      job pack job'
  · split
    · rename_i w worker hWorker
      exact owed_startWrite (validWorker_eq_some hWorker)
        job pack job'
    · simp [reschedule, Handler.job?]

----------
-- Completions In A Run
----------

@[simp] theorem jobs_post
    (h : Handler)
    (l : Launcher) :
    (l.post h).jobs = l.jobs := rfl

@[simp] theorem jobs_close
    (w : Nat)
    (worker : Worker)
    (l : Launcher) :
    (l.close w worker).jobs = l.jobs := by
  have hFold :
      ∀ (entries : List (FullKey × Nat)) (l : Launcher),
        (entries.foldl
          (fun l e => l.reschedule e.2) l).jobs = l.jobs := by
    intro entries
    induction entries with
    | nil => simp
    | cons e entries ih =>
        intro l
        rw [List.foldl_cons, ih]
        rfl
  exact hFold _ _

@[simp] theorem length_jobs_startWrite
    (w : Nat)
    (worker : Worker)
    (job : Nat)
    (pack : Packet)
    (l : Launcher) :
    (l.startWrite w worker job pack).jobs.length =
      l.jobs.length := by
  unfold startWrite
  split <;> simp

theorem length_jobs_runHandler
    (hRun : l.runHandler assigned available h = some l') :
    l'.jobs.length = l.jobs.length := by
  cases h with
  | processJob j =>
      rcases Option.bind_eq_some_iff.mp hRun with
        ⟨pack, _, hSome⟩
      cases hSome
      unfold processJob
      split
      · simp
      · split <;> simp [reschedule]
  | ack w pack =>
      cases hRun
      rfl
  | response w pack =>
      rcases Option.bind_eq_some_iff.mp hRun with
        ⟨worker, _, hSome⟩
      cases hSome
      unfold onWorkerResponse
      split <;> rfl
  | complete j =>
      rcases Option.bind_eq_some_iff.mp hRun with
        ⟨pack, _, hSome⟩
      cases hSome
      rfl

/- Jobs are never forgotten. -/
theorem length_jobs_step
    (hStep : l.step e = some l') :
    l.jobs.length ≤ l'.jobs.length := by
  cases e with
  | addWorker endpoint =>
      cases hStep
      simp [addWorker]
  | schedule pack =>
      cases hStep
      simp [schedule]
  | workerAck w pack | workerResponse w pack | close cause w =>
      rcases Option.bind_eq_some_iff.mp hStep with
        ⟨worker, _, hSome⟩
      cases hSome
      simp
  | run i assigned available =>
      rcases Option.bind_eq_some_iff.mp hStep with
        ⟨h, _, hRun⟩
      exact (length_jobs_runHandler hRun).ge

/-
  A worker is closed again only when it holds no job, and a
  response is looked at after the close of its worker only
  when it answers none of the worker's jobs.
-/
def Orderly (l : Launcher) : Event → Prop
| .close _ w =>
    ∀ worker ∈ l.workers[w]?,
      worker.valid = true ∨ worker.startedJobs = []
| .run i _ _ =>
    match l.posted[i]? with
    | some (.response w pack) =>
        ∀ worker ∈ l.workers[w]?,
          worker.valid = true ∨ worker.find pack.header = none
    | _ => True
| _ => True

instance (l : Launcher) (e : Event) :
    Decidable (l.Orderly e) := by
  unfold Orderly
  split <;> try infer_instance
  split <;> infer_instance

/- A handler hands on what it owes, and no more. -/
theorem owed_runHandler
    (hRun : l.runHandler assigned available h = some l')
    (hOnce :
      ∀ w pack, h = .response w pack →
        ∀ worker ∈ l.workers[w]?,
          worker.valid = true ∨
            worker.find pack.header = none)
    (job : Nat) :
    l'.owed job ≤
      l.owed job + if h.job? = some job then 1 else 0 := by
  cases h with
  | processJob j =>
      rcases Option.bind_eq_some_iff.mp hRun with
        ⟨pack, _, hSome⟩
      cases hSome
      simpa [Handler.job?] using
        l.owed_processJob assigned available j pack job
  | ack w pack =>
      cases hRun
      simp [Handler.job?]
  | response w pack =>
      rcases Option.bind_eq_some_iff.mp hRun with
        ⟨worker, hWorker, hSome⟩
      cases hSome
      unfold onWorkerResponse
      cases hFind : worker.find pack.header with
      | none => simp [Handler.job?]
      | some j =>
          have hValid : worker.valid = true := by
            rcases hOnce w pack rfl worker hWorker with h | h
            · exact h
            · rw [hFind] at h
              cases h
          have hLoad := Worker.load_erase hValid hFind job
          have hSet :=
            owed_setWorker hWorker (worker.erase pack.header)
              job
          simp only [owed_onCompletion, Handler.job?]
          simp only [reduceCtorEq, if_false]
          omega
  | complete j =>
      rcases Option.bind_eq_some_iff.mp hRun with
        ⟨pack, _, hSome⟩
      cases hSome
      simp [Handler.job?]

/-
  No orderly step adds a place that a completion of a job
  can come from, except the first one of a new job.
-/
theorem owed_step
    (hOrderly : l.Orderly e)
    (hStep : l.step e = some l')
    (job : Nat) :
    l'.owed job ≤ l.owed job +
      if l.jobs.length ≤ job ∧ job < l'.jobs.length
      then 1 else 0 := by
  cases e with
  | addWorker endpoint =>
      cases hStep
      simp [owed, addWorker, completions, Worker.load]
  | schedule pack =>
      cases hStep
      have hOld :
          ({ l with jobs := l.jobs ++ [pack] } :
            Launcher).owed job = l.owed job := rfl
      simp only [schedule, owed_post, hOld, Handler.job?,
        Option.some.injEq, jobs_post, List.length_append,
        List.length_singleton]
      split <;> split <;> omega
  | workerAck w pack | workerResponse w pack =>
      rcases Option.bind_eq_some_iff.mp hStep with
        ⟨worker, _, hSome⟩
      cases hSome
      simp [Handler.job?]
  | close cause w =>
      rcases Option.bind_eq_some_iff.mp hStep with
        ⟨worker, hWorker, hSome⟩
      cases hSome
      rw [owed_close hWorker (hOrderly worker hWorker)]
      omega
  | run i assigned available =>
      rcases Option.bind_eq_some_iff.mp hStep with
        ⟨h, hHandler, hRun⟩
      have hErase := owed_eraseHandler hHandler job
      have hOwed := owed_runHandler hRun (by
        intro w pack hEq worker hWorker
        subst hEq
        simp only [Orderly, hHandler] at hOrderly
        exact hOrderly worker hWorker) job
      omega

----------
-- At Most One Completion
----------

/-
  In every orderly run, whatever the workers send and
  however the deferred handlers are ordered, the completion
  signal of a job is fired at most once.
-/
theorem completion_at_most_once
    (es : List Event)
    {l : Launcher}
    (hRun : run step start es = some l)
    (hOrderly : Along step Orderly start es)
    (job : Nat) :
    l.completions job ≤ 1 := by
  have hOwed : l.owed job ≤ 1 := by
    refine le_one_of_run
      (fun l => l.jobs.length) owed ?_ ?_ ?_
      hRun hOrderly job
    · intro l e l' hStep
      exact length_jobs_step hStep
    · intro l e l' hCond hStep job
      exact owed_step hCond hStep job
    · intro job
      simp [owed, start, completions]
  exact Nat.le_trans (completions_le_owed l job) hOwed

/- The job of the runs below, and its answer. -/
def samplePacket : Packet :=
  { header :=
      { type := .workerPushRequest
        key := Vector.replicate 32 1
        sequence := Vector.replicate 4 2
        randomSalt := Vector.replicate 4 3 }
    data := [] }

def sampleEndpoint : Vector UInt8 6 :=
  Vector.replicate 6 0

/- A job is handed to the first worker. -/
def dispatched : List Event :=
  [.addWorker sampleEndpoint,
    .schedule samplePacket,
    .run 0 (some 0) none]

/-
  The worker fails before it answers, the job is handed to
  another one, and that one answers twice.
-/
def failedOver : List Event :=
  dispatched ++
    [.close .readError 0,
      .addWorker sampleEndpoint,
      .run 0 (some 0) (some 1),
      .workerAck 1 samplePacket,
      .workerResponse 1 samplePacket,
      .workerResponse 1 samplePacket,
      .run 0 none none,
      .run 0 none none,
      .run 0 none none,
      .close .workerDereg 1]

theorem completion_at_most_once_failedOver :
    ∃ l, run step start failedOver = some l ∧
      Along step Orderly start failedOver ∧
      l.completed = [(0, samplePacket)] ∧
      l.completions 0 ≤ 1 :=
  ⟨_, rfl, by decide, rfl,
    completion_at_most_once failedOver rfl (by decide) 0⟩

/-
  The write to a worker fails and then the read, so that the
  job is rescheduled by both.
-/
def closedTwice : List Event :=
  dispatched ++
    [.close .writeError 0,
      .close .readError 0,
      .addWorker sampleEndpoint,
      .run 0 (some 1) none,
      .workerResponse 1 samplePacket,
      .run 1 none none,
      .run 0 (some 1) none,
      .workerResponse 1 samplePacket,
      .run 0 none none]

/-
  A worker answers and is closed before the answer is looked
  at.
-/
def answeredAfterClose : List Event :=
  dispatched ++
    [.workerResponse 0 samplePacket,
      .close .workerDereg 0,
      .run 0 none none,
      .addWorker sampleEndpoint,
      .run 0 (some 1) none,
      .workerResponse 1 samplePacket,
      .run 0 none none]

theorem completion_fired_twice :
    List.Forall
      (fun es =>
        ∃ l, run step start es = some l ∧
          l.completions 0 = 2)
      [closedTwice, answeredAfterClose] :=
  ⟨⟨_, rfl, rfl⟩, ⟨_, rfl, rfl⟩⟩

----------
-- No Job Is Lost
----------

/- The worker that a job is handed to. -/
def chosen
    (assigned available : Option Nat)
    (l : Launcher) : Option (Nat × Worker) :=
  (l.validWorker assigned).or (l.validWorker available)

/-
  A job is handed to a worker that has no other job under
  the same key.
-/
def Unclashed (l : Launcher) : Event → Prop
| .run i assigned available =>
    match l.posted[i]? with
    | some (.processJob job) =>
        ∀ pack ∈ l.jobs[job]?,
          ∀ c ∈ l.chosen assigned available,
            ∀ other ∈ c.2.find pack.header, other = job
    | _ => True
| _ => True

instance (l : Launcher) (e : Event) :
    Decidable (l.Unclashed e) := by
  unfold Unclashed
  split <;> try infer_instance
  split <;> infer_instance

section

variable (hWorker : l.workers[w]? = some worker)
include hWorker

/- Where a worker is closed its jobs are owed elsewhere. -/
theorem owed_le_close
    (job : Nat) :
    worker.load job ≤ l.owed job ∧
      l.owed job ≤ (l.close w worker).owed job := by
  have hSet :=
    owed_setWorker hWorker { worker with valid := false } job
  have hNone : ({ worker with valid := false } :
      Worker).load job = 0 := rfl
  have hLoad : worker.load job ≤
      worker.startedJobs.countP (fun e => e.2 = job) := by
    unfold Worker.load
    split <;> omega
  unfold close
  rw [owed_foldl_reschedule]
  exact ⟨by omega, by omega⟩

/- A job is in the table of the worker it is handed to. -/
theorem owed_le_startWrite
    {job : Nat}
    {pack : Packet}
    (hValid : worker.valid = true)
    (hKey : ∀ other ∈ worker.find pack.header, other = job)
    (job' : Nat) :
    l.owed job' ≤ (l.startWrite w worker job pack).owed job' ∧
      1 ≤ (l.startWrite w worker job pack).owed job := by
  have hJobs :
      ∀ jobs job, ({ l with jobs := jobs } :
        Launcher).owed job = l.owed job := fun _ _ => rfl
  unfold startWrite
  split
  · simp [hJobs, Handler.job?]
  · simp [Handler.job?]
  · simp [Handler.job?]
  · have hSet :=
      owed_setWorker hWorker (worker.emplace pack.header job)
    have hSet' := hSet job'
    have hSet := hSet job
    have hOld := (owed_le_close hWorker job).1
    unfold Worker.emplace at hSet hSet' ⊢
    cases hFind : worker.find pack.header with
    | none =>
        simp only [hFind, Worker.load, hValid,
          Option.isSome_none, Bool.false_eq_true, if_true,
          if_false, List.countP_append, List.countP_singleton,
          decide_true] at hSet hSet' hOld ⊢
        exact ⟨by omega, by omega⟩
    | some other =>
        have hLoad := Worker.load_erase hValid hFind job
        rw [if_pos (hKey other hFind)] at hLoad
        simp only [hFind, Option.isSome_some,
          if_true] at hSet hSet' ⊢
        exact ⟨by omega, by omega⟩

end

theorem processJob_eq
    (l : Launcher)
    (job : Nat)
    (pack : Packet) :
    l.processJob assigned available job pack =
      match l.chosen assigned available with
      | some (w, worker) => l.startWrite w worker job pack
      | none => l.reschedule job := by
  unfold processJob chosen
  cases l.validWorker assigned with
  | some c => rfl
  | none => cases l.validWorker available <;> rfl

/- A handler hands on what it owes, and no less. -/
theorem owed_le_runHandler
    (hRun : l.runHandler assigned available h = some l')
    (hKey :
      ∀ job, h = .processJob job → ∀ pack ∈ l.jobs[job]?,
        ∀ c ∈ l.chosen assigned available,
          ∀ other ∈ c.2.find pack.header, other = job)
    (job : Nat) :
    l.owed job ≤ l'.owed job ∧
      (h.job? = some job → 1 ≤ l'.owed job) := by
  cases h with
  | processJob j =>
      rcases Option.bind_eq_some_iff.mp hRun with
        ⟨pack, hPack, hSome⟩
      cases hSome
      rw [processJob_eq]
      cases hChosen : l.chosen assigned available with
      | none => simp +contextual [reschedule, Handler.job?]
      | some c =>
          have hHeld : l.workers[c.1]? = some c.2 ∧
              c.2.valid = true := by
            rcases Option.or_eq_some_iff.mp hChosen with h | h
            · exact (validWorker_iff.mp h).2
            · exact (validWorker_iff.mp h.2).2
          have hOwed := owed_le_startWrite hHeld.1 hHeld.2
            (hKey j rfl pack hPack c hChosen) job
          refine ⟨hOwed.1, fun hJob => ?_⟩
          cases hJob
          exact hOwed.2
  | ack w pack =>
      cases hRun
      simp [Handler.job?]
  | response w pack =>
      rcases Option.bind_eq_some_iff.mp hRun with
        ⟨worker, hWorker, hSome⟩
      cases hSome
      refine ⟨?_, fun hJob => by cases hJob⟩
      unfold onWorkerResponse
      cases hFind : worker.find pack.header with
      | none => exact Nat.le_refl _
      | some j =>
          have hSet :=
            owed_setWorker hWorker (worker.erase pack.header)
              job
          simp only [owed_onCompletion]
          cases hValid : worker.valid with
          | true =>
              have hLoad := Worker.load_erase hValid hFind job
              omega
          | false =>
              have hNone : worker.load job = 0 := by
                simp [Worker.load, hValid]
              omega
  | complete j =>
      rcases Option.bind_eq_some_iff.mp hRun with
        ⟨pack, _, hSome⟩
      cases hSome
      simp +contextual [Handler.job?]

/- Something is owed to every job. -/
def Kept (l : Launcher) : Prop :=
  ∀ job < l.jobs.length, 1 ≤ l.owed job

/- Every step leaves something owed to each job. -/
theorem kept_step
    (h : l.Kept)
    (hUnclashed : l.Unclashed e)
    (hStep : l.step e = some l') :
    l'.Kept := by
  intro job hJob
  cases e with
  | addWorker endpoint =>
      cases hStep
      have hSame : (l.addWorker endpoint).owed job =
          l.owed job := by
        simp [owed, addWorker, completions, Worker.load]
      exact hSame ▸ h job hJob
  | schedule pack =>
      cases hStep
      have hOld :
          ({ l with jobs := l.jobs ++ [pack] } :
            Launcher).owed job = l.owed job := rfl
      simp only [schedule, jobs_post, List.length_append,
        List.length_singleton] at hJob
      simp only [schedule, owed_post, hOld, Handler.job?,
        Option.some.injEq]
      by_cases hLast : l.jobs.length = job
      · rw [if_pos hLast]
        omega
      · have hOwed := h job (by omega)
        omega
  | workerAck w pack | workerResponse w pack =>
      rcases Option.bind_eq_some_iff.mp hStep with
        ⟨worker, _, hSome⟩
      cases hSome
      rw [owed_post]
      exact Nat.le_add_right_of_le (h job hJob)
  | close cause w =>
      rcases Option.bind_eq_some_iff.mp hStep with
        ⟨worker, hWorker, hSome⟩
      cases hSome
      rw [jobs_close] at hJob
      exact Nat.le_trans (h job hJob)
        (owed_le_close hWorker job).2
  | run i assigned available =>
      rcases Option.bind_eq_some_iff.mp hStep with
        ⟨handler, hHandler, hRun⟩
      have hErase := owed_eraseHandler hHandler job
      have hOwed := h job
        ((length_jobs_runHandler hRun).symm ▸ hJob)
      have hMore := owed_le_runHandler hRun (by
        rintro j rfl
        simp only [Unclashed, hHandler] at hUnclashed
        exact hUnclashed) job
      by_cases hOwn : handler.job? = some job
      · exact hMore.2 hOwn
      · rw [if_neg hOwn] at hErase
        omega

end Launcher

end Proxy

end Slfs
