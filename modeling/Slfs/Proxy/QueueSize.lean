import Slfs.Proxy.LaunchPolicy
import Slfs.Proxy.OpenTable

/-
  The queue of the policy `max_queue`.

  The policy adds the size of a request when its job is
  scheduled and subtracts it when the job has finished, both
  times from the header of the job's packet. A socket writer
  puts the size of the data there, and the data of a request
  that the proxy answers by itself has become the answer.

  Main declarations:
    * `Proxy.Scheduler.Fits`
    * `Proxy.Scheduler.queueSize_eq_outstanding`
-/

----------
-- Notices Of The Launcher
----------

namespace Slfs

open Transition

namespace Proxy

/- What the policy has yet to be told about jobs. -/
inductive JobNotice where
| scheduled (job : Nat)
| rescheduled
| finished (job : Nat)
deriving DecidableEq, Repr

namespace Launcher

/- The workers that have not been closed. -/
def workerCount (l : Launcher) : Nat :=
  l.workers.countP Worker.valid

/- How many jobs an event of the launcher reschedules. -/
def reschedules (l : Launcher) : Event → Nat
| .close _ w =>
    ((l.workers[w]?).map
      (fun worker => worker.startedJobs.length)).getD 0
| .run i assigned available =>
    match l.posted[i]? with
    | some (.processJob _) =>
        if (l.validWorker assigned).isNone ∧
            (l.validWorker available).isNone then 1
        else 0
    | _ => 0
| _ => 0

/- The job that an event of the launcher finishes. -/
def finishes (l : Launcher) : Event → Option Nat
| .run i _ _ =>
    match l.posted[i]? with
    | some (.complete job) => some job
    | some (.response w pack) =>
        (l.workers[w]?).bind
          (fun worker => worker.find pack.header)
    | _ => none
| _ => none

/-
  The packet of a job has been given to a socket writer, of
  the client if the proxy answers, or else of a worker.
-/
def handed (l : Launcher) (job : Nat) (pack : Packet) : Bool :=
  match pack.header.type with
  | .proxySendIp | .proxySendError | .proxySendOk =>
      l.completed.contains (job, pack)
  | _ =>
      l.workers.any (fun worker =>
        worker.startedJobs.any (fun e => e.2 = job))

end Launcher

----------
-- Jobs And The Queue
----------

/-
  The proxy with its policy. The packet of each job has a
  size in its header, and had one when it was scheduled. The
  policy has been told about the outstanding jobs that they
  are scheduled, and not that they are finished.
-/
structure Scheduler where
  node : Node
  policy : MaxQueue
  datasize : List UInt32
  requested : List UInt32
  notices : List JobNotice
  outstanding : List Nat

namespace Scheduler

def start
    (maxOutstandingStartingRequest : Int)
    (maxQueue : Nat) : Scheduler :=
  { node := .start
    policy := .create maxOutstandingStartingRequest maxQueue
    datasize := []
    requested := []
    notices := []
    outstanding := [] }

inductive Event where
| node (e : Node.Event)
| serialize (job : Nat)
| notice (i : Nat)
deriving DecidableEq, Repr

/- What an event of the proxy makes known to the policy. -/
def note (s : Scheduler) : Node.Event → Scheduler
| .trigger pack _ =>
    { s with
      datasize := s.datasize ++ [pack.data.length.toUInt32]
      requested := s.requested ++ [pack.data.length.toUInt32]
      notices :=
        s.notices ++
          [.scheduled s.node.launcher.jobs.length] }
| .launcher e =>
    { s with
      notices :=
        s.notices ++
          List.replicate (s.node.launcher.reschedules e)
            .rescheduled ++
          (s.node.launcher.finishes e).toList.map .finished }

def runNotice (s : Scheduler) : JobNotice → Option Scheduler
| .scheduled job => do
    let size ← s.datasize[job]?
    some
      { s with
        policy :=
          s.policy.scheduleANewJob
            s.node.launcher.workerCount size
        outstanding := s.outstanding ++ [job] }
| .rescheduled =>
    some
      { s with
        policy :=
          s.policy.rescheduleAJob s.node.launcher.workerCount }
| .finished job => do
    let size ← s.datasize[job]?
    some
      { s with
        policy := s.policy.finishedAJob size
        outstanding := s.outstanding.erase job }

def step (s : Scheduler) : Event → Option Scheduler
| .node e => do
    let node ← s.node.step e
    some { s.note e with node := node }
| .serialize job => do
    let pack ← s.node.launcher.jobs[job]?
    if s.node.launcher.handed job pack then
      some
        { s with
          datasize :=
            s.datasize.set job pack.data.length.toUInt32 }
    else none
| .notice i => do
    let notice ← s.notices[i]?
    runNotice { s with notices := s.notices.eraseIdx i } notice

/- The size that a job had when it was scheduled. -/
def requestSize (s : Scheduler) (job : Nat) : Nat :=
  ((s.requested[job]?).map UInt32.toNat).getD 0

/- The bytes of the outstanding jobs. -/
def total (s : Scheduler) : Nat :=
  (s.outstanding.map s.requestSize).sum

end Scheduler

/- How long the data of a packet is when it is written. -/
def Packet.wireLength (p : Packet) : Nat :=
  if p.header.type = .proxySendIp then 6 else p.data.length

namespace Scheduler

/-
  A request that the proxy answers by itself is as long as
  the answer. The policy is told once that a job is finished,
  and after it was told that the job is scheduled. The queue
  stays in the range of its type.
-/
def Fits (s : Scheduler) : Event → Prop
| .node (.trigger pack readsUnlock) =>
    ∀ n ∈ s.node.step (.trigger pack readsUnlock),
      ∀ job ∈ n.launcher.jobs.getLast?,
        job.wireLength = pack.data.length
| .notice i =>
    match s.notices[i]? with
    | some (.scheduled job) =>
        s.total + s.requestSize job < 2 ^ 63
    | some (.finished job) => job ∈ s.outstanding
    | _ => True
| _ => True

instance (s : Scheduler) (e : Event) : Decidable (s.Fits e) := by
  unfold Fits
  split
  · infer_instance
  · split <;> infer_instance
  · infer_instance

end Scheduler

----------
-- Sizes Of Packets
----------

/- The data of a packet is what is written. -/
def Packet.Whole (p : Packet) : Prop :=
  p.data.length = p.wireLength

/- Only an endpoint is put into a packet later. -/
theorem Packet.whole_of_type
    {p : Packet}
    (hType : p.header.type ≠ .proxySendIp) :
    p.Whole := by
  unfold Whole wireLength
  rw [if_neg hType]

def Packet.wireSize (p : Packet) : UInt32 :=
  p.wireLength.toUInt32

namespace Launcher

/- A deferred handler completes a job with whole data. -/
def Handler.Whole (l : Launcher) : Handler → Prop
| .complete job => ∃ p, l.jobs[job]? = some p ∧ p.Whole
| .response _ pack => pack.Whole
| _ => True

/-
  The sizes of what is written for the jobs, and that jobs
  are completed with all that is written.
-/
structure Wired (sizes : List UInt32) (l : Launcher) : Prop where
  sizes_eq : l.jobs.map Packet.wireSize = sizes
  posted : ∀ h ∈ l.posted, Handler.Whole l h
  completed : ∀ c ∈ l.completed, c.2.Whole

variable {sizes : List UInt32} {l : Launcher}
variable {pack : Packet} {job : Nat}

theorem Wired.setWorkers
    (h : l.Wired sizes)
    (workers : List Worker) :
    Wired sizes { l with workers := workers } where
  sizes_eq := h.sizes_eq
  posted := h.posted
  completed := h.completed

/- What is deferred must have its data by now. -/
theorem Wired.post
    (h : l.Wired sizes)
    {handler : Handler}
    (hWhole : Handler.Whole l handler) :
    (l.post handler).Wired sizes where
  sizes_eq := h.sizes_eq
  posted := by
    intro x hx
    rcases List.mem_append.mp hx with hOld | hNew
    · exact h.posted x hOld
    · rw [List.mem_singleton.mp hNew]
      exact hWhole
  completed := h.completed

theorem Wired.eraseHandler
    (h : l.Wired sizes)
    (i : Nat) :
    Wired sizes { l with posted := l.posted.eraseIdx i } where
  sizes_eq := h.sizes_eq
  posted := fun x hx => h.posted x (List.mem_of_mem_eraseIdx hx)
  completed := h.completed

/- A job is completed with what is written for it. -/
theorem Wired.onCompletion
    (h : l.Wired sizes)
    (job : Nat)
    (hWhole : pack.Whole) :
    (l.onCompletion job pack).Wired sizes where
  sizes_eq := h.sizes_eq
  posted := h.posted
  completed := by
    intro c hc
    rcases List.mem_append.mp hc with hOld | hNew
    · exact h.completed c hOld
    · rw [List.mem_singleton.mp hNew]
      exact hWhole

theorem Wired.foldl_reschedule
    (entries : List (FullKey × Nat))
    (h : l.Wired sizes) :
    (entries.foldl
      (fun l e => l.reschedule e.2) l).Wired sizes := by
  induction entries generalizing l with
  | nil => exact h
  | cons e entries ih => exact ih (h.post trivial)

section

variable (h : l.Wired sizes)
include h

/- The address is put into the packet, six bytes long. -/
theorem Wired.startWrite
    (w : Nat)
    (worker : Worker)
    (hPack : l.jobs[job]? = some pack) :
    (l.startWrite w worker job pack).Wired sizes := by
  have hWhole :
      pack.header.type ≠ .proxySendIp →
        Handler.Whole l (.complete job) := by
    intro hType
    exact ⟨pack, hPack, Packet.whole_of_type hType⟩
  unfold Launcher.startWrite
  split
  · rename_i hType
    have hNew :
        ({ pack with data := worker.endpoint.toList } :
          Packet).Whole := by
      simp [Packet.Whole, Packet.wireLength, hType]
    have hPlace :
        (l.jobs.set job
            { pack with
              data := worker.endpoint.toList })[job]? =
          some
            { pack with data := worker.endpoint.toList } := by
      rw [List.getElem?_set_self', hPack]
      rfl
    have hFilled :
        Wired sizes
          { l with
            jobs :=
              l.jobs.set job
                { pack with
                  data := worker.endpoint.toList } } := by
      refine ⟨?_, ?_, h.completed⟩
      · rw [← h.sizes_eq]
        apply Table.map_set_of_key Packet.wireSize hPack
        simp [Packet.wireSize, Packet.wireLength, hType]
      · intro x hx
        have hOld := h.posted x hx
        cases x with
        | complete other =>
            by_cases hSame : job = other
            · subst hSame
              exact ⟨_, hPlace, hNew⟩
            · rcases hOld with ⟨p, hp, hp'⟩
              refine ⟨p, ?_, hp'⟩
              rw [List.getElem?_set_ne hSame]
              exact hp
        | processJob other => exact hOld
        | ack w p => exact hOld
        | response w p => exact hOld
    exact hFilled.post ⟨_, hPlace, hNew⟩
  · rename_i hType
    exact h.post (hWhole (by simp [hType]))
  · rename_i hType
    exact h.post (hWhole (by simp [hType]))
  · exact h.setWorkers _

/- A job is written, answered or put off. -/
theorem Wired.processJob
    (assigned available : Option Nat)
    (hPack : l.jobs[job]? = some pack) :
    (l.processJob assigned available job pack).Wired
      sizes := by
  unfold Launcher.processJob
  split
  · exact h.startWrite _ _ hPack
  · split
    · exact h.startWrite _ _ hPack
    · exact h.post trivial

/- A response and a completion bring their data along. -/
theorem Wired.runHandler
    {l' : Launcher}
    {assigned available : Option Nat}
    {handler : Handler}
    (hWhole : Handler.Whole l handler)
    (hRun :
      l.runHandler assigned available handler = some l') :
    l'.Wired sizes := by
  cases handler with
  | processJob job =>
      rcases Option.bind_eq_some_iff.mp hRun with
        ⟨pack, hPack, hSome⟩
      cases hSome
      exact h.processJob assigned available hPack
  | ack w pack =>
      cases hRun
      exact h
  | response w pack =>
      rcases Option.bind_eq_some_iff.mp hRun with
        ⟨worker, _, hSome⟩
      cases hSome
      unfold onWorkerResponse
      split
      · exact h
      · exact (h.setWorkers _).onCompletion _ hWhole
  | complete job =>
      rcases Option.bind_eq_some_iff.mp hRun with
        ⟨pack, hPack, hSome⟩
      cases hSome
      rcases hWhole with ⟨p, hp, hp'⟩
      rw [hPack] at hp
      cases hp
      exact h.onCompletion job hp'

/- Events that schedule nothing and read no response. -/
theorem Wired.step
    {l' : Launcher}
    {e : Event}
    (hSchedule : ∀ pack, e ≠ .schedule pack)
    (hRead : ∀ w pack, e ≠ .workerResponse w pack)
    (hStep : l.step e = some l') :
    l'.Wired sizes := by
  cases e with
  | addWorker endpoint =>
      cases hStep
      exact h.setWorkers _
  | schedule pack => exact absurd rfl (hSchedule pack)
  | workerAck w pack =>
      rcases Option.bind_eq_some_iff.mp hStep with
        ⟨worker, _, hSome⟩
      cases hSome
      exact h.post trivial
  | workerResponse w pack => exact absurd rfl (hRead w pack)
  | close cause w =>
      rcases Option.bind_eq_some_iff.mp hStep with
        ⟨worker, _, hSome⟩
      cases hSome
      exact Wired.foldl_reschedule _ (h.setWorkers _)
  | run i assigned available =>
      rcases Option.bind_eq_some_iff.mp hStep with
        ⟨handler, hHandler, hRun⟩
      have hWhole :=
        h.posted handler (List.mem_of_getElem? hHandler)
      refine (h.eraseHandler i).runHandler ?_ hRun
      cases handler <;> exact hWhole

theorem Wired.schedule
    (pack : Packet) :
    (l.schedule pack).Wired (sizes ++ [pack.wireSize]) := by
  have hAdded :
      Wired (sizes ++ [pack.wireSize])
        { l with jobs := l.jobs ++ [pack] } := by
    refine ⟨by simp [h.sizes_eq], ?_, h.completed⟩
    intro x hx
    have hOld := h.posted x hx
    cases x with
    | complete job =>
        rcases hOld with ⟨p, hp, hp'⟩
        refine ⟨p, ?_, hp'⟩
        have hLt := (List.getElem?_eq_some_iff.mp hp).1
        simp only
        rw [List.getElem?_append_left hLt]
        exact hp
    | processJob job | ack w p | response w p => exact hOld
  exact hAdded.post trivial

/- A job whose packet is with a writer is whole. -/
theorem Wired.whole_of_handed
    (hHanded : l.handed job pack = true) :
    pack.Whole := by
  by_cases hType : pack.header.type = .proxySendIp
  · have hMem : (job, pack) ∈ l.completed := by
      simpa [handed, hType] using hHanded
    exact h.completed (job, pack) hMem
  · exact Packet.whole_of_type hType

end

theorem wired_start : Wired [] start where
  sizes_eq := rfl
  posted := by
    intro x hx
    cases hx
  completed := by
    intro c hc
    cases hc

end Launcher

----------
-- The Queue Is What Is Outstanding
----------

variable {sizes : List UInt32}

/- A request that is routed is scheduled as a job. -/
theorem Node.wired_trigger
    {n n' : Node}
    (h : n.launcher.Wired sizes)
    {pack : Packet}
    {readsUnlock : Bool}
    (hStep : n.step (.trigger pack readsUnlock) = some n') :
    ∃ job,
      n'.launcher.jobs.getLast? = some job ∧
        n'.launcher.Wired (sizes ++ [job.wireSize]) := by
  rcases Option.bind_eq_some_iff.mp hStep with
    ⟨⟨command, input⟩, _, hRest⟩
  rcases Option.bind_eq_some_iff.mp hRest with
    ⟨⟨routed, locks⟩, _, hSome⟩
  cases hSome
  refine ⟨routed.packet pack, ?_, h.schedule _⟩
  simp [Launcher.schedule, Launcher.post]

/- Only responses of workers are looked at. -/
theorem Node.wired_launcher
    {n n' : Node}
    (h : n.launcher.Wired sizes)
    {e : Proxy.Event}
    (hStep : n.step (.launcher e) = some n') :
    n'.launcher.Wired sizes := by
  rcases launcher_cases hStep with
    ⟨w, pack, rfl, hRead⟩ | ⟨hSchedule, hRead, l, hNext, rfl⟩
  · rcases Option.bind_eq_some_iff.mp hRead with
      ⟨worker, _, hRest⟩
    by_cases hResponse : pack.header.type.isResponse = true
    · rw [if_pos hResponse] at hRest
      cases hRest
      apply h.post
      apply Packet.whole_of_type
      intro hType
      have hType' : pack.header.type = .proxySendIp := hType
      rw [hType'] at hResponse
      cases hResponse
    · rw [if_neg hResponse] at hRest
      cases hRest
      exact h
  · exact h.step hSchedule hRead hNext

namespace Scheduler

/-
  The sizes in the headers are those that the jobs were
  scheduled with, and the queue is the sum of those of the
  outstanding jobs.
-/
structure Kept (s : Scheduler) : Prop where
  wired : s.node.launcher.Wired s.requested
  sizes_eq : s.datasize = s.requested
  scheduled :
    ∀ job, .scheduled job ∈ s.notices →
      job < s.requested.length
  outstanding : ∀ job ∈ s.outstanding, job < s.requested.length
  total_lt : s.total < 2 ^ 63
  queue_eq : s.policy.queueSize = s.total

variable {job : Nat} {s : Scheduler} {pack : Packet}
variable {n : Node}

theorem requestSize_append
    {sizes : List UInt32}
    (more : List UInt32)
    (hJob : job < sizes.length)
    (s : Scheduler) :
    requestSize { s with requested := sizes ++ more } job =
      requestSize { s with requested := sizes } job := by
  unfold requestSize
  simp only
  rw [List.getElem?_append_left hJob]

/- A request is as long as what is written for it. -/
theorem Kept.trigger
    (hKept : s.Kept)
    {readsUnlock : Bool}
    (hFits : s.Fits (.node (.trigger pack readsUnlock)))
    (hStep :
      s.node.step (.trigger pack readsUnlock) = some n) :
    Kept
      { s.note (.trigger pack readsUnlock) with
        node := n } := by
  rcases Node.wired_trigger hKept.wired hStep with
    ⟨job, hLast, hWired⟩
  have hSize : job.wireSize = pack.data.length.toUInt32 := by
    unfold Packet.wireSize
    rw [hFits n hStep job hLast]
  have hJobs :
      s.node.launcher.jobs.length = s.requested.length := by
    rw [← hKept.wired.sizes_eq, List.length_map]
  have hTotal :
      total
          { s.note (.trigger pack readsUnlock) with
            node := n } = s.total := by
    unfold total
    congr 1
    apply List.map_congr_left
    intro other hMem
    exact requestSize_append _ (hKept.outstanding other hMem) s
  refine ⟨?_, ?_, ?_, ?_, ?_, ?_⟩
  · rw [hSize] at hWired
    exact hWired
  · simp [note, hKept.sizes_eq]
  · intro other hMem
    simp only [note, List.length_append, List.length_singleton]
    rcases List.mem_append.mp hMem with hOld | hNew
    · have hLt := hKept.scheduled other hOld
      omega
    · simp only [List.mem_singleton, JobNotice.scheduled.injEq]
        at hNew
      omega
  · intro other hMem
    simp only [note, List.length_append, List.length_singleton]
    have hLt := hKept.outstanding other hMem
    omega
  · rw [hTotal]
    exact hKept.total_lt
  · rw [hTotal]
    exact hKept.queue_eq

theorem Kept.launcher
    (hKept : s.Kept)
    {e : Proxy.Event}
    (hStep : s.node.step (.launcher e) = some n) :
    Kept { s.note (.launcher e) with node := n } where
  wired := Node.wired_launcher hKept.wired hStep
  sizes_eq := hKept.sizes_eq
  scheduled := by
    intro job hMem
    simp only [note, List.mem_append, List.mem_replicate,
      List.mem_map, reduceCtorEq, and_false, exists_false,
      or_false] at hMem
    exact hKept.scheduled job hMem
  outstanding := hKept.outstanding
  total_lt := hKept.total_lt
  queue_eq := hKept.queue_eq

/- The writer puts in the size that was there. -/
theorem Kept.serialize
    (hKept : s.Kept)
    (hPack : s.node.launcher.jobs[job]? = some pack)
    (hHanded : s.node.launcher.handed job pack = true) :
    Kept
      { s with
        datasize :=
          s.datasize.set job pack.data.length.toUInt32 } := by
  have hWhole := hKept.wired.whole_of_handed hHanded
  have hSize :
      s.requested[job]? = some pack.data.length.toUInt32 := by
    rw [← hKept.wired.sizes_eq, List.getElem?_map, hPack,
      Option.map_some, Packet.wireSize, ← hWhole]
  have hSame :
      s.datasize.set job pack.data.length.toUInt32 =
        s.datasize := by
    rw [hKept.sizes_eq]
    rcases List.getElem?_eq_some_iff.mp hSize with ⟨_, hGet⟩
    rw [← hGet, List.set_getElem_self]
  rw [hSame]
  exact hKept

theorem requestSize_of_datasize
    (hKept : s.Kept)
    {size : UInt32}
    (hSize : s.datasize[job]? = some size) :
    s.requestSize job = size.toNat := by
  rw [hKept.sizes_eq] at hSize
  unfold requestSize
  rw [hSize]
  rfl

/- The policy adds and subtracts the same size. -/
theorem Kept.notice
    {s s' : Scheduler}
    (hKept : s.Kept)
    {i : Nat}
    (hFits : s.Fits (.notice i))
    (hStep : s.step (.notice i) = some s') :
    s'.Kept := by
  rcases Option.bind_eq_some_iff.mp hStep with
    ⟨notice, hNotice, hRun⟩
  simp only [Fits, hNotice] at hFits
  have hScheduled :
      ∀ job, .scheduled job ∈ s.notices.eraseIdx i →
        job < s.requested.length :=
    fun job hMem =>
      hKept.scheduled job (List.mem_of_mem_eraseIdx hMem)
  have hLt := hKept.total_lt
  cases notice with
  | scheduled job =>
      rcases Option.bind_eq_some_iff.mp hRun with
        ⟨size, hSize, hSome⟩
      cases hSome
      have hRequest := requestSize_of_datasize hKept hSize
      have hRange : s.total + s.requestSize job < 2 ^ 63 := hFits
      rw [hRequest] at hRange
      have hTotal :
          ((s.outstanding ++ [job]).map s.requestSize).sum =
            s.total + size.toNat := by
        simp [total, hRequest]
      refine ⟨hKept.wired, hKept.sizes_eq, hScheduled,
        ?_, ?_, ?_⟩
      · intro other hMem
        rcases List.mem_append.mp hMem with hOld | hNew
        · exact hKept.outstanding other hOld
        · rw [List.mem_singleton.mp hNew]
          exact hKept.scheduled job
            (List.mem_of_getElem? hNotice)
      · exact lt_of_eq_of_lt hTotal hRange
      · refine Eq.trans ?_
          (congrArg (fun n : Nat => (n : Int)) hTotal).symm
        simp only [MaxQueue.scheduleANewJob, hKept.queue_eq]
        rw [Int.bmod_eq_of_le (by omega) (by omega)]
        omega
  | rescheduled =>
      cases hRun
      exact ⟨hKept.wired, hKept.sizes_eq, hScheduled,
        hKept.outstanding, hKept.total_lt, hKept.queue_eq⟩
  | finished job =>
      rcases Option.bind_eq_some_iff.mp hRun with
        ⟨size, hSize, hSome⟩
      cases hSome
      have hRequest := requestSize_of_datasize hKept hSize
      have hTotal :
          size.toNat +
              ((s.outstanding.erase job).map
                s.requestSize).sum = s.total := by
        rw [← hRequest]
        exact List.sum_map_erase s.requestSize hFits
      refine ⟨hKept.wired, hKept.sizes_eq, hScheduled,
        ?_, ?_, ?_⟩
      · intro other hMem
        exact hKept.outstanding other
          (List.mem_of_mem_erase hMem)
      · refine Nat.lt_of_le_of_lt ?_ hLt
        rw [← hTotal]
        exact Nat.le_add_left _ _
      · have hNew :
            total
                { s with
                  notices := s.notices.eraseIdx i
                  policy := s.policy.finishedAJob size
                  outstanding := s.outstanding.erase job } =
              s.total - size.toNat := by
          rw [← hTotal, Nat.add_sub_cancel_left]
          rfl
        have hLe : size.toNat ≤ s.total := by
          rw [← hTotal]
          exact Nat.le_add_right _ _
        refine Eq.trans ?_
          (congrArg (fun n : Nat => (n : Int)) hNew).symm
        simp only [MaxQueue.finishedAJob, hKept.queue_eq]
        rw [Int.bmod_eq_of_le (by omega) (by omega)]
        omega

theorem Kept.step
    {s' : Scheduler}
    {e : Event}
    (hKept : s.Kept)
    (hFits : s.Fits e)
    (hStep : s.step e = some s') :
    s'.Kept := by
  cases e with
  | node e =>
      rcases Option.bind_eq_some_iff.mp hStep with
        ⟨n, hNode, hSome⟩
      cases hSome
      cases e with
      | trigger pack readsUnlock =>
          exact hKept.trigger hFits hNode
      | launcher e => exact hKept.launcher hNode
  | serialize job =>
      rcases Option.bind_eq_some_iff.mp hStep with
        ⟨pack, hPack, hRest⟩
      split at hRest
      · rename_i hHanded
        cases hRest
        exact hKept.serialize hPack hHanded
      · cases hRest
  | notice i => exact hKept.notice hFits hStep

theorem kept_start
    (maxOutstandingStartingRequest : Int)
    (maxQueue : Nat) :
    (start maxOutstandingStartingRequest maxQueue).Kept where
  wired := Launcher.wired_start
  sizes_eq := rfl
  scheduled := by
    intro job hMem
    cases hMem
  outstanding := by
    intro job hMem
    cases hMem
  total_lt := Nat.two_pow_pos 63
  queue_eq := rfl

/-
  In every run in which each request that the proxy answers
  is as long as its answer, and the policy is told in order
  and once about each job, the queue is the sum of the sizes
  of the outstanding jobs.
-/
theorem queueSize_eq_outstanding
    (maxOutstandingStartingRequest : Int)
    (maxQueue : Nat)
    (es : List Event)
    {s : Scheduler}
    (hRun :
      run step
        (start maxOutstandingStartingRequest maxQueue) es =
        some s)
    (hFits :
      Along step Fits
        (start maxOutstandingStartingRequest maxQueue) es) :
    s.policy.queueSize = s.total ∧
      0 ≤ s.policy.queueSize ∧
      (s.outstanding = [] → s.policy.queueSize = 0) := by
  have hKept : s.Kept := by
    refine invariant_of_run ?_
      (kept_start _ _) hRun hFits
    intro t e t' hInv hCond hStep
    exact hInv.step hCond hStep
  have hQueue := hKept.queue_eq
  refine ⟨hQueue, by omega, ?_⟩
  intro hNone
  rw [hQueue, total, hNone]
  rfl

open Proxy.Node (addSampleWorker samplePacket sampleResponse)

def runHandler (i : Nat) (worker : Nat) : Event :=
  .node (Node.runHandler i worker)

def respond (worker : Nat) : Event :=
  .node
    (.launcher
      (.workerResponse worker
        (sampleResponse .openFileSuccess 1)))

/- A worker is closed, and another one does its job. -/
def doneByAnother : List Event :=
  [.node addSampleWorker,
    .node (.trigger (samplePacket .open 1) false),
    .notice 0,
    runHandler 0 0,
    .serialize 0,
    .node (.launcher (.close .readError 0)),
    .notice 0,
    .node addSampleWorker,
    runHandler 0 1,
    .serialize 0,
    respond 1,
    runHandler 0 1]

/- The queue and the jobs after a run. -/
def queueAfter (es : List Event) : Option (Int × List Nat) :=
  (run step (start 4 1) es).map
    (fun s => (s.policy.queueSize, s.outstanding))

theorem queueSize_doneByAnother :
    queueAfter doneByAnother = some (80, [0]) ∧
      queueAfter (doneByAnother ++ [.notice 0]) =
        some (0, []) ∧
      ∃ s, run step (start 4 1) doneByAnother =
          some s ∧
        s.policy.queueSize = s.total := by
  have hQueue :
      queueAfter doneByAnother = some (80, [0]) := by
    decide +kernel
  refine ⟨hQueue, by decide +kernel, ?_⟩
  rcases Option.map_eq_some_iff.mp hQueue with ⟨s, hRun, _⟩
  exact ⟨s, hRun,
    (queueSize_eq_outstanding 4 1 doneByAnother hRun
      (by decide +kernel)).1⟩

/- The proxy answers a request to close a file by itself. -/
def answeredByProxy : List Event :=
  [.node addSampleWorker,
    .node (.trigger (samplePacket .close 1) false),
    .notice 0,
    runHandler 0 0,
    runHandler 0 0,
    .serialize 0,
    .notice 0]

/-
  A worker is closed after its answer is read and before it
  is looked at, so that another worker answers as well.
-/
def answeredTwice : List Event :=
  [.node addSampleWorker,
    .node (.trigger (samplePacket .open 1) false),
    .notice 0,
    runHandler 0 0,
    respond 0,
    .node (.launcher (.close .workerDereg 0)),
    .node addSampleWorker,
    runHandler 0 0,
    runHandler 0 1,
    respond 1,
    runHandler 0 1,
    .notice 0,
    .notice 0,
    .notice 0]

/- No job is outstanding, and the queue is not zero. -/
theorem queue_without_jobs :
    queueAfter answeredByProxy = some (56, []) ∧
      queueAfter answeredTwice = some (-80, []) := by
  constructor
  · decide +kernel
  · decide +kernel

end Scheduler

end Proxy

end Slfs
