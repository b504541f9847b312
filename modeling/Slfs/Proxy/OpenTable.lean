import Slfs.Jsre.RequestParser
import Slfs.Proxy.Trigger

/-
  The table of opened files and the jobs of the proxy.

  Each request becomes a job, whoever answers it. A response
  of a worker changes the tables when it is read, and
  completes its job later, when its handler is run.

  Main declarations:
    * `Proxy.Node.delivered`
    * `Proxy.Node.opened_eq_delivered`
-/

----------
-- Tables And Jobs Together
----------

namespace Slfs

open Transition

namespace Proxy

def requestType : Jsre.Command → RequestType
| .file _ => .file
| .metadata op => .metadata op
| .wakeup => .wakeup
| .storagetest => .storagetest

/- The packet of a job. An address is filled in later. -/
def Routed.packet (pack : Packet) : Routed → Packet
| .answer .proxySendIp _ =>
    { pack with
      header := { pack.header with type := .proxySendIp } }
| .answer type data =>
    { header := { pack.header with type := type }
      data := data }
| .forward type =>
    { pack with header := { pack.header with type := type } }

/- The types of packets that a worker responds with. -/
def MsgT.isResponse : MsgT → Bool
| .workerResponse => true
| .openFileSuccess => true
| .openFileNotFound => true
| .renameSuccess => true
| .renameFail => true
| _ => false

/- A proxy, and what it has decided for each job. -/
structure Node where
  locks : Locks
  launcher : Launcher
  decided : List Entry

namespace Node

inductive Event where
| trigger (pack : Packet) (readsUnlock : Bool)
| launcher (e : Proxy.Event)
deriving DecidableEq, Repr

def start : Node :=
  { locks := .empty, launcher := .start, decided := [] }

/- `start_trigger_post`, which schedules a job. -/
def trigger
    (pack : Packet)
    (readsUnlock : Bool)
    (n : Node) : Option Node := do
  let (command, input) ←
    Jsre.RequestParser.parse pack.header.key pack.data
  let (routed, locks) ←
    n.locks.trigger readsUnlock (requestType command) input
  some
    { locks := locks
      launcher := n.launcher.schedule (routed.packet pack)
      decided := n.decided ++
        [.routed (requestType command) input routed] }

/- A worker's packet is read. Strange ones are ignored. -/
def startRead
    (w : Nat)
    (pack : Packet)
    (n : Node) : Option Node := do
  let worker ← n.launcher.workers[w]?
  if pack.header.type.isResponse then
    let body :=
      n.locks.startReadBody worker.endpoint pack.header.type
        pack.data
    some
      { n with
        locks := body.2
        launcher :=
          n.launcher.post
            (.response w { pack with data := body.1 }) }
  else some n

def step (n : Node) : Event → Option Node
| .trigger pack readsUnlock => n.trigger pack readsUnlock
| .launcher (.schedule _) => none
| .launcher (.workerResponse w pack) => n.startRead w pack
| .launcher e => do
    let launcher ← n.launcher.step e
    some { n with launcher := launcher }

/- A response is read; the launcher does the rest alone. -/
theorem launcher_cases
    {n n' : Node}
    {e : Proxy.Event}
    (hStep : n.step (.launcher e) = some n') :
    (∃ w pack,
      e = .workerResponse w pack ∧
        n.startRead w pack = some n') ∨
      (∀ pack, e ≠ .schedule pack) ∧
        (∀ w pack, e ≠ .workerResponse w pack) ∧
        ∃ l, n.launcher.step e = some l ∧
          n' = { n with launcher := l } := by
  cases e with
  | schedule pack => cases hStep
  | workerResponse w pack =>
      exact .inl ⟨w, pack, rfl, hStep⟩
  | addWorker endpoint | workerAck w pack
  | close cause w | run i assigned available =>
      simp only [step, Option.bind_eq_bind,
        Option.bind_eq_some_iff, Option.some.injEq] at hStep
      rcases hStep with ⟨l, hNext, rfl⟩
      exact .inr ⟨by simp, by simp, l, hNext, rfl⟩

end Node

----------
-- Successes That Are Told
----------

def Handler.response? : Handler → Option (Nat × Packet)
| .response w pack => some (w, pack)
| _ => none

namespace Launcher

/- The job that a worker has under a header. -/
def find
    (l : Launcher)
    (w : Nat)
    (h : PacketHeader) : Option Nat :=
  (l.workers[w]?).bind (fun worker => worker.find h)

/- The responses that have been read and not looked at. -/
def responses (l : Launcher) : List (Nat × Packet) :=
  l.posted.filterMap Handler.response?

/-
  The job has been told that its file is open, or a response
  that says so is on its way to it.
-/
def told (l : Launcher) (job : Nat) : Bool :=
  l.completed.any (fun c =>
    c.1 = job && c.2.header.type = .openFileSuccess) ||
  l.responses.any (fun r =>
    r.2.header.type = .openFileSuccess &&
      l.find r.1 r.2.header = some job)

end Launcher

namespace Node

/- The open of a job has succeeded. -/
def opensFile (n : Node) (file : Uuid) (job : Nat) : Bool :=
  match n.decided[job]? with
  | none => false
  | some e =>
      e.opens file ||
        (e.forwardsOpen file && n.launcher.told job)

/- How many opens of a file have succeeded. -/
def delivered (n : Node) (file : Uuid) : Nat :=
  (List.range n.decided.length).countP (n.opensFile file)

/- How many closes of a file have been answered with OK. -/
def closings (n : Node) (file : Uuid) : Nat :=
  n.decided.countP (Entry.closes file)

end Node

----------
-- Steps That Tell Nothing
----------

namespace Worker

variable {worker : Worker} {h : PacketHeader}
variable {job : Nat}

/- Later jobs do not hide an earlier one. -/
theorem find_emplace
    (hFind : worker.find h = some job)
    (h' : PacketHeader)
    (job' : Nat) :
    (worker.emplace h' job').find h = some job := by
  unfold emplace
  split
  · exact hFind
  · rcases Option.map_eq_some_iff.mp hFind with
      ⟨e, hSome, hJob⟩
    simp [find, List.find?_append, hSome, hJob]

theorem find_erase_of_ne
    (worker : Worker)
    {h' : PacketHeader}
    (hNe : h.fullKey ≠ h'.fullKey) :
    (worker.erase h').find h = worker.find h := by
  unfold find erase
  congr 1
  simp only
  induction worker.startedJobs with
  | nil => rfl
  | cons e entries ih =>
      by_cases hErased : e.1 = h'.fullKey
      · have hOther : ¬ e.1 = h.fullKey := by
          rw [hErased]
          exact fun hEq => hNe hEq.symm
        simp [hErased, hNe.symm]
      · by_cases hFound : e.1 = h.fullKey
        · simp [hFound, hNe]
        · simp [hErased, hFound, ih]

theorem mem_of_find
    (hFind : worker.find h = some job) :
    ∃ e ∈ worker.startedJobs, e.2 = job := by
  rcases Option.map_eq_some_iff.mp hFind with ⟨e, hSome, hJob⟩
  exact ⟨e, List.mem_of_find?_eq_some hSome, hJob⟩

end Worker

namespace Launcher

variable {l l' : Launcher} {w job : Nat}
variable {worker : Worker} {pack : Packet}

theorem find_setWorker
    (hWorker : l.workers[w]? = some worker)
    (worker' : Worker)
    (w' : Nat)
    (h : PacketHeader) :
    ({ l with workers := l.workers.set w worker' } :
        Launcher).find w' h =
      if w = w' then worker'.find h else l.find w' h := by
  rcases List.getElem?_eq_some_iff.mp hWorker with ⟨hLt, _⟩
  by_cases hEq : w = w'
  · subst hEq
    simp [find, hLt]
  · simp [find, List.getElem?_set_ne hEq, hEq]

theorem find_eq_of_worker
    (hWorker : l.workers[w]? = some worker)
    (h : PacketHeader) :
    l.find w h = worker.find h := by
  simp [find, hWorker]

/- A success that is read is told, or will be. -/
theorem told_iff :
    l.told job = true ↔
      (∃ c ∈ l.completed, c.1 = job ∧
        c.2.header.type = .openFileSuccess) ∨
      (∃ r ∈ l.responses,
        r.2.header.type = .openFileSuccess ∧
        l.find r.1 r.2.header = some job) := by
  simp [told]

/- Numbers of jobs are of jobs, which have no response. -/
structure Bounded (l : Launcher) : Prop where
  types :
    ∀ pack ∈ l.jobs, pack.header.type ≠ .openFileSuccess
  completed : ∀ c ∈ l.completed, c.1 < l.jobs.length
  started :
    ∀ worker ∈ l.workers, ∀ e ∈ worker.startedJobs,
      e.2 < l.jobs.length

theorem Bounded.congr
    (h : l.Bounded)
    (hJobs : l'.jobs = l.jobs)
    (hWorkers : l'.workers = l.workers)
    (hCompleted : l'.completed = l.completed) :
    l'.Bounded := by
  constructor
  · rw [hJobs]
    exact h.types
  · rw [hJobs, hCompleted]
    exact h.completed
  · rw [hJobs, hWorkers]
    exact h.started

theorem Bounded.setWorker
    {worker' : Worker}
    (h : l.Bounded)
    (hWorker : l.workers[w]? = some worker)
    (hStarted :
      ∀ e ∈ worker'.startedJobs,
        e ∈ worker.startedJobs ∨ e.2 < l.jobs.length) :
    Bounded { l with workers := l.workers.set w worker' } := by
  refine ⟨h.types, h.completed, ?_⟩
  intro other hMem e hEntry
  rcases List.mem_or_eq_of_mem_set hMem with hOld | hNew
  · exact h.started other hOld e hEntry
  · subst hNew
    rcases hStarted e hEntry with hKept | hLt
    · exact h.started worker (List.mem_of_getElem? hWorker)
        e hKept
    · exact hLt

theorem Bounded.onCompletion
    (h : l.Bounded)
    (hLt : job < l.jobs.length)
    (pack : Packet) :
    Bounded (l.onCompletion job pack) := by
  refine ⟨h.types, ?_, h.started⟩
  intro c hMem
  rcases List.mem_append.mp hMem with hOld | hNew
  · exact h.completed c hOld
  · rw [List.mem_singleton] at hNew
    rw [hNew]
    exact hLt

/-
  Every success that has been read is for a job that its
  worker has, and no job of a worker is answered twice.
-/
structure Tidy (l : Launcher) : Prop where
  bounded : l.Bounded
  registered :
    ∀ r ∈ l.responses,
      r.2.header.type = .openFileSuccess →
      ∃ job, l.find r.1 r.2.header = some job
  once :
    (l.responses.map
      (fun r => (r.1, r.2.header.fullKey))).Nodup

/- A step that tells no job anything. -/
structure Keeps (l l' : Launcher) : Prop where
  jobs : l'.jobs.length = l.jobs.length
  completed :
    ∀ c, c.2.header.type = .openFileSuccess →
      (c ∈ l'.completed ↔ c ∈ l.completed)
  responses : l'.responses.Perm l.responses
  find :
    ∀ w h job, l.find w h = some job →
      l'.find w h = some job
  bounded : l.Bounded → l'.Bounded

theorem Keeps.told
    (h : Keeps l l')
    (hTidy : l.Tidy)
    (job : Nat) :
    l'.told job = l.told job := by
  rw [Bool.eq_iff_iff, told_iff, told_iff]
  constructor
  · rintro (⟨c, hMem, hJob, hType⟩ | ⟨r, hMem, hType, hFind⟩)
    · exact Or.inl
        ⟨c, (h.completed c hType).mp hMem, hJob, hType⟩
    · have hOld := h.responses.mem_iff.mp hMem
      rcases hTidy.registered r hOld hType with ⟨job', hJob'⟩
      have hSame := h.find r.1 r.2.header job' hJob'
      rw [hFind] at hSame
      cases hSame
      exact Or.inr ⟨r, hOld, hType, hJob'⟩
  · rintro (⟨c, hMem, hJob, hType⟩ | ⟨r, hMem, hType, hFind⟩)
    · exact Or.inl
        ⟨c, (h.completed c hType).mpr hMem, hJob, hType⟩
    · exact Or.inr
        ⟨r, h.responses.mem_iff.mpr hMem, hType,
          h.find r.1 r.2.header job hFind⟩

theorem Keeps.tidy
    (h : Keeps l l')
    (hTidy : l.Tidy) :
    l'.Tidy := by
  refine
    { bounded := h.bounded hTidy.bounded
      registered := ?_
      once := ?_ }
  · intro r hMem hType
    rcases hTidy.registered r (h.responses.mem_iff.mp hMem)
        hType with ⟨job, hJob⟩
    exact ⟨job, h.find r.1 r.2.header job hJob⟩
  · exact (h.responses.map _).nodup_iff.mpr hTidy.once

variable {i : Nat} {h : Handler}

theorem Keeps.trans
    {m n : Launcher}
    (h : Keeps l m)
    (h' : Keeps m n) :
    Keeps l n := by
  refine
    { jobs := h'.jobs.trans h.jobs
      completed := ?_
      responses := h'.responses.trans h.responses
      find := ?_
      bounded := fun hBounded => h'.bounded (h.bounded hBounded) }
  · intro c hType
    rw [h'.completed c hType, h.completed c hType]
  · intro w hd job hFind
    exact h'.find w hd job (h.find w hd job hFind)

theorem responses_post
    (h : Handler)
    (l : Launcher) :
    (l.post h).responses =
      l.responses ++ h.response?.toList := by
  cases h <;> simp [responses, post, Handler.response?]

/- Taking out a handler takes out its response. -/
theorem responses_eraseHandler
    (hHandler : l.posted[i]? = some h) :
    l.responses.Perm
      (h.response?.toList ++
        ({ l with posted := l.posted.eraseIdx i } :
          Launcher).responses) := by
  rcases List.getElem?_eq_some_iff.mp hHandler with ⟨hi, hGet⟩
  have hPerm := List.getElem_cons_eraseIdx_perm hi
  rw [hGet] at hPerm
  have hFilter := (hPerm.filterMap Handler.response?).symm
  cases hResponse : h.response? with
  | none =>
      rw [List.filterMap_cons_none hResponse] at hFilter
      exact hFilter
  | some r =>
      rw [List.filterMap_cons_some hResponse] at hFilter
      exact hFilter

/- The same table of workers, and the same jobs. -/
theorem keeps_of_posted
    (hJobs : l'.jobs = l.jobs)
    (hWorkers : l'.workers = l.workers)
    (hCompleted : l'.completed = l.completed)
    (hResponses : l'.responses.Perm l.responses) :
    Keeps l l' := by
  refine
    { jobs := by rw [hJobs]
      completed := ?_
      responses := hResponses
      find := ?_
      bounded := fun h => h.congr hJobs hWorkers hCompleted }
  · intro c _
    rw [hCompleted]
  · intro w h job hFind
    unfold find at hFind ⊢
    rwa [hWorkers]

theorem keeps_post
    (hResponse : h.response? = none)
    (l : Launcher) :
    Keeps l (l.post h) := by
  apply keeps_of_posted
  · rfl
  · rfl
  · rfl
  · rw [responses_post, hResponse]
    simp

theorem keeps_eraseHandler
    (hHandler : l.posted[i]? = some h)
    (hResponse : h.response? = none) :
    Keeps l { l with posted := l.posted.eraseIdx i } := by
  apply keeps_of_posted
  · rfl
  · rfl
  · rfl
  · have hPerm := responses_eraseHandler hHandler
    rw [hResponse] at hPerm
    exact hPerm.symm

/- A worker that keeps its jobs, or gets one more. -/
theorem keeps_setWorker
    {worker' : Worker}
    (hWorker : l.workers[w]? = some worker)
    (hFind :
      ∀ h job, worker.find h = some job →
        worker'.find h = some job)
    (hStarted :
      ∀ e ∈ worker'.startedJobs,
        e ∈ worker.startedJobs ∨ e.2 < l.jobs.length) :
    Keeps l { l with workers := l.workers.set w worker' } := by
  refine
    { jobs := rfl
      completed := fun c _ => Iff.rfl
      responses := List.Perm.refl _
      find := ?_
      bounded := fun h => h.setWorker hWorker hStarted }
  intro w' h job hOld
  rw [find_setWorker hWorker]
  by_cases hEq : w = w'
  · subst hEq
    rw [if_pos rfl]
    rw [find_eq_of_worker hWorker] at hOld
    exact hFind h job hOld
  · rw [if_neg hEq]
    exact hOld

theorem keeps_addWorker
    (endpoint : Vector UInt8 6)
    (l : Launcher) :
    Keeps l (l.addWorker endpoint) := by
  refine
    { jobs := rfl
      completed := fun c _ => Iff.rfl
      responses := List.Perm.refl _
      find := ?_
      bounded := ?_ }
  · intro w h job hFind
    rcases Option.bind_eq_some_iff.mp hFind with
      ⟨worker, hWorker, hJob⟩
    have hLt : w < l.workers.length :=
      (List.getElem?_eq_some_iff.mp hWorker).1
    unfold find addWorker
    rw [List.getElem?_append_left hLt, hWorker]
    exact hJob
  · intro hBounded
    refine
      { types := hBounded.types
        completed := hBounded.completed
        started := ?_ }
    intro worker hMem e hEntry
    rcases List.mem_append.mp hMem with hOld | hNew
    · exact hBounded.started worker hOld e hEntry
    · rw [List.mem_singleton] at hNew
      subst hNew
      cases hEntry

/- Closing a worker loses no answer. -/
theorem keeps_close
    (hWorker : l.workers[w]? = some worker) :
    Keeps l (l.close w worker) := by
  have hFold :
      ∀ (entries : List (FullKey × Nat)) (m : Launcher),
        Keeps l m →
        Keeps l
          (entries.foldl (fun m e => m.reschedule e.2) m) := by
    intro entries
    induction entries with
    | nil => exact fun m hm => hm
    | cons e entries ih =>
        intro m hm
        apply ih
        exact hm.trans (keeps_post rfl m)
  apply hFold
  apply keeps_setWorker hWorker
  · exact fun h job hFind => hFind
  · exact fun e hMem => Or.inl hMem

theorem keeps_startWrite
    (hWorker : l.workers[w]? = some worker)
    (hJob : l.jobs[job]? = some pack) :
    Keeps l (l.startWrite w worker job pack) := by
  have hLt : job < l.jobs.length :=
    (List.getElem?_eq_some_iff.mp hJob).1
  unfold startWrite
  split
  · -- the packet keeps its type
    refine Keeps.trans ?_ (keeps_post rfl _)
    refine
      { jobs := by simp
        completed := fun c _ => Iff.rfl
        responses := List.Perm.refl _
        find := fun w h job hFind => hFind
        bounded := ?_ }
    intro hBounded
    refine
      { types := ?_
        completed := ?_
        started := ?_ }
    · intro other hMem
      rcases List.mem_or_eq_of_mem_set hMem with hOld | hNew
      · exact hBounded.types other hOld
      · subst hNew
        exact hBounded.types pack (List.mem_of_getElem? hJob)
    · simpa using hBounded.completed
    · simpa using hBounded.started
  · exact keeps_post rfl l
  · exact keeps_post rfl l
  · apply keeps_setWorker hWorker
    · intro h job' hFind
      exact Worker.find_emplace hFind pack.header job
    · intro e hMem
      rcases Worker.mem_emplace hMem with hOld | hNew
      · exact Or.inl hOld
      · rw [hNew]
        exact Or.inr hLt

theorem keeps_processJob
    (hJob : l.jobs[job]? = some pack)
    (assigned available : Option Nat) :
    Keeps l (l.processJob assigned available job pack) := by
  unfold processJob
  split
  · rename_i w worker hWorker
    exact keeps_startWrite (validWorker_eq_some hWorker) hJob
  · split
    · rename_i w worker hWorker
      exact keeps_startWrite (validWorker_eq_some hWorker) hJob
    · exact keeps_post rfl l

/- The proxy completes a job with its own packet. -/
theorem keeps_complete
    (hBounded : l.Bounded)
    (hJob : l.jobs[job]? = some pack) :
    Keeps l (l.onCompletion job pack) := by
  have hType := hBounded.types pack (List.mem_of_getElem? hJob)
  have hLt := (List.getElem?_eq_some_iff.mp hJob).1
  refine
    { jobs := rfl
      completed := ?_
      responses := List.Perm.refl _
      find := fun w h job hFind => hFind
      bounded := fun h => h.onCompletion hLt pack }
  intro c hSuccess
  simp only [onCompletion, List.mem_append,
    List.mem_singleton, or_iff_left_iff_imp]
  intro hEq
  rw [hEq] at hSuccess
  exact absurd hSuccess hType

----------
-- Responses That Are Read And Looked At
----------

/- What is left when a response is taken out. -/
structure Taken
    (l l' : Launcher)
    (w : Nat)
    (pack : Packet) : Prop where
  mem :
    ∀ r, r ∈ l.responses ↔ r = (w, pack) ∨ r ∈ l'.responses
  fresh :
    ∀ r ∈ l'.responses,
      (r.1, r.2.header.fullKey) ≠ (w, pack.header.fullKey)
  once :
    (l'.responses.map
      (fun r => (r.1, r.2.header.fullKey))).Nodup

theorem taken_of_tidy
    (hTidy : l.Tidy)
    (hHandler : l.posted[i]? = some (.response w pack)) :
    Taken l { l with posted := l.posted.eraseIdx i } w pack := by
  have hPerm := responses_eraseHandler hHandler
  rw [Handler.response?, Option.toList_some,
    List.singleton_append] at hPerm
  have hOnce := (hPerm.map
    (fun r => (r.1, r.2.header.fullKey))).nodup_iff.mp hTidy.once
  rw [List.map_cons, List.nodup_cons] at hOnce
  refine
    { mem := ?_
      fresh := ?_
      once := hOnce.2 }
  · intro r
    rw [hPerm.mem_iff, List.mem_cons]
  · intro r hMem hEq
    apply hOnce.1
    rw [← hEq]
    exact List.mem_map_of_mem hMem

/- A response to nothing is not a success. -/
theorem tidy_response_unknown
    (hTidy : l.Tidy)
    (hTaken : Taken l l' w pack)
    (hSame :
      l'.jobs = l.jobs ∧ l'.workers = l.workers ∧
        l'.completed = l.completed)
    (hFind : l.find w pack.header = none) :
    l'.Tidy ∧ ∀ job, l'.told job = l.told job := by
  rcases hSame with ⟨hJobs, hWorkers, hCompleted⟩
  have hSameFind : l'.find = l.find := by
    funext v h
    unfold find
    rw [hWorkers]
  have hOther : pack.header.type ≠ .openFileSuccess := by
    intro hType
    rcases hTidy.registered (w, pack)
        ((hTaken.mem _).mpr (.inl rfl)) hType with ⟨job, hJob⟩
    rw [hFind] at hJob
    cases hJob
  refine ⟨⟨?_, ?_, hTaken.once⟩, ?_⟩
  · exact hTidy.bounded.congr hJobs hWorkers hCompleted
  · intro r hr hType
    rw [hSameFind]
    exact hTidy.registered r ((hTaken.mem r).mpr (.inr hr))
      hType
  · intro job
    rw [Bool.eq_iff_iff, told_iff, told_iff, hCompleted,
      hSameFind]
    constructor
    · rintro (hDone | ⟨r, hr, hRest⟩)
      · exact Or.inl hDone
      · exact Or.inr ⟨r, (hTaken.mem r).mpr (.inr hr), hRest⟩
    · rintro (hDone | ⟨r, hr, hType, hJob⟩)
      · exact Or.inl hDone
      · rcases (hTaken.mem r).mp hr with hEq | hr'
        · rw [hEq] at hType
          exact absurd hType hOther
        · exact Or.inr ⟨r, hr', hType, hJob⟩

/-
  A response to a job tells it what was on its way to it,
  and changes nothing for the responses that are left.
-/
theorem tidy_response_known
    {found : Nat}
    (hTidy : l.Tidy)
    (hTaken : Taken l l' w pack)
    (hJobs : l'.jobs = l.jobs)
    (hWorker : l.workers[w]? = some worker)
    (hWorkers :
      l'.workers = l.workers.set w (worker.erase pack.header))
    (hCompleted :
      l'.completed = l.completed ++ [(found, pack)])
    (hFind : worker.find pack.header = some found) :
    l'.Tidy ∧ ∀ job, l'.told job = l.told job := by
  have hLeft :
      ∀ r ∈ l'.responses,
        l'.find r.1 r.2.header = l.find r.1 r.2.header := by
    intro r hr
    have hSet := find_setWorker hWorker
      (worker.erase pack.header) r.1 r.2.header
    have hSame : l'.find r.1 r.2.header =
        ({ l with
          workers :=
            l.workers.set w (worker.erase pack.header) } :
          Launcher).find r.1 r.2.header := by
      unfold find
      rw [hWorkers]
    rw [hSame, hSet]
    by_cases hEq : w = r.1
    · rw [if_pos hEq]
      have hNe : r.2.header.fullKey ≠ pack.header.fullKey := by
        intro hKey
        exact hTaken.fresh r hr (Prod.ext hEq.symm hKey)
      rw [Worker.find_erase_of_ne worker hNe, ← hEq,
        find_eq_of_worker hWorker]
    · rw [if_neg hEq]
  have hFound : found < l.jobs.length := by
    rcases Worker.mem_of_find hFind with ⟨e, hMem, hJob⟩
    rw [← hJob]
    exact hTidy.bounded.started worker
      (List.mem_of_getElem? hWorker) e hMem
  refine ⟨⟨?_, ?_, hTaken.once⟩, ?_⟩
  · have hErased :
        ∀ e ∈ (worker.erase pack.header).startedJobs,
          e ∈ worker.startedJobs ∨ e.2 < l.jobs.length :=
      fun e hMem => Or.inl (List.mem_of_mem_eraseP hMem)
    have hSet := hTidy.bounded.setWorker hWorker hErased
    exact (hSet.onCompletion hFound pack).congr
      hJobs hWorkers hCompleted
  · intro r hr hType
    rw [hLeft r hr]
    exact hTidy.registered r ((hTaken.mem r).mpr (.inr hr))
      hType
  · intro job
    rw [Bool.eq_iff_iff, told_iff, told_iff, hCompleted]
    constructor
    · rintro (⟨c, hMem, hJob, hType⟩ | ⟨r, hr, hType, hJob⟩)
      · rcases List.mem_append.mp hMem with hOld | hNew
        · exact Or.inl ⟨c, hOld, hJob, hType⟩
        · -- it was on its way
          rw [List.mem_singleton] at hNew
          subst hNew hJob
          exact Or.inr ⟨(w, pack), (hTaken.mem _).mpr (.inl rfl),
            hType, by rw [find_eq_of_worker hWorker, hFind]⟩
      · rw [hLeft r hr] at hJob
        exact Or.inr
          ⟨r, (hTaken.mem r).mpr (.inr hr), hType, hJob⟩
    · rintro (⟨c, hMem, hJob, hType⟩ | ⟨r, hr, hType, hJob⟩)
      · exact Or.inl
          ⟨c, List.mem_append_left _ hMem, hJob, hType⟩
      · rcases (hTaken.mem r).mp hr with hEq | hr'
        · subst hEq
          rw [find_eq_of_worker hWorker, hFind] at hJob
          cases hJob
          exact Or.inl ⟨(found, pack),
            List.mem_append_right _ (List.mem_singleton_self _),
            rfl, hType⟩
        · exact Or.inr ⟨r, hr', hType, by rw [hLeft r hr', hJob]⟩

/- No event of the launcher alone tells a job anything. -/
theorem told_step
    {e : Event}
    (hTidy : l.Tidy)
    (hSchedule : ∀ pack, e ≠ .schedule pack)
    (hRead : ∀ w pack, e ≠ .workerResponse w pack)
    (hStep : l.step e = some l') :
    l'.Tidy ∧ l'.jobs.length = l.jobs.length ∧
      ∀ job, l'.told job = l.told job := by
  have hKeeps :
      ∀ {m : Launcher}, Keeps l m →
        m.Tidy ∧ m.jobs.length = l.jobs.length ∧
          ∀ job, m.told job = l.told job := by
    intro m h
    exact ⟨h.tidy hTidy, h.jobs, h.told hTidy⟩
  cases e with
  | addWorker endpoint =>
      cases hStep
      exact hKeeps (keeps_addWorker endpoint l)
  | schedule pack => exact absurd rfl (hSchedule pack)
  | workerAck w pack =>
      rcases Option.bind_eq_some_iff.mp hStep with
        ⟨worker, _, hSome⟩
      cases hSome
      exact hKeeps (keeps_post rfl l)
  | workerResponse w pack => exact absurd rfl (hRead w pack)
  | close cause w =>
      rcases Option.bind_eq_some_iff.mp hStep with
        ⟨worker, hWorker, hSome⟩
      cases hSome
      exact hKeeps (keeps_close hWorker)
  | run i assigned available =>
      rcases Option.bind_eq_some_iff.mp hStep with
        ⟨h, hHandler, hRun⟩
      cases h with
      | processJob job =>
          rcases Option.bind_eq_some_iff.mp hRun with
            ⟨pack, hJob, hSome⟩
          cases hSome
          apply hKeeps
          exact (keeps_eraseHandler hHandler rfl).trans
            (keeps_processJob hJob assigned available)
      | ack w pack =>
          cases hRun
          exact hKeeps (keeps_eraseHandler hHandler rfl)
      | response w pack =>
          rcases Option.bind_eq_some_iff.mp hRun with
            ⟨worker, hWorker, hSome⟩
          cases hSome
          change l.workers[w]? = some worker at hWorker
          have hTaken := taken_of_tidy hTidy hHandler
          unfold onWorkerResponse
          cases hFind : worker.find pack.header with
          | none =>
              have hBoth := tidy_response_unknown hTidy hTaken
                ⟨rfl, rfl, rfl⟩
                (by rw [find_eq_of_worker hWorker, hFind])
              exact ⟨hBoth.1, rfl, hBoth.2⟩
          | some found =>
              have hTaken' :
                  Taken l
                    (onCompletion found pack
                      { l with
                        posted := l.posted.eraseIdx i
                        workers := l.workers.set w
                          (worker.erase pack.header) })
                    w pack :=
                ⟨hTaken.mem, hTaken.fresh, hTaken.once⟩
              have hBoth := tidy_response_known hTidy hTaken'
                rfl hWorker rfl rfl hFind
              exact ⟨hBoth.1, rfl, hBoth.2⟩
      | complete job =>
          rcases Option.bind_eq_some_iff.mp hRun with
            ⟨pack, hJob, hSome⟩
          cases hSome
          have hErase := keeps_eraseHandler hHandler rfl
          apply hKeeps
          exact hErase.trans
            (keeps_complete (hErase.bounded hTidy.bounded) hJob)

end Launcher

----------
-- Opened Files In A Run
----------

def Routed.type : Routed → MsgT
| .answer type _ => type
| .forward type => type

theorem Routed.type_packet
    (pack : Packet)
    (routed : Routed) :
    (routed.packet pack).header.type = routed.type := by
  cases routed with
  | answer type data => cases type <;> rfl
  | forward type => rfl

/- No request is routed as a response. -/
theorem Locks.type_trigger_ne
    {l l' : Locks}
    {readsUnlock : Bool}
    {type : RequestType}
    {input : Jsre.Request}
    {routed : Routed}
    (h : l.trigger readsUnlock type input =
      some (routed, l')) :
    routed.type ≠ .openFileSuccess := by
  unfold Locks.trigger at h
  split at h
  · split at h
    all_goals
      cases h
      simp [Routed.type]
  · rename_i hFree
    simp only [Locks.startTriggerPost, if_neg hFree] at h
    cases type with
    | metadata op =>
        simp only [Locks.triggerMetadata] at h
        cases op with
        | renameSameproxy =>
            simp only at h
            split at h
            · cases h
              simp [Routed.type]
            · rcases Option.bind_eq_some_iff.mp h with
                ⟨info, _, hSome⟩
              cases hSome
              simp [Routed.type]
        | «open» | deletefile | close =>
            simp only at h
            split at h
            all_goals
              cases h
              simp [Routed.type]
        | _ =>
            cases h
            simp [Routed.type]
    | _ =>
        simp only at h
        split at h
        all_goals
          cases h
          simp [Routed.type]

namespace Launcher

theorem responses_schedule
    (pack : Packet)
    (l : Launcher) :
    (l.schedule pack).responses = l.responses := by
  simp [schedule, responses, post, Handler.response?]

theorem told_schedule
    (pack : Packet)
    (l : Launcher)
    (job : Nat) :
    (l.schedule pack).told job = l.told job := by
  have hFind : (l.schedule pack).find = l.find := rfl
  unfold told
  rw [responses_schedule, hFind]
  rfl

variable {l : Launcher}

theorem tidy_schedule
    {pack : Packet}
    (hTidy : l.Tidy)
    (hType : pack.header.type ≠ .openFileSuccess) :
    (l.schedule pack).Tidy := by
  have hLength :
      (l.schedule pack).jobs.length = l.jobs.length + 1 := by
    simp [schedule]
  refine ⟨?_, ?_, ?_⟩
  · constructor
    · intro other hMem
      rcases List.mem_append.mp hMem with hOld | hNew
      · exact hTidy.bounded.types other hOld
      · rw [List.mem_singleton] at hNew
        rw [hNew]
        exact hType
    · intro c hMem
      rw [hLength]
      exact Nat.lt_succ_of_lt (hTidy.bounded.completed c hMem)
    · intro worker hMem e hEntry
      rw [hLength]
      exact Nat.lt_succ_of_lt
        (hTidy.bounded.started worker hMem e hEntry)
  · intro r hMem hSuccess
    rw [responses_schedule] at hMem
    exact hTidy.registered r hMem hSuccess
  · rw [responses_schedule]
    exact hTidy.once

/- A job that has not been scheduled was told nothing. -/
theorem told_of_length_le
    (hTidy : l.Tidy)
    {job : Nat}
    (hNew : l.jobs.length ≤ job) :
    l.told job = false := by
  rw [Bool.eq_false_iff]
  intro hTold
  rcases told_iff.mp hTold with
    ⟨c, hMem, hJob, _⟩ | ⟨r, hMem, _, hFind⟩
  · have hLt := hTidy.bounded.completed c hMem
    omega
  · rcases Option.bind_eq_some_iff.mp hFind with
      ⟨worker, hWorker, hJob⟩
    rcases Worker.mem_of_find hJob with ⟨e, hEntry, hEq⟩
    have hLt := hTidy.bounded.started worker
      (List.mem_of_getElem? hWorker) e hEntry
    omega

end Launcher

namespace Node

open Locks (count)

/- The table counts the opens that succeeded, less closes. -/
structure Balanced (n : Node) (file : Uuid) : Prop where
  tidy : n.launcher.Tidy
  jobs : n.launcher.jobs.length = n.decided.length
  opened :
    count n.locks.openedFiles file + n.closings file =
      n.delivered file

/-
  A worker answers each of its jobs once, and says of a file
  that it is open only to a request that asked for it and has
  not been told so.
-/
def AnsweredOnce (n : Node) : Event → Prop
| .launcher (.workerResponse w pack) =>
    pack.header.type.isResponse = true →
      (∀ r ∈ n.launcher.responses,
        (r.1, r.2.header.fullKey) ≠
          (w, pack.header.fullKey)) ∧
      (pack.header.type = .openFileSuccess →
        (n.launcher.find w pack.header).any (fun job =>
          !n.launcher.told job &&
            (n.decided[job]?).any
              (Entry.forwardsOpen
                (Jsre.array 32 pack.data))) = true)
| _ => True

instance (n : Node) (e : Event) :
    Decidable (n.AnsweredOnce e) := by
  unfold AnsweredOnce
  split <;> infer_instance

theorem delivered_congr
    {n n' : Node}
    (hDecided : n'.decided = n.decided)
    (hTold : ∀ job, n'.launcher.told job = n.launcher.told job)
    (file : Uuid) :
    n'.delivered file = n.delivered file := by
  unfold delivered
  rw [hDecided]
  apply List.countP_congr
  intro job _
  simp only [opensFile, hDecided, hTold]

variable {pack : Packet}

/- The proxy tells of an open that it answers. -/
theorem balanced_trigger
    {n n' : Node}
    {readsUnlock : Bool}
    {file : Uuid}
    (hBalanced : n.Balanced file)
    (h : n.trigger pack readsUnlock = some n') :
    n'.Balanced file := by
  rcases Option.bind_eq_some_iff.mp h with
    ⟨⟨command, input⟩, _, hRest⟩
  rcases Option.bind_eq_some_iff.mp hRest with
    ⟨⟨routed, locks⟩, hTrigger, hSome⟩
  cases hSome
  have hCounted := (Locks.counted_trigger hTrigger file).opened
  have hOld := hBalanced.opened
  have hType :
      (routed.packet pack).header.type ≠ .openFileSuccess := by
    rw [Routed.type_packet]
    exact Locks.type_trigger_ne hTrigger
  -- the job of the request is new, so nobody told it anything
  have hNew :
      n.launcher.told n.decided.length = false :=
    Launcher.told_of_length_le hBalanced.tidy
      (Nat.le_of_eq hBalanced.jobs)
  refine
    { tidy := Launcher.tidy_schedule hBalanced.tidy hType
      jobs := ?_
      opened := ?_ }
  · simp [Launcher.schedule, hBalanced.jobs]
  · have hLast :
        ∀ (m : Node),
          m.decided = n.decided ++
            [.routed (requestType command) input routed] →
          (∀ job, m.launcher.told job = n.launcher.told job) →
          m.delivered file = n.delivered file +
            if (Entry.routed (requestType command) input
              routed).opens file then 1 else 0 := by
      intro m hDecided hTold
      have hRest :
          (List.range n.decided.length).countP
              (m.opensFile file) =
            (List.range n.decided.length).countP
              (n.opensFile file) := by
        apply List.countP_congr
        intro job hJob
        have hLt := List.mem_range.mp hJob
        simp only [opensFile, hDecided, hTold,
          List.getElem?_append_left hLt]
      unfold delivered
      rw [hDecided, List.length_append, List.length_singleton,
        List.range_succ, List.countP_append, hRest,
        List.countP_singleton]
      simp [opensFile, hDecided, hTold, hNew]
    rw [hLast _ rfl (Launcher.told_schedule _ _)]
    simp only [closings, List.countP_append,
      List.countP_singleton] at hOld ⊢
    omega

/- Reading a response appends it to those on their way. -/
theorem told_post
    (l : Launcher)
    (w : Nat)
    (pack : Packet)
    (job : Nat) :
    (l.post (.response w pack)).told job =
      (l.told job ||
        (decide (pack.header.type = .openFileSuccess) &&
          decide (l.find w pack.header = some job))) := by
  have hFind : (l.post (.response w pack)).find = l.find := rfl
  have hDone :
      (l.post (.response w pack)).completed = l.completed := rfl
  unfold Launcher.told
  rw [Launcher.responses_post, hFind, hDone]
  simp [Handler.response?, Bool.or_assoc]

theorem tidy_post
    {l : Launcher}
    {w : Nat}
    (hTidy : l.Tidy)
    (hOnce :
      ∀ r ∈ l.responses,
        (r.1, r.2.header.fullKey) ≠ (w, pack.header.fullKey))
    (hRegistered :
      pack.header.type = .openFileSuccess →
        ∃ job, l.find w pack.header = some job) :
    (l.post (.response w pack)).Tidy := by
  have hResponses := Launcher.responses_post (.response w pack) l
  rw [Handler.response?, Option.toList_some] at hResponses
  refine ⟨hTidy.bounded.congr rfl rfl rfl, ?_, ?_⟩
  · intro r hMem hType
    rw [hResponses] at hMem
    rcases List.mem_append.mp hMem with hOld | hNew
    · exact hTidy.registered r hOld hType
    · rw [List.mem_singleton] at hNew
      subst hNew
      exact hRegistered hType
  · rw [hResponses, List.map_append, List.map_singleton,
      List.nodup_append]
    refine ⟨hTidy.once, List.nodup_singleton _, ?_⟩
    intro a ha b hb hEq
    rcases List.mem_map.mp ha with ⟨r, hMem, hKey⟩
    rw [List.mem_singleton] at hb
    apply hOnce r hMem
    rw [hKey, hEq, hb]

end Node

theorem Entry.forwardsOpen_eq_true
    {file : Uuid}
    {e : Entry}
    (h : e.forwardsOpen file = true) :
    ∃ input type,
      e = .routed (.metadata .open) input (.forward type) ∧
      input.fileKey = file := by
  unfold Entry.forwardsOpen at h
  split at h
  · rename_i input type
    exact ⟨input, type, rfl, of_decide_eq_true h⟩
  · cases h

/- Only a success changes the table of opened files. -/
theorem Locks.opened_startReadBody
    {type : MsgT}
    (hType : type ≠ .openFileSuccess)
    (l : Locks)
    (endpoint : Vector UInt8 6)
    (data : Bytes) :
    (l.startReadBody endpoint type data).2.openedFiles =
      l.openedFiles := by
  cases type with
  | openFileSuccess => exact absurd rfl hType
  | openFileNotFound =>
      simp [Locks.startReadBody]
  | _ => rfl

namespace Node

open Locks (count)

variable {n n' : Node}

/- A success is told to the job that waits for it. -/
theorem delivered_gain
    {job : Nat}
    {e : Entry}
    {key : Uuid}
    (hDecided : n'.decided = n.decided)
    (hNow :
      ∀ i, n'.launcher.told i =
        (n.launcher.told i || decide (job = i)))
    (hTold : n.launcher.told job = false)
    (hEntry : n.decided[job]? = some e)
    (hOpen : e.forwardsOpen key = true)
    (file : Uuid) :
    n'.delivered file =
      n.delivered file + if key = file then 1 else 0 := by
  rcases Entry.forwardsOpen_eq_true hOpen with
    ⟨input, type, hRouted, hKey⟩
  subst hRouted
  have hLt : job < n.decided.length :=
    (List.getElem?_eq_some_iff.mp hEntry).1
  have hSame :
      ∀ i, i ≠ job →
        n'.opensFile file i = n.opensFile file i := by
    intro i hNe
    have hNe' : ¬ job = i := fun hEq => hNe hEq.symm
    simp [opensFile, hDecided, hNow, hNe']
  have hOld : n.opensFile file job = false := by
    simp [opensFile, hEntry, Entry.opens, hTold]
  have hGain : n'.opensFile file job = decide (key = file) := by
    simp [opensFile, hDecided, hEntry, Entry.opens,
      Entry.forwardsOpen, hNow, hKey]
  unfold delivered
  rw [hDecided, Table.countP_range_gain hLt hSame hOld, hGain]
  simp

/- A success is counted when it is read. -/
theorem balanced_read
    {w : Nat}
    {pack : Packet}
    {file : Uuid}
    (hBalanced : n.Balanced file)
    (hOnce :
      n.AnsweredOnce (.launcher (.workerResponse w pack)))
    (h : n.startRead w pack = some n') :
    n'.Balanced file := by
  rcases Option.bind_eq_some_iff.mp h with
    ⟨worker, _, hRest⟩
  by_cases hResponse : pack.header.type.isResponse = true
  · rw [if_pos hResponse] at hRest
    rcases hOnce hResponse with ⟨hFresh, hSuccess⟩
    have hEq := Option.some.inj hRest
    have hDecided : n'.decided = n.decided := by rw [← hEq]
    have hLocks :
        n'.locks =
          (n.locks.startReadBody worker.endpoint
            pack.header.type pack.data).2 := by
      rw [← hEq]
    have hTold :
        ∀ i, n'.launcher.told i =
          (n.launcher.told i ||
            (decide (pack.header.type = .openFileSuccess) &&
              decide
                (n.launcher.find w pack.header = some i))) := by
      intro i
      rw [← hEq]
      exact told_post n.launcher w _ i
    have hJobs :
        n'.launcher.jobs.length = n'.decided.length := by
      rw [← hEq]
      exact hBalanced.jobs
    have hTidy :
        (pack.header.type = .openFileSuccess →
          ∃ job, n.launcher.find w pack.header = some job) →
        n'.launcher.Tidy := by
      intro hRegistered
      rw [← hEq]
      exact tidy_post hBalanced.tidy hFresh hRegistered
    have hClosings : n'.closings file = n.closings file := by
      rw [closings, hDecided]
      rfl
    have hOld := hBalanced.opened
    by_cases hType : pack.header.type = .openFileSuccess
    · have hAny := hSuccess hType
      cases hFind : n.launcher.find w pack.header with
      | none => simp [hFind] at hAny
      | some job =>
          cases hEntry : n.decided[job]? with
          | none => simp [hFind, hEntry] at hAny
          | some e =>
              simp only [hFind, hEntry, Option.any_some,
                Bool.and_eq_true, Bool.not_eq_true'] at hAny
              have hGain := delivered_gain hDecided
                (by
                  intro i
                  rw [hTold]
                  simp [hType, hFind])
                hAny.1 hEntry hAny.2 file
              refine
                { tidy := hTidy (fun _ => ⟨job, hFind⟩)
                  jobs := hJobs
                  opened := ?_ }
              rw [hGain, hClosings, hLocks, hType]
              simp only [Locks.startReadBody,
                Locks.count_opened_of_success]
              omega
    · refine
        { tidy := hTidy (fun hSame => absurd hSame hType)
          jobs := hJobs
          opened := ?_ }
      rw [hClosings, hLocks, Locks.opened_startReadBody hType,
        delivered_congr hDecided (by simp [hTold, hType])]
      exact hOld
  · rw [if_neg hResponse] at hRest
    cases hRest
    exact hBalanced

/- Every step keeps the count of what was told. -/
theorem balanced_step
    {e : Event}
    {file : Uuid}
    (hBalanced : n.Balanced file)
    (hOnce : n.AnsweredOnce e)
    (hStep : n.step e = some n') :
    n'.Balanced file := by
  cases e with
  | trigger pack readsUnlock =>
      exact balanced_trigger hBalanced hStep
  | launcher e =>
      rcases launcher_cases hStep with
        ⟨w, pack, rfl, hRead⟩ |
        ⟨hSchedule, hRead, l, hNext, rfl⟩
      · exact balanced_read hBalanced hOnce hRead
      rcases Launcher.told_step hBalanced.tidy hSchedule hRead
          hNext with ⟨hTidy, hJobs, hTold⟩
      have hSame :
          ({ n with launcher := l } : Node).delivered file =
            n.delivered file := by
        apply delivered_congr
        · rfl
        · exact hTold
      refine
        { tidy := hTidy
          jobs := hJobs.trans hBalanced.jobs
          opened := ?_ }
      rw [hSame]
      exact hBalanced.opened

/-
  In every run in which each response is the only one to its
  job, a file is counted as often as opens of it succeeded,
  less the closes of it that were answered with OK. It is in
  the table until as many closes as opens have succeeded.
-/
theorem opened_eq_delivered
    (es : List Event)
    {n : Node}
    (hRun : run step start es = some n)
    (hOnce : Along step AnsweredOnce start es)
    (file : Uuid) :
    count n.locks.openedFiles file + n.closings file =
        n.delivered file ∧
      (n.locks.openedFiles.lookup file = none ↔
        n.delivered file = n.closings file) := by
  have hStart : start.Balanced file := by
    refine
      { tidy := ⟨⟨?_, ?_, ?_⟩, ?_, List.nodup_nil⟩
        jobs := rfl
        opened := rfl }
    all_goals
      intro x hMem
      cases hMem
  have hBalanced : n.Balanced file := by
    refine invariant_of_run
      (I := fun n => n.Balanced file) ?_ hStart hRun hOnce
    intro m e m' hInv hCond hStep
    exact balanced_step hInv hCond hStep
  have hOpened := hBalanced.opened
  refine ⟨hOpened, ?_⟩
  rw [← Locks.count_eq_zero_iff]
  omega

/- Requests to open and close a file, as a client sends. -/
def samplePacket (op : MetaOperation) (salt : UInt8) : Packet :=
  { header :=
      { type := .trigger
        key := Tables.sampleInput.uuid
        sequence := Vector.replicate 4 0
        randomSalt := Vector.replicate 4 salt }
    data :=
      [[1, op.code], List.replicate 44 0,
        Tables.sampleInput.fileKey.toList, [0, 0]].flatten }

/- The word of a worker on the request with this salt. -/
def sampleResponse (type : MsgT) (salt : UInt8) : Packet :=
  { header :=
      { (samplePacket .open salt).header with type := type }
    data := Tables.sampleInput.fileKey.toList }

def addSampleWorker : Event :=
  .launcher (.addWorker Launcher.sampleEndpoint)

def runHandler (i : Nat) (worker : Nat) : Event :=
  .launcher (.run i (some worker) none)

/- The file is opened twice and closed once. -/
def openedTwice : List Event :=
  [addSampleWorker,
    .trigger (samplePacket .open 1) false,
    runHandler 0 0,
    .launcher (.workerResponse 0
      (sampleResponse .openFileSuccess 1)),
    .trigger (samplePacket .open 2) false,
    runHandler 0 0,
    runHandler 0 0,
    .trigger (samplePacket .close 3) false]

/-
  A worker says that the file is open and is closed before
  this is looked at. The request is also handed to another
  worker, which says the same.
-/
def openedAgain : List Event :=
  [addSampleWorker,
    .trigger (samplePacket .open 1) false,
    runHandler 0 0,
    .launcher (.workerResponse 0
      (sampleResponse .openFileSuccess 1)),
    .launcher (.close .workerDereg 0),
    runHandler 0 0,
    addSampleWorker,
    runHandler 0 1,
    .launcher (.workerResponse 1
      (sampleResponse .openFileSuccess 1)),
    runHandler 0 1]

/- What the table and the clients say, and what is left. -/
def counts (es : List Event) :
    Option (Nat × Nat × Nat × List Handler) :=
  (run step start es).map (fun n =>
    (count n.locks.openedFiles Tables.sampleInput.fileKey,
      n.delivered Tables.sampleInput.fileKey,
      n.closings Tables.sampleInput.fileKey,
      n.launcher.posted))

theorem opened_eq_delivered_openedTwice :
    (counts openedTwice).map
        (fun c => (c.1, c.2.1, c.2.2.1)) = some (1, 2, 1) ∧
      ∃ n, run step start openedTwice = some n ∧
        count n.locks.openedFiles Tables.sampleInput.fileKey +
            n.closings Tables.sampleInput.fileKey =
          n.delivered Tables.sampleInput.fileKey := by
  have hCounts :
      (counts openedTwice).map
        (fun c => (c.1, c.2.1, c.2.2.1)) = some (1, 2, 1) := by
    decide +kernel
  rcases Option.map_eq_some_iff.mp hCounts with
    ⟨c, hSome, _⟩
  rcases Option.map_eq_some_iff.mp hSome with ⟨n, hRun, _⟩
  exact ⟨hCounts, n, hRun,
    (opened_eq_delivered openedTwice hRun
      (by decide +kernel) _).1⟩

/- One open, counted twice, with nothing left to do. -/
theorem opened_counted_twice :
    counts openedAgain = some (2, 1, 0, []) := by
  decide +kernel

end Node

end Proxy

end Slfs
