import Mathlib.Data.List.AList
import Mathlib.Data.Finset.Basic
import Slfs.Proxy.Jobs

/-
  Which worker a job is handed to.

  The proxy remembers for each key the worker of its jobs. A
  job whose key has no valid worker goes to the worker that
  the policy offers. The order of a walk through a hash map,
  and the choice between workers that are as good, are part of
  the step.

  Main declarations:
    * `Proxy.Dispatcher`
    * `Proxy.Dispatcher.dispatched_to_worker`
-/

----------
-- Counters Of The Active Policy
----------

namespace Slfs

open Transition

namespace Proxy

structure Counter where
  totalCounter : Int
  fileCounter : List (Uuid × Int)
deriving DecidableEq, Repr

structure Balancer where
  mostCountFile : Uuid
  workerFileMap : List (Nat × Counter)
  transfering : Finset Uuid

namespace Balancer

def start : Balancer :=
  { mostCountFile := Vector.replicate 32 0
    workerFileMap := []
    transfering := ∅ }

def setCounter
    (w : Nat)
    (info : Counter)
    (b : Balancer) : Balancer :=
  { b with
    workerFileMap :=
      b.workerFileMap.map (fun e =>
        if e.1 = w then (w, info) else e) }

/- The file of the first job of a worker is not counted. -/
def startedANewJob
    (w : Nat)
    (key : Uuid)
    (b : Balancer) : Balancer :=
  match b.workerFileMap.lookup w with
  | none =>
      { b with
        workerFileMap :=
          b.workerFileMap ++
            [(w, { totalCounter := 1, fileCounter := [] })] }
  | some info =>
      b.setCounter w
        { totalCounter := info.totalCounter + 1
          fileCounter :=
            match info.fileCounter.lookup key with
            | none => info.fileCounter ++ [(key, 1)]
            | some _ =>
                info.fileCounter.map (fun e =>
                  if e.1 = key then (key, e.2 + 1) else e) }

/- The count of a file at a worker, before a job finishes. -/
def fileCount
    (w : Nat)
    (key : Uuid)
    (b : Balancer) : Option Int :=
  (b.workerFileMap.lookup w).bind
    (fun info => info.fileCounter.lookup key)

/- Whether a file has no job left, by the counters. -/
def finishes (w : Nat) (key : Uuid) (b : Balancer) : Bool :=
  b.fileCount w key = some 1

def finishedAJob
    (w : Nat)
    (key : Uuid)
    (b : Balancer) : Balancer :=
  let b' :=
    match b.workerFileMap.lookup w with
    | none => b
    | some info =>
        b.setCounter w
          { info with
            fileCounter :=
              info.fileCounter.map
                (fun (e : Uuid × Int) =>
                  if e.1 = key then (key, e.2 - 1) else e) }
  { b' with
    transfering :=
      if b.finishes w key then b.transfering.erase key
      else b.transfering }

/- The busiest file of a worker, from the walk over it. -/
def busiestFile
    (info : Counter)
    (walk : List Uuid)
    (most : Uuid) : Uuid :=
  (walk.foldl (fun (best : Int × Uuid) key =>
    match info.fileCounter.lookup key with
    | none => best
    | some count =>
        if count > best.1 then (count, key) else best)
    (-1, most)).2

/- The walk over the workers, busiest one last. -/
def walkWorkers
    (b : Balancer)
    (walk : List (Nat × List Uuid)) : Int × Uuid :=
  walk.foldl (fun best e =>
    match b.workerFileMap.lookup e.1 with
    | none => best
    | some info =>
        if info.totalCounter > best.1 ∧
            info.fileCounter.length > 1 then
          (info.totalCounter, busiestFile info e.2 best.2)
        else best)
    (-1, b.mostCountFile)

/- A walk meets every worker and every file once. -/
def IsWalk
    (b : Balancer)
    (walk : List (Nat × List Uuid)) : Prop :=
  (walk.map Prod.fst).Perm (b.workerFileMap.map Prod.fst) ∧
    ∀ e ∈ walk, ∀ info ∈ b.workerFileMap.lookup e.1,
      e.2.Perm (info.fileCounter.map Prod.fst)

instance (b : Balancer) (walk : List (Nat × List Uuid)) :
    Decidable (b.IsWalk walk) := by
  unfold IsWalk
  infer_instance

/- Choose the busiest file, and count from zero again. -/
def execute
    (walk : List (Nat × List Uuid))
    (b : Balancer) : Balancer :=
  { b with
    mostCountFile := (b.walkWorkers walk).2
    workerFileMap :=
      b.workerFileMap.map (fun e =>
        (e.1,
          { totalCounter := 0
            fileCounter :=
              e.2.fileCounter.map (fun f => (f.1, 0)) })) }

def startTransfer
    (walk : List (Nat × List Uuid))
    (b : Balancer) : Balancer :=
  execute walk
    { b with
      transfering := insert b.mostCountFile b.transfering }

end Balancer

----------
-- Dispatching Jobs
----------

inductive Policy where
| lowestLoad
| randomAssign
| activeLowestLoad
deriving DecidableEq, Repr

/- What the policy has yet to be told. -/
inductive Notice where
| started (worker : Nat) (key : Uuid)
| finished (worker : Nat) (key : Uuid)
| execute
deriving DecidableEq, Repr

/-
  The launcher with its policy: the worker of each key, the
  workers that are registered, the keys of caches that wait
  for a new worker, and the worker that a job answered by
  the proxy was given to.
-/
structure Dispatcher where
  policy : Policy
  launcher : Launcher
  fileidToWorker : AList (fun _ : Uuid => Nat)
  workerSet : List Nat
  transferRequests : List (List Uuid)
  balancer : Balancer
  answering : List (Nat × Nat)
  notices : List Notice

namespace Dispatcher

def start (policy : Policy) : Dispatcher :=
  { policy := policy
    launcher := .start
    fileidToWorker := ∅
    workerSet := []
    transferRequests := []
    balancer := .start
    answering := []
    notices := [] }

def getAssignedWorker
    (d : Dispatcher)
    (key : Uuid) : Option Nat :=
  if d.policy = .activeLowestLoad ∧
      key ∈ d.balancer.transfering then none
  else d.fileidToWorker.lookup key

def isValid (d : Dispatcher) (w : Nat) : Bool :=
  (d.launcher.workers[w]?).any Worker.valid

def pendingJobs (d : Dispatcher) (w : Nat) : Nat :=
  ((d.launcher.workers[w]?).map
    (fun worker => worker.startedJobs.length)).getD 0

/-
  What `get_available_worker` can return. If no registered
  worker is valid, then `random_assign` does not return.
-/
def Available (d : Dispatcher) (pick : Option Nat) : Prop :=
  match d.policy, pick with
  | .randomAssign, none => d.workerSet = []
  | .randomAssign, some w =>
      w ∈ d.workerSet ∧ d.isValid w = true
  | _, none => ∀ v ∈ d.workerSet, d.isValid v = false
  | _, some w =>
      w ∈ d.workerSet ∧ d.isValid w = true ∧
        ∀ v ∈ d.workerSet, d.isValid v = true →
          d.pendingJobs w ≤ d.pendingJobs v

instance (d : Dispatcher) (pick : Option Nat) :
    Decidable (d.Available pick) := by
  unfold Available
  split <;> infer_instance

def isAssigned (d : Dispatcher) (key : Uuid) : Bool :=
  (d.launcher.validWorker (d.getAssignedWorker key)).isSome

/- The worker that a job of a key is handed to. -/
def target
    (d : Dispatcher)
    (pick : Option Nat)
    (key : Uuid) : Option Nat :=
  match d.launcher.validWorker (d.getAssignedWorker key) with
  | some (w, _) => some w
  | none => (d.launcher.validWorker pick).map Prod.fst

/- What processing a job does besides handing it over. -/
def noteProcessed
    (pick : Option Nat)
    (job : Nat)
    (pack : Packet)
    (d : Dispatcher) : Dispatcher :=
  match d.target pick pack.header.key with
  | none => d
  | some w =>
      { d with
        fileidToWorker :=
          if d.isAssigned pack.header.key then d.fileidToWorker
          else emplace pack.header.key w d.fileidToWorker
        answering := d.answering ++ [(job, w)]
        notices :=
          d.notices ++ [.started w pack.header.key] }

/- A handler of the launcher, with what it tells the policy. -/
def runHandler
    (pick : Option Nat)
    (d : Dispatcher) :
    Handler → Option (Option Nat × Dispatcher)
| .processJob job => do
    let pack ← d.launcher.jobs[job]?
    if d.isAssigned pack.header.key ∨ d.Available pick then
      some (d.getAssignedWorker pack.header.key,
        d.noteProcessed pick job pack)
    else none
| .ack _ _ => some (none, d)
| .response w pack => do
    let worker ← d.launcher.workers[w]?
    if (worker.find pack.header).isSome then
      some (none,
        { d with
          notices :=
            d.notices ++ [.finished w pack.header.key] })
    else some (none, d)
| .complete job => do
    let pack ← d.launcher.jobs[job]?
    let w ← d.answering.lookup job
    some (none,
      { d with
        notices :=
          d.notices ++ [.finished w pack.header.key] })

def runNotice
    (walk : List (Nat × List Uuid))
    (d : Dispatcher) : Notice → Option Dispatcher
| .started w key =>
    some { d with balancer := d.balancer.startedANewJob w key }
| .finished w key =>
    some
      { d with
        fileidToWorker :=
          if d.balancer.finishes w key then
            d.fileidToWorker.erase key
          else d.fileidToWorker
        balancer := d.balancer.finishedAJob w key }
| .execute =>
    if d.balancer.IsWalk walk then
      some { d with balancer := d.balancer.execute walk }
    else none

/- The jobs of a closed worker lose their entries. -/
def close
    (w : Nat)
    (worker : Worker)
    (bindings : List (List Uuid))
    (d : Dispatcher) : Dispatcher :=
  { d with
    launcher := d.launcher.close w worker
    fileidToWorker :=
      worker.startedJobs.foldl
        (fun m e => m.erase e.1.1) d.fileidToWorker
    workerSet := d.workerSet.erase w
    transferRequests := d.transferRequests ++ bindings }

/-
  A new worker takes the oldest cache that waits for one,
  and its keys unless they have a worker.
-/
def addWorker
    (endpoint : Vector UInt8 6)
    (d : Dispatcher) : Dispatcher :=
  let w := d.launcher.workers.length
  { d with
    launcher := d.launcher.addWorker endpoint
    workerSet := d.workerSet ++ [w]
    fileidToWorker :=
      (d.transferRequests.headD []).foldl
        (fun m key => emplace key w m) d.fileidToWorker
    transferRequests := d.transferRequests.tail }

inductive Event where
| addWorker (endpoint : Vector UInt8 6)
| schedule (pack : Packet)
| workerAck (worker : Nat) (pack : Packet)
| workerResponse (worker : Nat) (pack : Packet)
| close (cause : CloseCause) (worker : Nat)
    (bindings : List Uuid)
| run (handler : Nat) (pick : Option Nat)
| execute
| notice (i : Nat) (walk : List (Nat × List Uuid))
| startTransfer (walk : List (Nat × List Uuid))
deriving DecidableEq, Repr

/- Only the active policy listens to notices. -/
def listens (d : Dispatcher) : Bool :=
  d.policy = .activeLowestLoad

def step (d : Dispatcher) : Event → Option Dispatcher
| .addWorker endpoint => some (d.addWorker endpoint)
| .schedule pack =>
    some { d with launcher := d.launcher.schedule pack }
| .workerAck w pack => do
    let launcher ← d.launcher.step (.workerAck w pack)
    some { d with launcher := launcher }
| .workerResponse w pack => do
    let launcher ← d.launcher.step (.workerResponse w pack)
    some { d with launcher := launcher }
| .close cause w bindings => do
    let worker ← d.launcher.workers[w]?
    some (d.close w worker
      (if cause = .workerDereg then [bindings] else []))
| .run i pick => do
    let h ← d.launcher.posted[i]?
    let (assigned, d') ← d.runHandler pick h
    let launcher ← d.launcher.step (.run i assigned pick)
    some { d' with launcher := launcher }
| .execute =>
    some { d with notices := d.notices ++ [.execute] }
| .notice i walk => do
    let notice ← d.notices[i]?
    let d' := { d with notices := d.notices.eraseIdx i }
    if d.listens then d'.runNotice walk notice else some d'
| .startTransfer walk =>
    if d.listens then
      if Balancer.IsWalk d.balancer walk then
        some
          { d with
            balancer := d.balancer.startTransfer walk }
      else none
    else some d

/- With the policy added, the launcher does what it did. -/
theorem launcher_step
    {d d' : Dispatcher}
    {e : Event}
    (hStep : d.step e = some d') :
    d'.launcher = d.launcher ∨
      ∃ f, d.launcher.step f = some d'.launcher := by
  cases e with
  | addWorker endpoint =>
      cases hStep
      exact Or.inr ⟨.addWorker endpoint, rfl⟩
  | schedule pack =>
      cases hStep
      exact Or.inr ⟨.schedule pack, rfl⟩
  | workerAck w pack | workerResponse w pack =>
      rcases Option.bind_eq_some_iff.mp hStep with
        ⟨launcher, hLauncher, hSome⟩
      cases hSome
      exact Or.inr ⟨_, hLauncher⟩
  | close cause w bindings =>
      rcases Option.bind_eq_some_iff.mp hStep with
        ⟨worker, hWorker, hSome⟩
      cases hSome
      refine Or.inr ⟨.close cause w, ?_⟩
      exact Option.bind_eq_some_iff.mpr ⟨worker, hWorker, rfl⟩
  | run i pick =>
      rcases Option.bind_eq_some_iff.mp hStep with
        ⟨h, _, hRest⟩
      rcases Option.bind_eq_some_iff.mp hRest with
        ⟨⟨assigned, m⟩, _, hRest⟩
      rcases Option.bind_eq_some_iff.mp hRest with
        ⟨launcher, hLauncher, hSome⟩
      cases hSome
      exact Or.inr ⟨_, hLauncher⟩
  | execute =>
      cases hStep
      exact Or.inl rfl
  | notice i walk =>
      rcases Option.bind_eq_some_iff.mp hStep with
        ⟨notice, _, hRest⟩
      simp only at hRest
      split at hRest
      · cases notice with
        | started w key | finished w key =>
            cases hRest
            exact Or.inl rfl
        | execute =>
            simp only [runNotice] at hRest
            split at hRest <;> cases hRest
            exact Or.inl rfl
      · cases hRest
        exact Or.inl rfl
  | startTransfer walk =>
      simp only [step] at hStep
      split at hStep
      · split at hStep <;> cases hStep
        exact Or.inl rfl
      · cases hStep
        exact Or.inl rfl

end Dispatcher

----------
-- Outstanding Jobs
----------

def Worker.Holds (worker : Worker) (key : Uuid) : Prop :=
  ∃ e ∈ worker.startedJobs, e.1.1 = key

instance (worker : Worker) (key : Uuid) :
    Decidable (worker.Holds key) := by
  unfold Worker.Holds
  infer_instance

namespace Launcher

/- A worker that is still valid has a job of the key. -/
def Outstanding
    (l : Launcher)
    (key : Uuid)
    (w : Nat) : Prop :=
  ∃ worker ∈ l.workers[w]?,
    worker.valid = true ∧ worker.Holds key

/- No valid worker has a job of the key. -/
def Idle (l : Launcher) (key : Uuid) : Prop :=
  ∀ worker ∈ l.workers,
    worker.valid = true → ¬ worker.Holds key

instance (l : Launcher) (key : Uuid) :
    Decidable (l.Idle key) := by
  unfold Idle
  infer_instance

variable {l l' : Launcher} {w v : Nat} {worker : Worker}
variable {pack : Packet} {key : Uuid}

theorem not_outstanding_of_idle
    (hIdle : l.Idle key)
    (w : Nat) :
    ¬ l.Outstanding key w := by
  rintro ⟨worker, hWorker, hValid, hHolds⟩
  exact hIdle worker (List.mem_of_getElem? hWorker)
    hValid hHolds

theorem outstanding_congr
    (hWorkers : l'.workers = l.workers)
    (key : Uuid)
    (w : Nat) :
    l'.Outstanding key w ↔ l.Outstanding key w := by
  unfold Outstanding
  rw [hWorkers]

/- Only the worker that has changed is to be looked at. -/
theorem outstanding_setWorker
    (hWorkers : l'.workers = l.workers.set w worker)
    (hOut : l'.Outstanding key v) :
    (v = w ∧ worker.valid = true ∧ worker.Holds key) ∨
      (v ≠ w ∧ l.Outstanding key v) := by
  rcases hOut with ⟨found, hFound, hValid, hHolds⟩
  rw [hWorkers, Option.mem_def] at hFound
  by_cases hEq : w = v
  · subst hEq
    rw [List.getElem?_set_self'] at hFound
    rcases Option.map_eq_some_iff.mp hFound with ⟨_, _, hSame⟩
    subst hSame
    exact Or.inl ⟨rfl, hValid, hHolds⟩
  · rw [List.getElem?_set_ne hEq] at hFound
    exact Or.inr
      ⟨fun h => hEq h.symm, found, hFound, hValid, hHolds⟩

theorem outstanding_addWorker
    {endpoint : Vector UInt8 6}
    (hOut : (l.addWorker endpoint).Outstanding key w) :
    l.Outstanding key w := by
  rcases hOut with ⟨worker, hWorker, hValid, e, hMem, hKey⟩
  simp only [addWorker, Option.mem_def,
    List.getElem?_append] at hWorker
  split at hWorker
  · exact ⟨worker, hWorker, hValid, e, hMem, hKey⟩
  · have hNew := List.mem_of_getElem? hWorker
    rw [List.mem_singleton] at hNew
    subst hNew
    cases hMem

/- A closed worker keeps its table, but is not valid. -/
@[simp] theorem workers_close
    (w : Nat)
    (worker : Worker)
    (l : Launcher) :
    (l.close w worker).workers =
      l.workers.set w { worker with valid := false } := by
  have hFold :
      ∀ (entries : List (FullKey × Nat)) (m : Launcher),
        (entries.foldl
          (fun m e => m.reschedule e.2) m).workers =
          m.workers := by
    intro entries
    induction entries with
    | nil => exact fun m => rfl
    | cons e entries ih =>
        intro m
        rw [List.foldl_cons, ih]
        rfl
  exact hFold _ _

/- Only the closed worker loses its jobs. -/
theorem outstanding_close
    (hOut : (l.close w worker).Outstanding key v) :
    v ≠ w ∧ l.Outstanding key v := by
  rcases outstanding_setWorker (workers_close w worker l) hOut
    with ⟨_, hValid, _⟩ | hOther
  · cases hValid
  · exact hOther

/- A job handed to a worker is the only new one. -/
theorem outstanding_startWrite
    (hWorker : l.workers[w]? = some worker)
    {job : Nat}
    (hOut :
      (l.startWrite w worker job pack).Outstanding key v) :
    (v = w ∧ key = pack.header.key) ∨
      l.Outstanding key v := by
  have hAdded :
      ∀ {l' : Launcher},
        l'.workers =
          l.workers.set w (worker.emplace pack.header job) →
        l'.Outstanding key v →
        (v = w ∧ key = pack.header.key) ∨
          l.Outstanding key v := by
    intro l' hWorkers hOut
    rcases outstanding_setWorker hWorkers hOut with
      ⟨hEq, hValid, e, hMem, hKey⟩ | ⟨_, hOld⟩
    · rcases Worker.mem_emplace hMem with hOld | hNew
      · refine Or.inr ⟨worker, ?_, ?_, e, hOld, hKey⟩
        · rw [hEq]
          exact hWorker
        · unfold Worker.emplace at hValid
          split at hValid <;> exact hValid
      · rw [hNew] at hKey
        exact Or.inl ⟨hEq, hKey.symm⟩
    · exact Or.inr hOld
  unfold startWrite at hOut
  split at hOut
  · exact Or.inr hOut
  · exact Or.inr hOut
  · exact Or.inr hOut
  · exact hAdded rfl hOut

/- A response takes jobs away and adds none. -/
theorem outstanding_onWorkerResponse
    (hWorker : l.workers[w]? = some worker)
    (hOut :
      (l.onWorkerResponse w worker pack).Outstanding key v) :
    l.Outstanding key v := by
  unfold onWorkerResponse at hOut
  split at hOut
  · exact hOut
  · rename_i job hFind
    have hWorkers :
        (onCompletion job pack
          { l with
            workers :=
              l.workers.set w
                (worker.erase pack.header) }).workers =
          l.workers.set w (worker.erase pack.header) := rfl
    rcases outstanding_setWorker hWorkers hOut with
      ⟨hEq, hValid, e, hMem, hKey⟩ | ⟨_, hOld⟩
    · rw [hEq]
      exact ⟨worker, hWorker, hValid, e,
        List.mem_of_mem_eraseP hMem, hKey⟩
    · exact hOld

/- Only processing a job can add an outstanding one. -/
theorem outstanding_runHandler
    {assigned available : Option Nat}
    {h : Handler}
    (hOther : ∀ job, h ≠ .processJob job)
    (hRun : l.runHandler assigned available h = some l')
    (hOut : l'.Outstanding key v) :
    l.Outstanding key v := by
  cases h with
  | processJob job => exact absurd rfl (hOther job)
  | ack w pack =>
      cases hRun
      exact hOut
  | response w pack =>
      rcases Option.bind_eq_some_iff.mp hRun with
        ⟨worker, hWorker, hSome⟩
      cases hSome
      exact outstanding_onWorkerResponse hWorker hOut
  | complete job =>
      rcases Option.bind_eq_some_iff.mp hRun with
        ⟨pack, _, hSome⟩
      cases hSome
      exact hOut

end Launcher

----------
-- Settled Keys
----------

namespace Dispatcher

/- The worker of an outstanding job is the assigned one. -/
def Settled (d : Dispatcher) : Prop :=
  ∀ key w, d.launcher.Outstanding key w →
    d.getAssignedWorker key = some w

/- A key that no job has been handed out for. -/
def Unassigned (d : Dispatcher) (key : Uuid) : Prop :=
  d.fileidToWorker.lookup key = none ∧
    (d.policy = .activeLowestLoad →
      key ∉ d.balancer.transfering)

/-
  A worker is closed again only when it holds no job. A job
  whose key has no valid worker is processed only when the
  key has no entry and is not being transferred. The active
  policy forgets the worker of a key, and starts to transfer
  a file, only when no valid worker has a job of it.
-/
def Steady (d : Dispatcher) : Event → Prop
| .close _ w _ =>
    ∀ worker ∈ d.launcher.workers[w]?,
      worker.valid = true ∨ worker.startedJobs = []
| .run i _ =>
    match d.launcher.posted[i]? with
    | some (.processJob job) =>
        ∀ pack ∈ d.launcher.jobs[job]?,
          d.isAssigned pack.header.key = true ∨
            d.Unassigned pack.header.key
    | _ => True
| .notice i _ =>
    match d.notices[i]? with
    | some (.finished w key) =>
        d.listens = true → d.balancer.finishes w key = true →
          d.launcher.Idle key
    | _ => True
| .startTransfer _ =>
    d.listens = true →
      d.launcher.Idle d.balancer.mostCountFile
| _ => True

instance (d : Dispatcher) (key : Uuid) :
    Decidable (d.Unassigned key) := by
  unfold Unassigned
  infer_instance

instance (d : Dispatcher) (e : Event) :
    Decidable (d.Steady e) := by
  unfold Steady
  split <;> try infer_instance
  all_goals split <;> infer_instance

theorem settled_start (policy : Policy) :
    (start policy).Settled := by
  rintro key w ⟨worker, hWorker, _⟩
  cases hWorker

variable {d : Dispatcher} {w : Nat} {key : Uuid}

/- A file that is transferred has no worker. -/
theorem getAssignedWorker_eq_some :
    d.getAssignedWorker key = some w ↔
      d.fileidToWorker.lookup key = some w ∧
        (d.policy = .activeLowestLoad →
          key ∉ d.balancer.transfering) := by
  unfold getAssignedWorker
  by_cases hTransfer :
      d.policy = .activeLowestLoad ∧
        key ∈ d.balancer.transfering
  · rw [if_pos hTransfer]
    constructor
    · intro h
      cases h
    · rintro ⟨_, hNot⟩
      exact absurd hTransfer.2 (hNot hTransfer.1)
  · rw [if_neg hTransfer]
    constructor
    · intro h
      exact ⟨h, fun hActive hMem => hTransfer ⟨hActive, hMem⟩⟩
    · exact fun h => h.1

/-
  A step that adds no outstanding job has to keep the
  entries of those that are left.
-/
theorem settled_of_subset
    {d' : Dispatcher}
    (hSettled : d.Settled)
    (hOut :
      ∀ key w, d'.launcher.Outstanding key w →
        d.launcher.Outstanding key w)
    (hKept :
      ∀ key w, d'.launcher.Outstanding key w →
        d.getAssignedWorker key = some w →
        d'.getAssignedWorker key = some w) :
    d'.Settled := by
  intro key w hNow
  apply hKept key w hNow
  exact hSettled key w (hOut key w hNow)

/- Keys that have a worker keep it. -/
theorem lookup_foldl_emplace
    (keys : List Uuid)
    (w : Nat)
    (m : AList (fun _ : Uuid => Nat))
    {v : Nat}
    (hFind : m.lookup key = some v) :
    (keys.foldl (fun m key => emplace key w m) m).lookup key =
      some v := by
  induction keys generalizing m with
  | nil => exact hFind
  | cons k keys ih =>
      apply ih
      rw [lookup_emplace]
      by_cases hEq : key = k
      · subst hEq
        rw [if_pos rfl, hFind, Option.getD_some]
      · rw [if_neg hEq, hFind]

/- A new worker takes no key from another one. -/
theorem settled_addWorker
    (hSettled : d.Settled)
    (endpoint : Vector UInt8 6) :
    (d.addWorker endpoint).Settled := by
  apply settled_of_subset hSettled
  · intro key w hOut
    exact Launcher.outstanding_addWorker hOut
  · intro key w _ hAssigned
    rw [getAssignedWorker_eq_some] at hAssigned ⊢
    exact ⟨lookup_foldl_emplace _ _ _ hAssigned.1,
      hAssigned.2⟩

theorem lookup_foldl_erase
    (entries : List (FullKey × Nat))
    (m : AList (fun _ : Uuid => Nat))
    (hFree : ∀ e ∈ entries, e.1.1 ≠ key) :
    (entries.foldl (fun m e => m.erase e.1.1) m).lookup key =
      m.lookup key := by
  induction entries generalizing m with
  | nil => rfl
  | cons e entries ih =>
      rw [List.foldl_cons,
        ih _ (fun f hMem => hFree f (List.mem_cons_of_mem e hMem))]
      have hNe := hFree e List.mem_cons_self
      exact AList.lookup_erase_ne hNe.symm

/- The keys of a closed worker have jobs nowhere else. -/
theorem settled_close
    (hSettled : d.Settled)
    {worker : Worker}
    (hWorker : d.launcher.workers[w]? = some worker)
    (hOnce :
      worker.valid = true ∨ worker.startedJobs = [])
    (bindings : List (List Uuid)) :
    (d.close w worker bindings).Settled := by
  apply settled_of_subset hSettled
  · intro key v hOut
    exact (Launcher.outstanding_close hOut).2
  · intro key v hOut hAssigned
    have hNe := (Launcher.outstanding_close hOut).1
    -- a key of the closed worker was assigned to it
    have hFree : ∀ e ∈ worker.startedJobs, e.1.1 ≠ key := by
      intro e hMem hKey
      rcases hOnce with hValid | hEmpty
      · have hHeld :=
          hSettled key w ⟨worker, hWorker, hValid, e, hMem, hKey⟩
        rw [hAssigned] at hHeld
        exact hNe (Option.some.inj hHeld)
      · rw [hEmpty] at hMem
        cases hMem
    rw [getAssignedWorker_eq_some] at hAssigned ⊢
    refine ⟨?_, hAssigned.2⟩
    exact (lookup_foldl_erase _ _ hFree).trans hAssigned.1

theorem settled_of_workers
    {d' : Dispatcher}
    (hSettled : d.Settled)
    (hWorkers : d'.launcher.workers = d.launcher.workers)
    (hAssigned :
      ∀ key w, d.launcher.Outstanding key w →
        d.getAssignedWorker key = some w →
        d'.getAssignedWorker key = some w) :
    d'.Settled := by
  have hSame := Launcher.outstanding_congr hWorkers
  apply settled_of_subset hSettled
  · exact fun key w hOut => (hSame key w).mp hOut
  · exact fun key w hOut => hAssigned key w ((hSame key w).mp hOut)

end Dispatcher

----------
-- Processing A Job
----------

namespace Launcher

variable {l : Launcher}
variable {assigned available : Option Nat} {w : Nat}
variable {worker : Worker}

theorem processJob_of_assigned
    (hValid : l.validWorker assigned = some (w, worker))
    (job : Nat)
    (pack : Packet)
    (posted : List Handler) :
    Launcher.processJob assigned available job pack
        { l with posted := posted } =
      Launcher.startWrite w worker job pack
        { l with posted := posted } := by
  unfold validWorker at hValid
  simp only [processJob, validWorker, hValid]

theorem processJob_of_available
    (hNone : l.validWorker assigned = none)
    (hValid : l.validWorker available = some (w, worker))
    (job : Nat)
    (pack : Packet)
    (posted : List Handler) :
    Launcher.processJob assigned available job pack
        { l with posted := posted } =
      Launcher.startWrite w worker job pack
        { l with posted := posted } := by
  unfold validWorker at hNone hValid
  simp only [processJob, validWorker, hNone, hValid]

theorem workers_processJob_of_none
    (hNone : l.validWorker assigned = none)
    (hOffer : l.validWorker available = none)
    (job : Nat)
    (pack : Packet)
    (posted : List Handler) :
    (Launcher.processJob assigned available job pack
        { l with posted := posted }).workers =
      l.workers := by
  unfold validWorker at hNone hOffer
  simp only [processJob, validWorker, hNone, hOffer]
  rfl

end Launcher

namespace Dispatcher

/- The job is written to the worker. -/
def HandedTo
    (d d' : Dispatcher)
    (i job : Nat)
    (pack : Packet)
    (w : Nat) : Prop :=
  ∃ worker,
    d.launcher.workers[w]? = some worker ∧
      d'.launcher =
        Launcher.startWrite w worker job pack
          { d.launcher with
            posted := d.launcher.posted.eraseIdx i }

variable {d d' : Dispatcher} {i job w : Nat}
variable {pack : Packet} {pick : Option Nat}
variable {h : Handler}

/- Handing out a job adds it to one worker. -/
theorem outstanding_handedTo
    (hHanded : HandedTo d d' i job pack w)
    {key : Uuid}
    {v : Nat}
    (hOut : d'.launcher.Outstanding key v) :
    (v = w ∧ key = pack.header.key) ∨
      d.launcher.Outstanding key v := by
  rcases hHanded with ⟨worker, hWorker, hNext⟩
  rw [hNext] at hOut
  exact Launcher.outstanding_startWrite
    (l :=
      { d.launcher with
        posted := d.launcher.posted.eraseIdx i })
    hWorker hOut

/-
  A job goes to the assigned worker if that is valid, else
  to the one offered, and else it is processed again later.
-/
theorem step_processJob
    (hHandler :
      d.launcher.posted[i]? = some (.processJob job))
    (hPack : d.launcher.jobs[job]? = some pack)
    (hStep : d.step (.run i pick) = some d') :
    (∃ w,
      d.getAssignedWorker pack.header.key = some w ∧
        HandedTo d d' i job pack w ∧
        d'.policy = d.policy ∧ d'.balancer = d.balancer ∧
        d'.fileidToWorker = d.fileidToWorker) ∨
      (d.isAssigned pack.header.key = false ∧
        d'.policy = d.policy ∧ d'.balancer = d.balancer ∧
        ((∃ w,
          HandedTo d d' i job pack w ∧
            d'.fileidToWorker =
              emplace pack.header.key w d.fileidToWorker) ∨
          (d'.launcher.workers = d.launcher.workers ∧
            d'.fileidToWorker = d.fileidToWorker))) := by
  simp only [step, runHandler, hHandler, hPack,
    Option.bind_eq_bind, Option.bind_some, Launcher.step,
    Launcher.runHandler] at hStep
  split at hStep
  · simp only [Option.bind_some, Option.some.injEq] at hStep
    subst hStep
    cases hValid :
        d.launcher.validWorker
          (d.getAssignedWorker pack.header.key) with
    | some found =>
        rcases found with ⟨w, worker⟩
        have hFound := Launcher.validWorker_iff.mp hValid
        have hTarget :
            d.target pick pack.header.key = some w := by
          simp [target, hValid]
        refine Or.inl ⟨w, hFound.1, ⟨worker, hFound.2.1, ?_⟩, ?_⟩
        · exact Launcher.processJob_of_assigned hValid job pack
            (d.launcher.posted.eraseIdx i)
        · simp [noteProcessed, hTarget, isAssigned, hValid]
    | none =>
        refine Or.inr ⟨by simp [isAssigned, hValid], ?_⟩
        cases hPick : d.launcher.validWorker pick with
        | some found =>
            rcases found with ⟨w, worker⟩
            have hFound := Launcher.validWorker_iff.mp hPick
            have hTarget :
                d.target pick pack.header.key = some w := by
              simp [target, hValid, hPick]
            have hHanded :=
              Launcher.processJob_of_available hValid hPick
                job pack (d.launcher.posted.eraseIdx i)
            simp only [noteProcessed, hTarget, isAssigned,
              hValid, Option.isSome_none, true_and]
            exact Or.inl
              ⟨w, ⟨worker, hFound.2.1, hHanded⟩, rfl⟩
        | none =>
            have hTarget :
                d.target pick pack.header.key = none := by
              simp [target, hValid, hPick]
            have hKept :=
              Launcher.workers_processJob_of_none hValid hPick
                job pack (d.launcher.posted.eraseIdx i)
            simp only [noteProcessed, hTarget, true_and]
            exact Or.inr ⟨hKept, trivial⟩
  · cases hStep

/- The key has this worker already, or gets it. -/
theorem settled_processJob
    (hSettled : d.Settled)
    (hHandler :
      d.launcher.posted[i]? = some (.processJob job))
    (hPack : d.launcher.jobs[job]? = some pack)
    (hSteady :
      d.isAssigned pack.header.key = true ∨
        d.Unassigned pack.header.key)
    (hStep : d.step (.run i pick) = some d') :
    d'.Settled := by
  rcases step_processJob hHandler hPack hStep with
    ⟨w, hAssigned, hHanded, hPolicy, hBalancer, hTable⟩ |
      ⟨hNone, hPolicy, hBalancer, hNext⟩
  · intro key v hOut
    unfold getAssignedWorker
    rw [hPolicy, hBalancer, hTable]
    rcases outstanding_handedTo hHanded hOut with
      ⟨hWorker, hKey⟩ | hOld
    · rw [hWorker, hKey]
      exact hAssigned
    · exact hSettled key v hOld
  · have hFree : d.Unassigned pack.header.key := by
      rcases hSteady with hAssigned | hFree
      · rw [hNone] at hAssigned
        cases hAssigned
      · exact hFree
    rcases hNext with ⟨w, hHanded, hTable⟩ | ⟨hWorkers, hTable⟩
    · intro key v hOut
      rw [getAssignedWorker_eq_some, hPolicy, hBalancer, hTable,
        lookup_emplace]
      rcases outstanding_handedTo hHanded hOut with
        ⟨hWorker, hKey⟩ | hOld
      · rw [if_pos hKey, hFree.1, hWorker, hKey]
        exact ⟨rfl, hFree.2⟩
      · have hAssigned :=
          getAssignedWorker_eq_some.mp (hSettled key v hOld)
        have hOther : key ≠ pack.header.key := by
          intro hKey
          rw [hKey, hFree.1] at hAssigned
          cases hAssigned.1
        rw [if_neg hOther]
        exact hAssigned
    · apply settled_of_workers hSettled hWorkers
      intro key v _ hAssigned
      unfold getAssignedWorker
      rw [hPolicy, hBalancer, hTable]
      exact hAssigned

----------
-- Steady Runs
----------

/- Other handlers tell the policy something at most. -/
theorem runHandler_other
    {m : Dispatcher}
    {assigned : Option Nat}
    (hOther : ∀ job, h ≠ .processJob job)
    (hRun : d.runHandler pick h = some (assigned, m)) :
    ∃ notices, m = { d with notices := notices } := by
  cases h with
  | processJob job => exact absurd rfl (hOther job)
  | ack w pack =>
      cases hRun
      exact ⟨d.notices, rfl⟩
  | response w pack =>
      rcases Option.bind_eq_some_iff.mp hRun with
        ⟨worker, _, hSome⟩
      split at hSome
      · cases hSome
        exact ⟨_, rfl⟩
      · cases hSome
        exact ⟨d.notices, rfl⟩
  | complete job =>
      rcases Option.bind_eq_some_iff.mp hRun with
        ⟨pack, _, hWorker⟩
      rcases Option.bind_eq_some_iff.mp hWorker with
        ⟨w, _, hSome⟩
      cases hSome
      exact ⟨_, rfl⟩

theorem settled_other
    (hSettled : d.Settled)
    (hHandler : d.launcher.posted[i]? = some h)
    (hOther : ∀ job, h ≠ .processJob job)
    (hStep : d.step (.run i pick) = some d') :
    d'.Settled := by
  simp only [step, hHandler, Option.bind_eq_bind,
    Option.bind_some] at hStep
  rcases Option.bind_eq_some_iff.mp hStep with
    ⟨⟨assigned, m⟩, hRun, hRest⟩
  rcases runHandler_other hOther hRun with ⟨notices, hSame⟩
  subst hSame
  rcases Option.bind_eq_some_iff.mp hRest with
    ⟨launcher, hLauncher, hSome⟩
  cases hSome
  simp only [Launcher.step, hHandler, Option.bind_eq_bind,
    Option.bind_some] at hLauncher
  apply settled_of_subset hSettled
  · intro key w hOut
    have hOld :=
      Launcher.outstanding_runHandler hOther hLauncher hOut
    exact (Launcher.outstanding_congr rfl key w).mp hOld
  · exact fun key w _ hAssigned => hAssigned

theorem settled_run
    (hSettled : d.Settled)
    (hSteady : d.Steady (.run i pick))
    (hStep : d.step (.run i pick) = some d') :
    d'.Settled := by
  rcases Option.bind_eq_some_iff.mp hStep with
    ⟨h, hHandler, hRest⟩
  by_cases hOther : ∀ job, h ≠ .processJob job
  · exact settled_other hSettled hHandler hOther hStep
  · rcases not_forall_not.mp hOther with ⟨job, hProcess⟩
    subst hProcess
    cases hPack : d.launcher.jobs[job]? with
    | none => simp [runHandler, hPack] at hRest
    | some pack =>
        simp only [Steady, hHandler] at hSteady
        exact settled_processJob hSettled hHandler hPack
          (hSteady pack hPack) hStep

/-
  A table with fewer files being transferred, and with the
  entry of a key that has no outstanding job erased or not.
-/
theorem settled_finished
    (hSettled : d.Settled)
    {key : Uuid}
    (hIdle :
      d.balancer.finishes w key = true → d.launcher.Idle key)
    (walk : List (Nat × List Uuid))
    {d' : Dispatcher}
    (hRun : d.runNotice walk (.finished w key) = some d') :
    d'.Settled := by
  cases hRun
  have hTransfering :
      (d.balancer.finishedAJob w key).transfering ⊆
        d.balancer.transfering := by
    unfold Balancer.finishedAJob
    simp only
    split
    · exact Finset.erase_subset _ _
    · exact Finset.Subset.refl _
  refine settled_of_workers hSettled ?_ ?_
  · rfl
  intro k v hOut hAssigned
  rw [getAssignedWorker_eq_some] at hAssigned ⊢
  refine ⟨?_, ?_⟩
  · simp only
    split
    · rename_i hFinishes
      have hNe : k ≠ key := by
        intro hEq
        rw [hEq] at hOut
        exact Launcher.not_outstanding_of_idle
          (hIdle hFinishes) v hOut
      rw [AList.lookup_erase_ne hNe]
      exact hAssigned.1
    · exact hAssigned.1
  · intro hActive hMem
    exact hAssigned.2 hActive (hTransfering hMem)

theorem transfering_startedANewJob
    (w : Nat)
    (key : Uuid)
    (b : Balancer) :
    (b.startedANewJob w key).transfering = b.transfering := by
  unfold Balancer.startedANewJob
  split <;> rfl

/- A key is forgotten when it is idle. -/
theorem settled_notice
    (hSettled : d.Settled)
    {walk : List (Nat × List Uuid)}
    (hSteady : d.Steady (.notice i walk))
    (hStep : d.step (.notice i walk) = some d') :
    d'.Settled := by
  rcases Option.bind_eq_some_iff.mp hStep with
    ⟨notice, hNotice, hRest⟩
  simp only [Steady, hNotice] at hSteady
  simp only at hRest
  split at hRest
  · rename_i hListens
    cases notice with
    | started w key =>
        cases hRest
        refine settled_of_workers hSettled ?_ ?_
        · rfl
        · intro k v _ hAssigned
          rw [getAssignedWorker_eq_some] at hAssigned ⊢
          simp only [transfering_startedANewJob]
          exact hAssigned
    | finished w key =>
        refine settled_finished
          (d := { d with notices := d.notices.eraseIdx i })
          ?_ (hSteady hListens) walk hRest
        exact hSettled
    | execute =>
        simp only [runNotice] at hRest
        split at hRest
        · cases hRest
          exact hSettled
        · cases hRest
  · cases hRest
    exact hSettled

/- A file is transferred when it is idle. -/
theorem settled_startTransfer
    (hSettled : d.Settled)
    {walk : List (Nat × List Uuid)}
    (hSteady : d.Steady (.startTransfer walk))
    (hStep : d.step (.startTransfer walk) = some d') :
    d'.Settled := by
  simp only [step] at hStep
  split at hStep
  · rename_i hListens
    split at hStep
    · cases hStep
      refine settled_of_workers hSettled ?_ ?_
      · rfl
      intro key v hOut hAssigned
      rw [getAssignedWorker_eq_some] at hAssigned ⊢
      refine ⟨hAssigned.1, ?_⟩
      intro hActive hMem
      rcases Finset.mem_insert.mp hMem with hBusy | hOld
      · rw [hBusy] at hOut
        exact Launcher.not_outstanding_of_idle
          (hSteady hListens) v hOut
      · exact hAssigned.2 hActive hOld
    · cases hStep
  · cases hStep
    exact hSettled

/- Steady steps keep the worker of an outstanding job. -/
theorem settled_step
    {e : Event}
    (hSettled : d.Settled)
    (hSteady : d.Steady e)
    (hStep : d.step e = some d') :
    d'.Settled := by
  cases e with
  | addWorker endpoint =>
      cases hStep
      exact settled_addWorker hSettled endpoint
  | schedule pack =>
      cases hStep
      exact hSettled
  | workerAck w pack | workerResponse w pack =>
      rcases Option.bind_eq_some_iff.mp hStep with
        ⟨launcher, hLauncher, hSome⟩
      rcases Option.bind_eq_some_iff.mp hLauncher with
        ⟨worker, _, hPost⟩
      cases hPost
      cases hSome
      exact hSettled
  | close cause w bindings =>
      rcases Option.bind_eq_some_iff.mp hStep with
        ⟨worker, hWorker, hSome⟩
      cases hSome
      exact settled_close hSettled hWorker
        (hSteady worker hWorker) _
  | run i pick => exact settled_run hSettled hSteady hStep
  | execute =>
      cases hStep
      exact hSettled
  | notice i walk =>
      exact settled_notice hSettled hSteady hStep
  | startTransfer walk =>
      exact settled_startTransfer hSettled hSteady hStep

/-
  Under every policy, in every steady run: while a job of a
  key is outstanding at a valid worker, every further job of
  the key is handed to that worker.
-/
theorem dispatched_to_worker
    (policy : Policy)
    (es : List Event)
    {d d' : Dispatcher}
    (hRun : run step (start policy) es = some d)
    (hSteady : Along step Steady (start policy) es)
    {i job : Nat}
    {pack : Packet}
    (hHandler :
      d.launcher.posted[i]? = some (.processJob job))
    (hPack : d.launcher.jobs[job]? = some pack)
    {w : Nat}
    (hOut : d.launcher.Outstanding pack.header.key w)
    (pick : Option Nat)
    (hStep : d.step (.run i pick) = some d') :
    HandedTo d d' i job pack w := by
  have hSettled : d.Settled := by
    refine invariant_of_run ?_
      (settled_start policy) hRun hSteady
    intro m e m' hInv hCond hNext
    exact settled_step hInv hCond hNext
  have hAssigned := hSettled pack.header.key w hOut
  rcases step_processJob hHandler hPack hStep with
    ⟨v, hSame, hHanded, _⟩ | ⟨hNone, _⟩
  · rw [hAssigned] at hSame
    cases hSame
    exact hHanded
  · rcases hOut with ⟨worker, hWorker, hValid, _⟩
    have hFound :
        d.launcher.validWorker
            (d.getAssignedWorker pack.header.key) =
          some (w, worker) :=
      Launcher.validWorker_iff.mpr ⟨hAssigned, hWorker, hValid⟩
    simp [isAssigned, hFound] at hNone

/- Jobs of one key that differ in their salt. -/
def sampleJob (salt : UInt8) : Packet :=
  { header :=
      { type := .workerPushRequest
        key := Vector.replicate 32 1
        sequence := Vector.replicate 4 2
        randomSalt := Vector.replicate 4 salt }
    data := [] }

open Launcher (sampleEndpoint)

/- Two workers, and a job of the key at the first. -/
def firstJob : List Event :=
  [.addWorker sampleEndpoint,
    .addWorker sampleEndpoint,
    .schedule (sampleJob 1),
    .run 0 (some 0),
    .schedule (sampleJob 2)]

theorem dispatched_to_worker_firstJob :
    ∃ d d',
      run step (start .lowestLoad) firstJob =
          some d ∧
        Along step Steady (start .lowestLoad)
          firstJob ∧
        d.launcher.Outstanding (sampleJob 2).header.key 0 ∧
        d.step (.run 0 (some 1)) = some d' ∧
        HandedTo d d' 0 1 (sampleJob 2) 0 := by
  have hOut :
      ∀ {d : Dispatcher},
        d.launcher.workers[0]? =
            some
              { valid := true
                endpoint := sampleEndpoint
                startedJobs :=
                  [((sampleJob 1).header.fullKey, 0)] } →
          d.launcher.Outstanding (sampleJob 2).header.key 0 :=
    fun h => ⟨_, h, rfl, _, List.mem_singleton_self _, rfl⟩
  refine ⟨_, _, rfl, by decide +kernel, hOut rfl, rfl, ?_⟩
  exact dispatched_to_worker .lowestLoad firstJob rfl
    (by decide +kernel) rfl rfl (hOut rfl) (some 1) rfl

/-
  The entry of a worker that closes without jobs stays, and
  the next job of the key, at another worker, does not
  replace it.
-/
def staleEntry : List Event :=
  [.addWorker sampleEndpoint,
    .schedule (sampleJob 1),
    .run 0 (some 0),
    .workerResponse 0 (sampleJob 1),
    .run 0 none,
    .close .readError 0 [],
    .addWorker sampleEndpoint,
    .addWorker sampleEndpoint,
    .schedule (sampleJob 2),
    .run 0 (some 1),
    .schedule (sampleJob 3)]

/-
  The first job of a worker is not counted, so that the
  active policy forgets the worker of the key when that job
  finishes, with the second one outstanding.
-/
def miscounted : List Event :=
  [.addWorker sampleEndpoint,
    .addWorker sampleEndpoint,
    .schedule (sampleJob 1),
    .run 0 (some 0),
    .notice 0 [],
    .schedule (sampleJob 2),
    .run 0 none,
    .notice 0 [],
    .workerResponse 0 (sampleJob 1),
    .run 0 none,
    .notice 0 [],
    .schedule (sampleJob 3)]

/- A further job of the key goes to another worker. -/
def HandedAway
    (policy : Policy)
    (es : List Event)
    (w v : Nat) : Prop :=
  ∃ d d',
    run step (start policy) es = some d ∧
      d.launcher.posted[0]? = some (.processJob 2) ∧
      d.launcher.jobs[2]? = some (sampleJob 3) ∧
      d.launcher.Outstanding (sampleJob 3).header.key w ∧
      d.step (.run 0 (some v)) = some d' ∧
      HandedTo d d' 0 2 (sampleJob 3) v ∧
      ¬ HandedTo d d' 0 2 (sampleJob 3) w

theorem handed_to_other_worker :
    (∀ policy, HandedAway policy staleEntry 1 2) ∧
      HandedAway .activeLowestLoad miscounted 0 1 := by
  refine ⟨fun policy => ?_, ?_⟩
  · cases policy
    all_goals
      refine ⟨_, _, rfl, rfl, rfl, ⟨_, rfl, rfl, by decide⟩,
        rfl, ⟨_, rfl, rfl⟩, ?_⟩
      rintro ⟨worker, hWorker, hNext⟩
      cases hWorker
      revert hNext
      decide
  · refine ⟨_, _, rfl, rfl, rfl, ⟨_, rfl, rfl, by decide⟩,
      rfl, ⟨_, rfl, rfl⟩, ?_⟩
    rintro ⟨worker, hWorker, hNext⟩
    cases hWorker
    revert hNext
    decide

end Dispatcher

end Proxy

end Slfs
