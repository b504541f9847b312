import Mathlib.Data.List.Perm.Basic
import Slfs.Lib.Transition
import Slfs.Ssbd.Packet

/-
  How many workers the proxy launches.

  A launch policy compares the workers it has or has launched
  with an ideal count. Two policies get the ideal count by
  dividing a load, in bytes, by a limit that the arguments of
  the proxy configure in kilobytes.

  Main declarations:
    * `Proxy.Pool.step`
    * `Proxy.Pool.matches_iff_told`
-/

----------
-- Workers On Their Way
----------

namespace Slfs

open Transition

namespace Proxy

/- What all launch policies share. -/
structure WorkerLaunch where
  maxOutstandingStartingRequest : Int
  startingWorkerCount : Int
  starter : Int
  defaultPoolValue : Int
deriving DecidableEq, Repr

namespace WorkerLaunch

def create (maxOutstandingStartingRequest : Int) :
    WorkerLaunch :=
  { maxOutstandingStartingRequest :=
      maxOutstandingStartingRequest
    startingWorkerCount := 0
    starter := 0
    defaultPoolValue := 1 }

def startingANewWorker (p : WorkerLaunch) : WorkerLaunch :=
  { p with startingWorkerCount := p.startingWorkerCount + 1 }

/- Whoever launched the worker. -/
def registeredANewWorker (p : WorkerLaunch) : WorkerLaunch :=
  { p with startingWorkerCount := p.startingWorkerCount - 1 }

/- The delta for an ideal count and a number of workers. -/
def getIdealWorkerCountDelta
    (ideal : Int)
    (workers : Nat)
    (p : WorkerLaunch) : Int :=
  let shouldStart :=
    max (ideal - (workers + p.startingWorkerCount)) 0
  let canStart :=
    max
      (p.maxOutstandingStartingRequest -
        p.startingWorkerCount) 0
  min shouldStart canStart

def scheduleANewJob
    (workers : Nat)
    (p : WorkerLaunch) : WorkerLaunch :=
  { p with
    starter := if workers = 0 then p.defaultPoolValue else 0 }

def rescheduleAJob
    (workers : Nat)
    (p : WorkerLaunch) : WorkerLaunch :=
  p.scheduleANewJob workers

/- What is started is within what the policy thinks it may. -/
theorem delta_le
    {ideal : Int}
    {workers : Nat}
    {p : WorkerLaunch}
    (hPos : 0 < p.getIdealWorkerCountDelta ideal workers) :
    p.startingWorkerCount +
        p.getIdealWorkerCountDelta ideal workers ≤
      p.maxOutstandingStartingRequest := by
  simp only [getIdealWorkerCountDelta] at hPos ⊢
  omega

end WorkerLaunch

/-
  Where a worker that registers comes from: this proxy has
  launched it, or another proxy has told it to join.
-/
inductive Origin where
| launched
| joined
deriving DecidableEq, Repr

/- What is posted to the policy. -/
inductive PoolNotice where
| starting
| registered
deriving DecidableEq, Repr

/-
  The policy, the workers that this proxy has launched and
  that have not registered, those that are registered, and
  what has been posted to the policy and has not run.
-/
structure Pool where
  launch : WorkerLaunch
  starting : Nat
  workers : Nat
  posted : List PoolNotice
deriving DecidableEq, Repr

namespace Pool

def create (maxOutstandingStartingRequest : Int) : Pool :=
  { launch := .create maxOutstandingStartingRequest
    starting := 0
    workers := 0
    posted := [] }

def createWorker (s : Pool) : Pool :=
  { s with
    starting := s.starting + 1
    posted := s.posted ++ [.starting] }

def createWorkers : Nat → Pool → Pool
| 0, s => s
| n + 1, s => createWorkers n s.createWorker

def runNotice (launch : WorkerLaunch) :
    PoolNotice → WorkerLaunch
| .starting => launch.startingANewWorker
| .registered => launch.registeredANewWorker

/-
  The ideal count, that of any policy, is part of the event.
  Notices run in any order.
-/
inductive Event where
| createWorkerWithPolicy (ideal : Int)
| register (origin : Origin)
| close
| notice (i : Nat)
deriving DecidableEq, Repr

def step (s : Pool) : Event → Option Pool
| .createWorkerWithPolicy ideal =>
    some
      (s.createWorkers
        (s.launch.getIdealWorkerCountDelta ideal
          s.workers).toNat)
| .register .launched =>
    if s.starting = 0 then none
    else
      some
        { s with
          starting := s.starting - 1
          workers := s.workers + 1
          posted := s.posted ++ [.registered] }
| .register .joined =>
    some
      { s with
        workers := s.workers + 1
        posted := s.posted ++ [.registered] }
| .close =>
    if s.workers = 0 then none
    else some { s with workers := s.workers - 1 }
| .notice i => do
    let notice ← s.posted[i]?
    some
      { s with
        launch := runNotice s.launch notice
        posted := s.posted.eraseIdx i }

/-
  The count is the number of workers on their way, once all
  that is posted has run.
-/
def Matches (s : Pool) : Prop :=
  s.launch.startingWorkerCount +
      s.posted.count .starting =
    s.starting + s.posted.count .registered

/-
  When the policy is asked, no delta takes the number of
  workers on their way over the limit.
-/
def Limited (s : Pool) : Event → Prop
| .createWorkerWithPolicy _ =>
    ∀ ideal,
      let delta :=
        s.launch.getIdealWorkerCountDelta ideal s.workers
      0 < delta →
        s.starting + delta ≤
          s.launch.maxOutstandingStartingRequest
| _ => True

/-
  Only workers that this proxy has launched register. When
  the policy is asked, it has been told of the workers that
  are starting, or it counts as many as it may.
-/
def Told (s : Pool) : Event → Prop
| .register origin => origin = .launched
| .createWorkerWithPolicy _ =>
    s.posted.count .starting ≤
        s.posted.count .registered ∨
      s.launch.maxOutstandingStartingRequest ≤
        s.launch.startingWorkerCount
| _ => True

instance (s : Pool) (e : Event) : Decidable (s.Told e) := by
  cases e <;> unfold Told <;> infer_instance

/- The part about workers that register. -/
def Launched (_ : Pool) : Event → Prop
| .register origin => origin = .launched
| _ => True

/- Launching posts one notice a worker. -/
theorem createWorkers_eq (n : Nat) (s : Pool) :
    createWorkers n s =
      { s with
        starting := s.starting + n
        posted := s.posted ++
          List.replicate n .starting } := by
  induction n generalizing s with
  | zero => simp [createWorkers]
  | succ n ih =>
      rw [createWorkers, ih]
      simp only [createWorker, List.replicate_succ,
        List.append_assoc, List.singleton_append,
        Nat.add_assoc, Nat.add_comm 1 n]

theorem count_registered (posted : List PoolNotice) :
    List.count .starting (posted ++ [.registered]) =
        posted.count .starting ∧
      List.count .registered (posted ++ [.registered]) =
        posted.count .registered + 1 := by
  simp

theorem count_starting (n : Nat) (posted : List PoolNotice) :
    List.count .starting
          (posted ++ List.replicate n .starting) =
        posted.count .starting + n ∧
      List.count .registered
          (posted ++ List.replicate n .starting) =
        posted.count .registered := by
  simp [List.count_replicate]

/- Only a worker that joins is counted and not launched. -/
theorem matches_step
    {s s' : Pool}
    {e : Event}
    (hMatches : s.Matches)
    (hStep : s.step e = some s') :
    s'.Matches ↔ s.Launched e := by
  unfold Matches at hMatches ⊢
  cases e with
  | createWorkerWithPolicy ideal =>
      cases hStep
      rw [createWorkers_eq, (count_starting _ _).1,
        (count_starting _ _).2]
      simp only [Launched, iff_true]
      omega
  | register origin =>
      cases origin with
      | launched =>
          simp only [step] at hStep
          split at hStep
          · cases hStep
          · cases hStep
            rw [(count_registered _).1, (count_registered _).2]
            simp only [Launched, iff_true]
            omega
      | joined =>
          cases hStep
          rw [(count_registered _).1, (count_registered _).2]
          simp only [Launched, reduceCtorEq, iff_false]
          omega
  | close =>
      simp only [step] at hStep
      split at hStep
      · cases hStep
      · cases hStep
        simpa only [Launched, iff_true] using hMatches
  | notice i =>
      rcases Option.bind_eq_some_iff.mp hStep with
        ⟨notice, hNotice, hEq⟩
      cases hEq
      rcases List.getElem?_eq_some_iff.mp hNotice with
        ⟨hi, hAt⟩
      have hPerm := List.getElem_cons_eraseIdx_perm hi
      rw [hAt] at hPerm
      have hStarting := hPerm.count_eq .starting
      have hRegistered := hPerm.count_eq .registered
      simp only [Launched, iff_true]
      cases notice with
      | starting =>
          rw [List.count_cons_self] at hStarting
          rw [List.count_cons_of_ne (by decide)] at hRegistered
          simp only [runNotice,
            WorkerLaunch.startingANewWorker]
          omega
      | registered =>
          rw [List.count_cons_of_ne (by decide)] at hStarting
          rw [List.count_cons_self] at hRegistered
          simp only [runNotice,
            WorkerLaunch.registeredANewWorker]
          omega

/- A policy that has not been told starts too many. -/
theorem limited_iff
    {s : Pool}
    (hMatches : s.Matches)
    (e : Event) :
    s.Launched e ∧ s.Limited e ↔ s.Told e := by
  unfold Matches at hMatches
  cases e with
  | createWorkerWithPolicy ideal =>
      simp only [Launched, Limited, Told, true_and]
      constructor
      · intro h
        by_contra hNot
        -- the ideal count that makes use of all that is left
        have hAll := h
          (s.workers + s.launch.maxOutstandingStartingRequest)
        simp only [WorkerLaunch.getIdealWorkerCountDelta]
          at hAll
        omega
      · rintro (hTold | hFull) ideal hPos
        · have hLe := WorkerLaunch.delta_le hPos
          omega
        · have hLe := WorkerLaunch.delta_le hPos
          omega
  | register origin => simp [Launched, Limited, Told]
  | close => simp [Launched, Limited, Told]
  | notice i => simp [Launched, Limited, Told]

theorem matches_create (maxOutstandingStartingRequest : Int) :
    (create maxOutstandingStartingRequest).Matches :=
  rfl

/-
  In every run the count is the number of workers on their
  way in all states, up to what is still posted, and no delta
  takes that number over the limit, exactly if no worker
  joins from another proxy and the policy is not asked before
  it has been told of the last launch.
-/
theorem matches_iff_told
    (maxOutstandingStartingRequest : Int)
    (es : List Event)
    {s : Pool}
    (hRun :
      run step
        (create maxOutstandingStartingRequest) es = some s) :
    Always step Matches
          (create maxOutstandingStartingRequest) es ∧
        Along step Limited
          (create maxOutstandingStartingRequest) es ↔
      Along step Told
        (create maxOutstandingStartingRequest) es := by
  have hInit := matches_create maxOutstandingStartingRequest
  have hLaunched :
      Always step Matches
          (create maxOutstandingStartingRequest) es ↔
        Along step Launched
          (create maxOutstandingStartingRequest) es :=
    always_iff_along
      (fun _ _ _ => matches_step) hInit hRun
  rw [hLaunched, ← along_and]
  constructor
  · refine along_of_invariant ?_ ?_ hInit
    · intro s e s' hMatches hCond hStep
      exact (matches_step hMatches hStep).mpr hCond.1
    · intro s e hMatches hCond
      exact (limited_iff hMatches e).mp hCond
  · refine along_of_invariant ?_ ?_ hInit
    · intro s e s' hMatches hTold hStep
      exact (matches_step hMatches hStep).mpr
        ((limited_iff hMatches e).mpr hTold).1
    · intro s e hMatches hTold
      exact (limited_iff hMatches e).mpr hTold

/- Three workers are wanted, and two come. -/
def twoRegister : List Event :=
  [.createWorkerWithPolicy 3,
    .notice 0, .notice 0, .notice 0,
    .register .launched,
    .register .launched,
    .notice 1, .notice 0,
    .close,
    .createWorkerWithPolicy 9]

theorem matches_iff_told_twoRegister :
    (∃ s,
      run step (create 4) twoRegister = some s ∧
        s.starting = 4) ∧
      Always step Matches (create 4) twoRegister ∧
      Along step Limited (create 4)
        twoRegister := by
  refine ⟨⟨_, rfl, rfl⟩, ?_⟩
  exact (matches_iff_told 4 twoRegister rfl).mpr (by decide)

/-
  A worker joins from another proxy. The count is negative,
  and the proxy launches one worker more than it may. If it
  is asked again before it is told of a launch, it launches
  twice as many as it may.
-/
theorem joined_worker_counted :
    (∃ s s',
      run step (create 4)
          [.register .joined, .notice 0] = some s ∧
        s.posted = [] ∧
        s.launch.startingWorkerCount = -1 ∧
        s.starting = 0 ∧
        s.step (.createWorkerWithPolicy 9) = some s' ∧
        s.launch.maxOutstandingStartingRequest <
          s'.starting) ∧
      ∃ s,
        run step (create 4)
            [.createWorkerWithPolicy 9,
              .createWorkerWithPolicy 9] = some s ∧
          s.starting = 8 :=
  ⟨⟨_, _, rfl, rfl, rfl, rfl, rfl, by decide⟩, _, rfl, rfl⟩

end Pool

----------
-- Arguments Of The Policies
----------

open Decimal (stoi)
open Mark (colon)

/-
  Match `(\d+):(\d+)` anywhere in the arguments. Both numbers
  must fit their types, or parsing throws.
-/
def launchArgs (args : Bytes) : Option (Int × Nat) :=
  match Decimal.searchFields colon 2 args with
  | some [first, second] => do
      let maxOutstandingStartingRequest ← stoi first
      let limit ← Decimal.stoull second
      some (maxOutstandingStartingRequest, limit)
  | _ => none

/-
  Store a quotient of two 64-bit numbers as an `int`.
  Division by zero does not return.
-/
def storeQuotient (load limit : Nat) : Option Int :=
  if limit = 0 then none
  else some (Int.bmod ((load / limit : Nat) : Int) (2 ^ 32))

theorem storeQuotient_eq
    {load limit : Nat}
    (hLimit : 0 < limit)
    (hFits : load / limit < 2 ^ 31) :
    storeQuotient load limit =
      some ((load / limit : Nat) : Int) := by
  have hInt : Int.bmod ((load / limit : Nat) : Int) (2 ^ 32) =
      ((load / limit : Nat) : Int) := by
    generalize load / limit = quotient at hFits
    apply Int.bmod_eq_of_le
    · omega
    · omega
  unfold storeQuotient
  rw [if_neg (by omega), hInt]

/- The kilobytes of a limit as a 64-bit number of bytes. -/
def limitBytes (limit : Nat) : Nat :=
  limit * 1024 % 2 ^ 64

----------
-- Constant Average Load
----------

/- Times are in nanoseconds. -/
structure ConstAverageLoad where
  base : WorkerLaunch
  maxAverageLoad : Nat
  lastUpdate : Int
  idealWorkerCount : Int
  processedSize : Nat
deriving DecidableEq, Repr

namespace ConstAverageLoad

def create
    (maxOutstandingStartingRequest : Int)
    (maxAverageLoad : Nat)
    (now : Int) : ConstAverageLoad :=
  { base := .create maxOutstandingStartingRequest
    maxAverageLoad := limitBytes maxAverageLoad
    lastUpdate := now
    idealWorkerCount := 0
    processedSize := 0 }

/- Whole milliseconds between two times. -/
def duration (since now : Int) : Int :=
  (now - since).tdiv 1000000

/- The clock is read twice. -/
def execute
    (now later : Int)
    (p : ConstAverageLoad) : Option ConstAverageLoad := do
  let ms := (duration p.lastUpdate now % 2 ^ 64).toNat
  if ms = 0 then none
  else
    let normalized := p.processedSize * 1000 % 2 ^ 64 / ms
    let ideal ← storeQuotient normalized p.maxAverageLoad
    some
      { p with
        lastUpdate := later
        idealWorkerCount := ideal
        processedSize := 0 }

def addProcessed
    (datasize : UInt32)
    (p : ConstAverageLoad) : ConstAverageLoad :=
  { p with
    processedSize :=
      (p.processedSize + datasize.toNat) % 2 ^ 64 }

def startedANewJob := addProcessed

def finishedAJob := addProcessed

inductive Event where
| startedANewJob (datasize : UInt32)
| finishedAJob (datasize : UInt32)
| execute (now later : Int)
deriving DecidableEq, Repr

/- The policy, and the bytes since the last execution. -/
structure Run where
  policy : ConstAverageLoad
  load : Nat
deriving DecidableEq, Repr

def step (s : Run) : Event → Option Run
| .startedANewJob datasize =>
    some
      { policy := s.policy.startedANewJob datasize
        load := s.load + datasize.toNat }
| .finishedAJob datasize =>
    some
      { policy := s.policy.finishedAJob datasize
        load := s.load + datasize.toNat }
| .execute now later => do
    let policy ← s.policy.execute now later
    some { policy := policy, load := 0 }

def start
    (maxOutstandingStartingRequest : Int)
    (limit : Nat)
    (now : Int) : Run :=
  { policy := .create maxOutstandingStartingRequest limit now
    load := 0 }

/- The configured limit, and the policy as it starts. -/
def setPolicyLaunch
    (args : Bytes)
    (now : Int) : Option (Nat × Run) :=
  (launchArgs args).map
    (fun a => (a.2, start a.1 a.2 now))

/- Bytes in a second, since the last execution. -/
def loadPerSecond (s : Run) (now : Int) : Int :=
  s.load * 1000 / duration s.policy.lastUpdate now

/-
  An execution returns, and stores the quotient of the load
  by the configured limit.
-/
def Exact (limit : Nat) (s : Run) : Event → Prop
| .execute now later =>
    ∃ s', step s (.execute now later) = some s' ∧
      0 ≤ s'.policy.idealWorkerCount ∧
      s'.policy.idealWorkerCount =
        loadPerSecond s now / (limit * 1024 : Nat)
| _ => True

/-
  At least a millisecond after the last execution, with a
  limit that is not zero, and no number too large.
-/
def Within (limit : Nat) (s : Run) : Event → Prop
| .execute now _ =>
    0 < limit ∧ limit * 1024 < 2 ^ 64 ∧
      1000000 ≤ now - s.policy.lastUpdate ∧
      now - s.policy.lastUpdate < 2 ^ 63 ∧
      s.load * 1000 < 2 ^ 64 ∧
      loadPerSecond s now / (limit * 1024 : Nat) < 2 ^ 31
| _ => True

instance (limit : Nat) (s : Run) (e : Event) :
    Decidable (Within limit s e) := by
  cases e <;> unfold Within <;> infer_instance

/- The counter is the load as a 64-bit number. -/
structure Counts (limit : Nat) (s : Run) : Prop where
  limit_eq : s.policy.maxAverageLoad = limitBytes limit
  load_eq : s.policy.processedSize = s.load % 2 ^ 64

variable {limit : Nat} {s : Run}

theorem Counts.addProcessed
    (hCounts : Counts limit s)
    (datasize : UInt32) :
    Counts limit
      { policy := s.policy.addProcessed datasize
        load := s.load + datasize.toNat } where
  limit_eq := hCounts.limit_eq
  load_eq := by
    simp only [ConstAverageLoad.addProcessed,
      hCounts.load_eq, Nat.mod_add_mod]

/- What an execution that returns stores. -/
theorem execute_eq
    (hCounts : Counts limit s)
    {now later : Int}
    (hWithin : Within limit s (.execute now later)) :
    s.policy.execute now later =
      some
        { s.policy with
          lastUpdate := later
          idealWorkerCount :=
            loadPerSecond s now / (limit * 1024 : Nat)
          processedSize := 0 } := by
  rcases hWithin with
    ⟨hPos, hLimit, hEarly, hLate, hLoad, hFits⟩
  have hMs :
      duration s.policy.lastUpdate now =
        (now - s.policy.lastUpdate) / 1000000 :=
    Int.tdiv_eq_ediv_of_nonneg (by omega)
  have hRange :
      0 < duration s.policy.lastUpdate now ∧
        duration s.policy.lastUpdate now < 2 ^ 64 := by
    rw [hMs]
    omega
  obtain ⟨ms, hEq⟩ :=
    Int.eq_ofNat_of_zero_le (Int.le_of_lt hRange.1)
  have hRate :
      loadPerSecond s now = ((s.load * 1000 / ms : Nat) : Int) := by
    unfold loadPerSecond
    rw [hEq, Int.natCast_ediv, Int.natCast_mul]
    rfl
  rw [hEq] at hRange
  rw [hRate] at hFits ⊢
  have hProcessed : s.policy.processedSize = s.load := by
    rw [hCounts.load_eq]
    exact Nat.mod_eq_of_lt (by omega)
  have hMax : s.policy.maxAverageLoad = limit * 1024 := by
    rw [hCounts.limit_eq]
    exact Nat.mod_eq_of_lt hLimit
  have hStore :
      storeQuotient (s.load * 1000 / ms) (limit * 1024) =
        some ((s.load * 1000 / ms / (limit * 1024) : Nat) : Int) := by
    apply storeQuotient_eq
    · omega
    · exact_mod_cast hFits
  have hNat :
      (duration s.policy.lastUpdate now % 2 ^ 64).toNat = ms := by
    rw [hEq, Int.emod_eq_of_lt (by omega) hRange.2]
    rfl
  unfold execute
  simp only [hNat, hProcessed, hMax, Nat.mod_eq_of_lt hLoad,
    hStore]
  rw [if_neg (by omega)]
  simp only [Option.bind_eq_bind, Option.bind_some,
    Int.natCast_ediv]

theorem Counts.step
    {s' : Run}
    {e : Event}
    (hCounts : Counts limit s)
    (hStep : ConstAverageLoad.step s e = some s') :
    Counts limit s' := by
  cases e with
  | startedANewJob datasize | finishedAJob datasize =>
      cases hStep
      exact hCounts.addProcessed datasize
  | execute now later =>
      rcases Option.bind_eq_some_iff.mp hStep with
        ⟨policy, hExecute, hSome⟩
      cases hSome
      unfold execute at hExecute
      simp only at hExecute
      split at hExecute
      · cases hExecute
      · rcases Option.bind_eq_some_iff.mp hExecute with
          ⟨ideal, _, hNext⟩
        cases hNext
        exact ⟨hCounts.limit_eq, rfl⟩

theorem Counts.exact
    {limit : Nat}
    {s : Run}
    {e : Event}
    (hCounts : Counts limit s)
    (hWithin : Within limit s e) :
    Exact limit s e := by
  cases e with
  | startedANewJob datasize => trivial
  | finishedAJob datasize => trivial
  | execute now later =>
      have hExecute := execute_eq hCounts hWithin
      refine ⟨_, Option.bind_eq_some_iff.mpr
        ⟨_, hExecute, rfl⟩, ?_, rfl⟩
      rcases hWithin with ⟨_, _, hEarly, _⟩
      have hMs :
          0 ≤ duration s.policy.lastUpdate now :=
        Int.tdiv_nonneg (by omega) (by decide)
      apply Int.ediv_nonneg
      · exact Int.ediv_nonneg (by omega) hMs
      · exact Int.natCast_nonneg _

end ConstAverageLoad

----------
-- Maximum Queue
----------

structure MaxQueue where
  base : WorkerLaunch
  maxAverageQueue : Nat
  queueSize : Int
  idealWorkerCount : Int
deriving DecidableEq, Repr

namespace MaxQueue

def create
    (maxOutstandingStartingRequest : Int)
    (maxQueue : Nat) : MaxQueue :=
  { base := .create maxOutstandingStartingRequest
    maxAverageQueue := limitBytes maxQueue
    queueSize := 0
    idealWorkerCount := 0 }

/- A negative queue is a large number without a sign. -/
def execute (p : MaxQueue) : Option MaxQueue := do
  let ideal ←
    storeQuotient (p.queueSize % 2 ^ 64).toNat
      p.maxAverageQueue
  some { p with idealWorkerCount := ideal }

def finishedAJob
    (datasize : UInt32)
    (p : MaxQueue) : MaxQueue :=
  { p with
    queueSize :=
      Int.bmod (p.queueSize - datasize.toNat) (2 ^ 64) }

def scheduleANewJob
    (workers : Nat)
    (datasize : UInt32)
    (p : MaxQueue) : MaxQueue :=
  { p with
    queueSize :=
      Int.bmod (p.queueSize + datasize.toNat) (2 ^ 64)
    base := p.base.scheduleANewJob workers }

def rescheduleAJob (workers : Nat) (p : MaxQueue) : MaxQueue :=
  { p with base := p.base.rescheduleAJob workers }

inductive Event where
| scheduleANewJob (workers : Nat) (datasize : UInt32)
| rescheduleAJob (workers : Nat)
| finishedAJob (datasize : UInt32)
| execute
deriving DecidableEq, Repr

/- The policy, and the bytes scheduled and not finished. -/
structure Run where
  policy : MaxQueue
  load : Int
deriving DecidableEq, Repr

def step (s : Run) : Event → Option Run
| .scheduleANewJob workers datasize =>
    some
      { policy := s.policy.scheduleANewJob workers datasize
        load := s.load + datasize.toNat }
| .rescheduleAJob workers =>
    some { s with policy := s.policy.rescheduleAJob workers }
| .finishedAJob datasize =>
    some
      { policy := s.policy.finishedAJob datasize
        load := s.load - datasize.toNat }
| .execute => do
    let policy ← s.policy.execute
    some { s with policy := policy }

def start
    (maxOutstandingStartingRequest : Int)
    (limit : Nat) : Run :=
  { policy := .create maxOutstandingStartingRequest limit
    load := 0 }

/- The configured limit, and the policy as it starts. -/
def setPolicyLaunch (args : Bytes) : Option (Nat × Run) :=
  (launchArgs args).map (fun a => (a.2, start a.1 a.2))

/-
  An execution returns, the load is not negative, and the
  quotient of the load by the configured limit is stored.
-/
def Exact (limit : Nat) (s : Run) : Event → Prop
| .execute =>
    ∃ s', step s .execute = some s' ∧
      0 ≤ s.load ∧
      0 ≤ s'.policy.idealWorkerCount ∧
      s'.policy.idealWorkerCount =
        s.load / (limit * 1024 : Nat)
| _ => True

/-
  The limit is not zero, the load is not negative, and no
  number is too large.
-/
def Within (limit : Nat) (s : Run) : Event → Prop
| .execute =>
    0 < limit ∧ limit * 1024 < 2 ^ 64 ∧
      0 ≤ s.load ∧ s.load < 2 ^ 63 ∧
      s.load / (limit * 1024 : Nat) < 2 ^ 31
| _ => True

instance (limit : Nat) (s : Run) (e : Event) :
    Decidable (Within limit s e) := by
  cases e <;> unfold Within <;> infer_instance

/- The counter is the load as a signed 64-bit number. -/
structure Counts (limit : Nat) (s : Run) : Prop where
  limit_eq : s.policy.maxAverageQueue = limitBytes limit
  load_eq : s.policy.queueSize = Int.bmod s.load (2 ^ 64)

variable {limit : Nat}

theorem Counts.step
    {s s' : Run}
    {e : Event}
    (hCounts : Counts limit s)
    (hStep : MaxQueue.step s e = some s') :
    Counts limit s' := by
  cases e with
  | scheduleANewJob workers datasize =>
      cases hStep
      refine ⟨hCounts.limit_eq, ?_⟩
      simp only [MaxQueue.scheduleANewJob, hCounts.load_eq,
        Int.bmod_add_bmod]
  | rescheduleAJob workers =>
      cases hStep
      exact ⟨hCounts.limit_eq, hCounts.load_eq⟩
  | finishedAJob datasize =>
      cases hStep
      refine ⟨hCounts.limit_eq, ?_⟩
      simp only [MaxQueue.finishedAJob, hCounts.load_eq,
        Int.bmod_sub_bmod]
  | execute =>
      rcases Option.bind_eq_some_iff.mp hStep with
        ⟨policy, hExecute, hSome⟩
      cases hSome
      rcases Option.bind_eq_some_iff.mp hExecute with
        ⟨ideal, _, hNext⟩
      cases hNext
      exact ⟨hCounts.limit_eq, hCounts.load_eq⟩

theorem Counts.exact
    {limit : Nat}
    {s : Run}
    {e : Event}
    (hCounts : Counts limit s)
    (hWithin : Within limit s e) :
    Exact limit s e := by
  cases e with
  | scheduleANewJob workers datasize => trivial
  | rescheduleAJob workers => trivial
  | finishedAJob datasize => trivial
  | execute =>
      rcases hWithin with ⟨hPos, hLimit, hLoad, hLarge, hFits⟩
      obtain ⟨load, hEq⟩ := Int.eq_ofNat_of_zero_le hLoad
      have hQueue : s.policy.queueSize = load := by
        rw [hCounts.load_eq, hEq]
        apply Int.bmod_eq_of_le
        · omega
        · omega
      have hMax : s.policy.maxAverageQueue = limit * 1024 := by
        rw [hCounts.limit_eq]
        exact Nat.mod_eq_of_lt hLimit
      have hStore :
          storeQuotient (s.policy.queueSize % 2 ^ 64).toNat
              s.policy.maxAverageQueue =
            some ((load / (limit * 1024) : Nat) : Int) := by
        have hNat :
            (s.policy.queueSize % 2 ^ 64).toNat = load := by
          rw [hQueue, Int.emod_eq_of_lt (by omega) (by omega)]
          rfl
        rw [hNat, hMax]
        apply storeQuotient_eq
        · omega
        · rw [hEq] at hFits
          exact_mod_cast hFits
      have hExecute :
          s.policy.execute =
            some
              { s.policy with
                idealWorkerCount :=
                  ((load / (limit * 1024) : Nat) : Int) } :=
        Option.bind_eq_some_iff.mpr ⟨_, hStore, rfl⟩
      refine ⟨_, Option.bind_eq_some_iff.mpr
        ⟨_, hExecute, rfl⟩, hLoad, Int.natCast_nonneg _, ?_⟩
      rw [hEq]
      exact Int.natCast_ediv load (limit * 1024)

end MaxQueue

/-
  For all arguments that are accepted, and all sequences of
  job events and executions within the limits, both policies
  store the quotient of the load by the configured limit.
-/
theorem quotients_of_within
    (args : Bytes)
    (limit : Nat) :
    (∀ now s es,
      ConstAverageLoad.setPolicyLaunch args now =
          some (limit, s) →
        Along ConstAverageLoad.step
            (ConstAverageLoad.Within limit) s es →
          Along ConstAverageLoad.step
            (ConstAverageLoad.Exact limit) s es) ∧
      ∀ s es,
        MaxQueue.setPolicyLaunch args = some (limit, s) →
          Along MaxQueue.step
              (MaxQueue.Within limit) s es →
            Along MaxQueue.step
              (MaxQueue.Exact limit) s es := by
  constructor
  · intro now s es hSet
    rcases Option.map_eq_some_iff.mp hSet with ⟨_, _, hEq⟩
    cases hEq
    exact along_of_any_invariant
      ConstAverageLoad.Counts.step
      ConstAverageLoad.Counts.exact ⟨rfl, rfl⟩
  · intro s es hSet
    rcases Option.map_eq_some_iff.mp hSet with ⟨_, _, hEq⟩
    cases hEq
    exact along_of_any_invariant
      MaxQueue.Counts.step MaxQueue.Counts.exact ⟨rfl, rfl⟩

/- Jobs of three kilobytes, with a limit of one a worker. -/
theorem quotients_three_kilobytes :
    Along ConstAverageLoad.step
        (ConstAverageLoad.Exact 1)
        (ConstAverageLoad.start 4 1 0)
        [.startedANewJob 1024, .finishedAJob 2048,
          .execute 1000000000 1000000001] ∧
      Along MaxQueue.step (MaxQueue.Exact 1)
        (MaxQueue.start 4 1)
        [.scheduleANewJob 0 2048, .scheduleANewJob 1 1024,
          .rescheduleAJob 0, .execute, .finishedAJob 2048,
          .execute] := by
  constructor
  · exact (quotients_of_within (Decimal.ascii "4:1") 1).1
      0 _ _ (by decide +kernel) (by decide +kernel)
  · exact (quotients_of_within (Decimal.ascii "4:1") 1).2
      _ _ (by decide +kernel) (by decide +kernel)

/-
  A limit of zero is accepted, and so is one whose bytes are
  zero in 64 bits; two executions can be less than a
  millisecond apart; and a job that finishes twice makes the
  queue negative, and the ideal count with it.
-/
theorem quotient_fails :
    (∃ s,
      MaxQueue.setPolicyLaunch (Decimal.ascii "4:0") =
          some (0, s) ∧
        MaxQueue.step s .execute = none) ∧
      (∃ s,
        MaxQueue.setPolicyLaunch
            (Decimal.ascii "4:18014398509481984") =
            some (2 ^ 54, s) ∧
          MaxQueue.step s .execute = none) ∧
      (∃ s,
        ConstAverageLoad.setPolicyLaunch (Decimal.ascii "4:1")
            0 = some (1, s) ∧
          ConstAverageLoad.step s (.execute 999999 999999) =
            none) ∧
      ∃ s s',
        MaxQueue.setPolicyLaunch (Decimal.ascii "4:1") =
            some (1, s) ∧
          run MaxQueue.step s
              [.scheduleANewJob 0 56, .finishedAJob 56,
                .finishedAJob 56, .execute] = some s' ∧
          s'.policy.idealWorkerCount = -1 := by
  refine ⟨⟨MaxQueue.start 4 0, ?_⟩,
    ⟨MaxQueue.start 4 (2 ^ 54), ?_⟩,
    ⟨ConstAverageLoad.start 4 1 0, ?_⟩,
    MaxQueue.start 4 1, ?_⟩
  · decide +kernel
  · decide +kernel
  · decide +kernel
  · exact ⟨_, by decide +kernel, rfl, by decide +kernel⟩

end Proxy

end Slfs
