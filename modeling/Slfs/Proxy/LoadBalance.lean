import Slfs.Proxy.Assignment

/-
  The counters of `active_lowest_load`.

  The policy counts the jobs of each file at each worker, and
  forgets the worker of a file when its count comes down to
  zero. The counters are cleared from time to time, and the
  first job of a worker is not counted for its file.

  Main declarations:
    * `Proxy.ActiveLowestLoad`
    * `Proxy.ActiveLowestLoad.removes_idle_of_counted`
-/

----------
-- Counts After Each Operation
----------

namespace Slfs

open Transition

namespace Proxy

namespace Balancer

/- The count of a file at a worker, zero if there is none. -/
def counted (w : Nat) (key : Uuid) (b : Balancer) : Int :=
  (b.fileCount w key).getD 0

theorem lookup_setCounter
    (b : Balancer)
    (w : Nat)
    (info : Counter)
    (v : Nat) :
    (b.setCounter w info).workerFileMap.lookup v =
      if v = w then (b.workerFileMap.lookup w).map (fun _ => info)
      else b.workerFileMap.lookup v :=
  Table.lookup_map_update b.workerFileMap w (fun _ => info) v

/- One job more, unless it is the first of its worker. -/
theorem counted_startedANewJob
    (b : Balancer)
    (w : Nat)
    (key : Uuid)
    (v : Nat)
    (k : Uuid) :
    (b.startedANewJob w key).counted v k =
      b.counted v k +
        if (v, k) = (w, key) ∧
            (b.workerFileMap.lookup w).isSome then 1
        else 0 := by
  unfold counted fileCount startedANewJob
  cases hInfo : b.workerFileMap.lookup w with
  | none =>
      by_cases hWorker : v = w
      · subst hWorker
        simp [List.lookup_append, hInfo]
      · simp [List.lookup_append, hWorker,
          Table.lookup_cons_eq]
  | some info =>
      simp only [lookup_setCounter]
      by_cases hWorker : v = w
      · subst hWorker
        simp only [if_true, hInfo, Option.map_some,
          Option.bind_some, Option.isSome_some, and_true,
          Prod.mk.injEq, true_and]
        cases hFile : info.fileCounter.lookup key with
        | none =>
            by_cases hKey : k = key
            · subst hKey
              simp [List.lookup_append, hFile]
            · simp [List.lookup_append, hKey,
                Table.lookup_cons_eq]
        | some count =>
            simp only [Table.lookup_map_update
              info.fileCounter key (fun c => c + 1) k]
            by_cases hKey : k = key
            · subst hKey
              simp [hFile]
            · simp [hKey]
      · simp [hWorker]

/- One job less, if the file has a count. -/
theorem counted_finishedAJob
    (b : Balancer)
    (w : Nat)
    (key : Uuid)
    (v : Nat)
    (k : Uuid) :
    (b.finishedAJob w key).counted v k =
      b.counted v k -
        if (v, k) = (w, key) ∧ (b.fileCount w key).isSome then 1
        else 0 := by
  unfold counted fileCount finishedAJob
  cases hInfo : b.workerFileMap.lookup w with
  | none =>
      simp
  | some info =>
      simp only [lookup_setCounter]
      by_cases hWorker : v = w
      · subst hWorker
        simp only [if_true, hInfo, Option.map_some,
          Option.bind_some, Prod.mk.injEq, true_and]
        rw [Table.lookup_map_update info.fileCounter key
          (fun c => c - 1) k]
        by_cases hKey : k = key
        · subst hKey
          cases info.fileCounter.lookup k with
          | none => simp
          | some count => simp
        · simp [hKey]
      · simp [hWorker]

/- All counts start again. -/
theorem counted_execute
    (b : Balancer)
    (walk : List (Nat × List Uuid))
    (v : Nat)
    (k : Uuid) :
    (b.execute walk).counted v k = 0 := by
  unfold counted fileCount execute
  simp only
  rw [Table.lookup_map_values b.workerFileMap
    (fun info : Counter =>
      ({ totalCounter := 0
         fileCounter :=
           info.fileCounter.map (fun f => (f.1, 0)) } :
        Counter))]
  cases b.workerFileMap.lookup v with
  | none => rfl
  | some info =>
      simp only [Option.map_some, Option.bind_some]
      rw [Table.lookup_map_values info.fileCounter
        (fun _ => (0 : Int))]
      cases info.fileCounter.lookup k with
      | none => rfl
      | some count => rfl

variable {b : Balancer} {w : Nat}

theorem isSome_of_counted
    {key : Uuid}
    (hPos : 0 < b.counted w key) :
    (b.fileCount w key).isSome := by
  unfold counted at hPos
  cases hCount : b.fileCount w key with
  | none => simp [hCount] at hPos
  | some count => rfl

theorem counted_of_finishes
    {key : Uuid}
    (hFinishes : b.finishes w key = true) :
    b.counted w key = 1 := by
  have hCount : b.fileCount w key = some 1 := by
    simpa [finishes] using hFinishes
  unfold counted
  rw [hCount]
  rfl

end Balancer

----------
-- The Policy
----------

/-
  The policy and the jobs that have been started and not
  finished, each with its worker and its file.
-/
structure ActiveLowestLoad where
  fileidToWorker : AList (fun _ : Uuid => Nat)
  balancer : Balancer
  outstanding : List (Nat × Uuid)

namespace ActiveLowestLoad

def start : ActiveLowestLoad :=
  { fileidToWorker := ∅
    balancer := .start
    outstanding := [] }

/-
  The launcher gives a file a worker, or takes it away when
  it reschedules a job of the file; the other events are the
  operations of the policy.
-/
inductive Event where
| assign (key : Uuid) (worker : Nat)
| reschedule (key : Uuid)
| startedANewJob (worker : Nat) (key : Uuid)
| finishedAJob (worker : Nat) (key : Uuid)
| execute (walk : List (Nat × List Uuid))
| startTransfer (walk : List (Nat × List Uuid))
deriving DecidableEq, Repr

/- A job finishes only after it has started. -/
def step (p : ActiveLowestLoad) :
    Event → Option ActiveLowestLoad
| .assign key w =>
    some
      { p with
        fileidToWorker := emplace key w p.fileidToWorker }
| .reschedule key =>
    some { p with fileidToWorker := p.fileidToWorker.erase key }
| .startedANewJob w key =>
    some
      { p with
        balancer := p.balancer.startedANewJob w key
        outstanding := (w, key) :: p.outstanding }
| .finishedAJob w key =>
    if (w, key) ∈ p.outstanding then
      some
        { fileidToWorker :=
            if p.balancer.finishes w key then
              p.fileidToWorker.erase key
            else p.fileidToWorker
          balancer := p.balancer.finishedAJob w key
          outstanding := p.outstanding.erase (w, key) }
    else none
| .execute walk =>
    if p.balancer.IsWalk walk then
      some { p with balancer := p.balancer.execute walk }
    else none
| .startTransfer walk =>
    if p.balancer.IsWalk walk then
      some { p with balancer := p.balancer.startTransfer walk }
    else none

/- A file is removed from one of the two maps. -/
def Removes (p p' : ActiveLowestLoad) (key : Uuid) : Prop :=
  (key ∈ p.fileidToWorker ∧ key ∉ p'.fileidToWorker) ∨
    (key ∈ p.balancer.transfering ∧
      key ∉ p'.balancer.transfering)

instance (p p' : ActiveLowestLoad) (key : Uuid) :
    Decidable (p.Removes p' key) := by
  unfold Removes
  infer_instance

/-
  A job that finishes removes a file only if no job of the
  file is left at the worker.
-/
def RemovesIdle (p : ActiveLowestLoad) : Event → Prop
| .finishedAJob w key =>
    ∀ p' ∈ p.step (.finishedAJob w key), ∀ file,
      p.Removes p' file → (w, file) ∉ p'.outstanding
| _ => True

/-
  When a job starts, the jobs of its file that are out at
  its worker are all in the count.
-/
def Counted (p : ActiveLowestLoad) : Event → Prop
| .startedANewJob w key =>
    p.balancer.counted w key = p.outstanding.count (w, key)
| _ => True

instance (p : ActiveLowestLoad) (e : Event) :
    Decidable (p.Counted e) := by
  cases e <;> unfold Counted <;> infer_instance

end ActiveLowestLoad

/- A dispatcher's policy, with the jobs that are out. -/
def Dispatcher.activeLowestLoad
    (d : Dispatcher)
    (outstanding : List (Nat × Uuid)) : ActiveLowestLoad :=
  { fileidToWorker := d.fileidToWorker
    balancer := d.balancer
    outstanding := outstanding }

/- What a notice asks of the policy. -/
def Notice.event (walk : List (Nat × List Uuid)) :
    Notice → ActiveLowestLoad.Event
| .started w key => .startedANewJob w key
| .finished w key => .finishedAJob w key
| .execute => .execute walk

/- A notice does to a dispatcher what the policy's step does. -/
theorem Dispatcher.step_of_runNotice
    {d d' : Dispatcher}
    {walk : List (Nat × List Uuid)}
    {notice : Notice}
    (hRun : d.runNotice walk notice = some d')
    (outstanding : List (Nat × Uuid))
    (hStarted :
      ∀ w key, notice = .finished w key →
        (w, key) ∈ outstanding) :
    ∃ outstanding',
      (d.activeLowestLoad outstanding).step
          (notice.event walk) =
        some (d'.activeLowestLoad outstanding') := by
  cases notice with
  | started w key =>
      cases hRun
      exact ⟨_, rfl⟩
  | finished w key =>
      cases hRun
      exact ⟨_, if_pos (hStarted w key rfl)⟩
  | execute =>
      simp only [runNotice] at hRun
      split at hRun
      · rename_i hWalk
        cases hRun
        exact ⟨_, if_pos hWalk⟩
      · cases hRun

----------
-- Counts And Jobs
----------

namespace ActiveLowestLoad

/-
  A count is the number of jobs that are out, or it is not
  positive, so that no job that finishes brings it to zero.
-/
def Tracked (p : ActiveLowestLoad) : Prop :=
  ∀ w key,
    p.balancer.counted w key = p.outstanding.count (w, key) ∨
      p.balancer.counted w key ≤ 0

theorem tracked_start : start.Tracked :=
  fun _ _ => Or.inr (Int.le_refl 0)

variable {p p' : ActiveLowestLoad} {w : Nat}
variable {key : Uuid}

theorem Tracked.started
    (hTracked : p.Tracked)
    (hCounted :
      p.balancer.counted w key =
        p.outstanding.count (w, key)) :
    Tracked
      { p with
        balancer := p.balancer.startedANewJob w key
        outstanding := (w, key) :: p.outstanding } := by
  intro v k
  simp only [Balancer.counted_startedANewJob,
    List.count_cons]
  by_cases hSame : (v, k) = (w, key)
  · cases hSame
    cases hKnown : p.balancer.workerFileMap.lookup w with
    | none =>
        -- the first job of a worker is not counted
        right
        have hNone : p.balancer.counted w key = 0 := by
          simp [Balancer.counted, Balancer.fileCount, hKnown]
        simp [hNone]
    | some info =>
        left
        simp [hCounted]
  · have hOther : ¬ (w, key) = (v, k) := fun h => hSame h.symm
    simpa [hSame, hOther] using hTracked v k

theorem Tracked.finished
    (hTracked : p.Tracked)
    (hStarted : (w, key) ∈ p.outstanding)
    (m : AList (fun _ : Uuid => Nat)) :
    Tracked
      { fileidToWorker := m
        balancer := p.balancer.finishedAJob w key
        outstanding := p.outstanding.erase (w, key) } := by
  intro v k
  simp only [Balancer.counted_finishedAJob]
  by_cases hSame : (v, k) = (w, key)
  · cases hSame
    have hOut := List.count_pos_iff.mpr hStarted
    rw [List.count_erase_self]
    rcases hTracked w key with hEqual | hLe
    · have hPos : 0 < p.balancer.counted w key := by omega
      left
      simp only [Balancer.isSome_of_counted hPos, true_and,
        if_true]
      omega
    · right
      split <;> omega
  · rw [List.count_erase_of_ne hSame, if_neg (by simp [hSame]),
      Int.sub_zero]
    exact hTracked v k

theorem Tracked.step
    {e : Event}
    (hTracked : p.Tracked)
    (hCounted : p.Counted e)
    (hStep : p.step e = some p') :
    p'.Tracked := by
  cases e with
  | assign key w | reschedule key =>
      cases hStep
      exact hTracked
  | startedANewJob w key =>
      cases hStep
      exact hTracked.started hCounted
  | finishedAJob w key =>
      simp only [ActiveLowestLoad.step] at hStep
      split at hStep
      · rename_i hStarted
        cases hStep
        exact hTracked.finished hStarted _
      · cases hStep
  | execute walk =>
      simp only [ActiveLowestLoad.step] at hStep
      split at hStep
      · cases hStep
        intro v k
        exact Or.inr (by simp [Balancer.counted_execute])
      · cases hStep
  | startTransfer walk =>
      simp only [ActiveLowestLoad.step] at hStep
      split at hStep
      · cases hStep
        intro v k
        exact Or.inr
          (by simp [Balancer.startTransfer,
            Balancer.counted_execute])
      · cases hStep

/- A job that finishes removes its own file, if it is counted out. -/
theorem finishes_of_removes
    {key file : Uuid}
    (hStep : p.step (.finishedAJob w key) = some p')
    (hRemoves : p.Removes p' file) :
    file = key ∧ p.balancer.finishes w key = true := by
  simp only [ActiveLowestLoad.step] at hStep
  split at hStep
  · cases hStep
    simp only [Removes, Balancer.finishedAJob] at hRemoves
    cases hFinishes : p.balancer.finishes w key with
    | false =>
        simp [hFinishes] at hRemoves
    | true =>
        refine ⟨?_, rfl⟩
        by_contra hOther
        simp [hFinishes, hOther] at hRemoves
  · cases hStep

theorem Tracked.removes_idle
    (hTracked : p.Tracked)
    (e : Event) :
    p.RemovesIdle e := by
  cases e with
  | finishedAJob w key =>
      intro p' hStep file hRemoves
      rcases finishes_of_removes hStep hRemoves with
        ⟨hFile, hFinishes⟩
      subst hFile
      have hOne := Balancer.counted_of_finishes hFinishes
      have hLast : p.outstanding.count (w, file) = 1 := by
        rcases hTracked w file with hEqual | hLe
        · omega
        · omega
      have hLeft :
          p'.outstanding = p.outstanding.erase (w, file) := by
        simp only [Option.mem_def, ActiveLowestLoad.step]
          at hStep
        split at hStep
        · cases hStep
          rfl
        · cases hStep
      rw [hLeft, ← List.count_eq_zero, List.count_erase_self,
        hLast]
  | assign key w | reschedule key | startedANewJob w key
  | execute walk | startTransfer walk => trivial

/-
  In every run in which each job starts while the jobs of
  its file at its worker are all counted, a job that
  finishes removes a file only if no job of the file is out
  at its worker.
-/
theorem removes_idle_of_counted
    (es : List Event)
    (hCounted : Along step Counted start es) :
    Along step RemovesIdle start es := by
  refine along_of_invariant ?_ ?_ tracked_start
    hCounted
  · intro p e p' hTracked hCond hStep
    exact hTracked.step hCond hStep
  · intro p e hTracked _
    exact hTracked.removes_idle e

def sampleFile : Uuid := Vector.replicate 32 1

def otherFile : Uuid := Vector.replicate 32 2

/-
  The jobs of two files at a worker finish. Then the second
  file is to be moved away from the worker, and a job of it
  is started there again.
-/
def movedAway : List Event :=
  [.assign sampleFile 0,
    .startedANewJob 0 sampleFile,
    .finishedAJob 0 sampleFile,
    .startedANewJob 0 sampleFile,
    .startedANewJob 0 otherFile,
    .finishedAJob 0 sampleFile,
    .finishedAJob 0 otherFile,
    .execute [(0, [otherFile, sampleFile])],
    .startTransfer [(0, [otherFile, sampleFile])],
    .assign otherFile 0,
    .startedANewJob 0 otherFile]

/- A job of a file finishes after a run, and removes it. -/
def RemovedAfter
    (es : List Event)
    (w : Nat)
    (key : Uuid)
    (p' : ActiveLowestLoad) : Prop :=
  ∃ p,
    run step start es = some p ∧
      p.step (.finishedAJob w key) = some p' ∧
      p.Removes p' key

theorem removes_idle_movedAway :
    (∃ p', RemovedAfter movedAway 0 otherFile p') ∧
      Along step RemovesIdle start
        (movedAway ++ [.finishedAJob 0 otherFile]) := by
  constructor
  · exact ⟨_, _, rfl, rfl, by decide +kernel⟩
  · exact removes_idle_of_counted _ (by decide +kernel)

/-
  The first job of a worker is not in the count of its file,
  so that the second one brings the count to zero.
-/
def firstUncounted : List Event :=
  [.assign sampleFile 0,
    .startedANewJob 0 sampleFile,
    .startedANewJob 0 sampleFile]

/-
  The counts are set to zero while a job is out, and the
  next job of its file brings the count to zero again.
-/
def resetWhileOut : List Event :=
  [.startedANewJob 0 otherFile,
    .assign sampleFile 0,
    .startedANewJob 0 sampleFile,
    .execute [(0, [sampleFile])],
    .startedANewJob 0 sampleFile]

theorem not_removes_idle_of_removedAfter
    {es : List Event}
    (hRemoved : RemovedAfter es w key p')
    (hOut : (w, key) ∈ p'.outstanding) :
    ¬ Along step RemovesIdle start
      (es ++ [.finishedAJob w key]) := by
  rcases hRemoved with ⟨p, hRun, hStep, hRemoves⟩
  intro hAlong
  have hLast := ((along_append hRun).mp hAlong).2.1
  exact hLast p' hStep key hRemoves hOut

/- Files are removed while a job of them is out. -/
theorem removed_while_out :
    ¬ Along step RemovesIdle start
        (firstUncounted ++ [.finishedAJob 0 sampleFile]) ∧
      ¬ Along step RemovesIdle start
        (resetWhileOut ++ [.finishedAJob 0 sampleFile]) := by
  constructor
  · exact not_removes_idle_of_removedAfter
      ⟨_, rfl, rfl, by decide +kernel⟩ (by decide +kernel)
  · exact not_removes_idle_of_removedAfter
      ⟨_, rfl, rfl, by decide +kernel⟩ (by decide +kernel)

end ActiveLowestLoad

end Proxy

end Slfs
