import Mathlib.Data.List.Count
import Slfs.Lib.Transition

/-
  The writer of a socket, first version.

  A caller that finds nothing being written starts with the
  first packet of the queue, and every completion goes on with
  the next. Only single steps are atomic: a push, a pop, a
  load or a store of the flag.

  Main declarations:
    * `SocketWriter.Owned`, the invariant
    * `SocketWriter.sound_of_alone`
-/

----------
-- The Writer
----------

namespace Slfs

open Transition

namespace SocketWriter

/-
  Where a caller of `start_write_socket`, or a completion,
  stands: what it does next.
-/
inductive Task (α : Type) where
| loading
| storing
| popping
| handing (job : α)
| clearing
deriving DecidableEq, Repr

namespace Task

variable {α : Type}

def loads : Task α → Bool
| .loading => true
| _ => false

def stores : Task α → Bool
| .storing => true
| _ => false

/- It has set the flag, and has not cleared it yet. -/
def writes : Task α → Bool
| .loading => false
| .storing => false
| _ => true

/- It has found the flag cleared, or was called back. -/
def owns (t : Task α) : Bool :=
  t.writes || t.stores

def job? : Task α → Option α
| .handing job => some job
| _ => none

end Task

end SocketWriter

/-
  The queue and the flag, the tasks that are under way, and
  the writes that are not completed. All packets that were
  pushed and all that were handed to `async_write` are kept.
-/
structure SocketWriter (α : Type) where
  writeQueue : List α
  isWriting : Bool
  tasks : List (SocketWriter.Task α)
  outstanding : List α
  pushed : List α
  handed : List α
deriving DecidableEq, Repr

namespace SocketWriter

variable {α : Type}

def start : SocketWriter α :=
  { writeQueue := []
    isWriting := false
    tasks := []
    outstanding := []
    pushed := []
    handed := [] }

/- The next step of a task. -/
def advance
    (s : SocketWriter α)
    (i : Nat) : Task α → SocketWriter α
| .loading =>
    if s.isWriting then
      { s with tasks := s.tasks.eraseIdx i }
    else { s with tasks := s.tasks.set i .storing }
| .storing =>
    { s with
      isWriting := true
      tasks := s.tasks.set i .popping }
| .popping =>
    match s.writeQueue with
    | [] => { s with tasks := s.tasks.set i .clearing }
    | job :: rest =>
        { s with
          writeQueue := rest
          tasks := s.tasks.set i (.handing job) }
| .handing job =>
    { s with
      tasks := s.tasks.eraseIdx i
      outstanding := s.outstanding ++ [job]
      handed := s.handed ++ [job] }
| .clearing =>
    { s with
      isWriting := false
      tasks := s.tasks.eraseIdx i }

inductive Event (α : Type) where
| push (job : α)
| next (task : Nat)
| complete (write : Nat) (failed : Bool)
deriving DecidableEq, Repr

def step (s : SocketWriter α) :
    Event α → Option (SocketWriter α)
| .push job =>
    some
      { s with
        writeQueue := s.writeQueue ++ [job]
        tasks := s.tasks ++ [.loading]
        pushed := s.pushed ++ [job] }
| .next i => do
    let task ← s.tasks[i]?
    some (s.advance i task)
| .complete i failed => do
    let _ ← s.outstanding[i]?
    some
      { s with
        outstanding := s.outstanding.eraseIdx i
        tasks :=
          s.tasks ++
            [if failed then .clearing else .popping] }

/- The packet that an event hands to `async_write`. -/
def hands (s : SocketWriter α) : Event α → Option α
| .next i => s.tasks[i]?.bind Task.job?
| _ => none

def Event.pushes : Event α → Option α
| .push job => some job
| _ => none

/- What is popped and not handed yet, and the queue. -/
def waiting (s : SocketWriter α) : List α :=
  s.tasks.filterMap Task.job? ++ s.writeQueue

/-
  At most one write is outstanding, packets are handed in
  the order in which they were pushed and each once, and
  while there are packets in the queue something goes on.
-/
structure Sound (s : SocketWriter α) : Prop where
  one : s.outstanding.length ≤ 1
  inOrder : s.handed <+: s.pushed
  awake :
    s.writeQueue ≠ [] → s.outstanding ≠ [] ∨ s.tasks ≠ []

/-
  The flag is not found cleared while another caller, which
  has also found it cleared, is to set it. And it is not
  cleared over a queue with packets, unless some caller is
  still to look at it.
-/
def Alone (s : SocketWriter α) : Event α → Prop
| .next i =>
    match s.tasks[i]? with
    | some .loading =>
        s.isWriting = true ∨ s.tasks.countP Task.stores = 0
    | some .clearing =>
        s.writeQueue.isEmpty = true ∨
          s.tasks.any Task.loads = true
    | _ => True
| _ => True

instance (s : SocketWriter α) (e : Event α) :
    Decidable (s.Alone e) := by
  unfold Alone
  split
  · split <;> infer_instance
  · infer_instance

----------
-- Frames
----------

variable {i : Nat} {tasks : List (Task α)}
variable {task : Task α}

/- A list at one of its places. -/
theorem exists_split
    {β : Type}
    {list : List β}
    {x : β}
    (hAt : list[i]? = some x) :
    ∃ front back,
      list = front ++ x :: back ∧
        (∀ y, list.set i y = front ++ y :: back) ∧
        list.eraseIdx i = front ++ back := by
  rcases List.getElem?_eq_some_iff.mp hAt with ⟨hi, rfl⟩
  refine ⟨list.take i, list.drop (i + 1), ?_, ?_, ?_⟩
  · rw [List.getElem_cons_drop, List.take_append_drop]
  · intro y
    rw [List.set_eq_take_append_cons_drop, if_pos hi]
  · rw [List.eraseIdx_eq_take_drop_succ]

theorem countP_at
    (hTask : tasks[i]? = some task)
    (p : Task α → Bool) :
    tasks.countP p =
      (tasks.eraseIdx i).countP p + if p task then 1 else 0 := by
  rcases exists_split hTask with ⟨front, back, hTasks, _, hErase⟩
  rw [hErase, hTasks]
  simp only [List.countP_append, List.countP_cons]
  omega

theorem countP_set
    (hTask : tasks[i]? = some task)
    (p : Task α → Bool)
    (task' : Task α) :
    (tasks.set i task').countP p =
      (tasks.eraseIdx i).countP p + if p task' then 1 else 0 := by
  rcases exists_split hTask with ⟨front, back, _, hSet, hErase⟩
  rw [hErase, hSet]
  simp only [List.countP_append, List.countP_cons]
  omega

theorem jobs_set
    (hTask : tasks[i]? = some task)
    (hNone : (tasks.eraseIdx i).filterMap Task.job? = [])
    (task' : Task α) :
    (tasks.set i task').filterMap Task.job? =
      task'.job?.toList := by
  rcases exists_split hTask with ⟨front, back, _, hSet, hErase⟩
  rw [hErase, List.filterMap_append,
    List.append_eq_nil_iff] at hNone
  rw [hSet, List.filterMap_append, List.filterMap_cons,
    hNone.1, hNone.2]
  cases task'.job? <;> rfl

theorem jobs_at
    (hTask : tasks[i]? = some task)
    (hNone : (tasks.eraseIdx i).filterMap Task.job? = []) :
    tasks.filterMap Task.job? = task.job?.toList := by
  have hJobs := jobs_set hTask hNone task
  rcases List.getElem?_eq_some_iff.mp hTask with ⟨hi, rfl⟩
  rwa [List.set_getElem_self] at hJobs

theorem pushed_advance
    (s : SocketWriter α)
    (i : Nat)
    (task : Task α) :
    (s.advance i task).pushed = s.pushed := by
  cases task with
  | loading | popping =>
      simp only [advance]
      split <;> rfl
  | _ => rfl

theorem handed_advance
    (s : SocketWriter α)
    (i : Nat)
    (task : Task α) :
    (s.advance i task).handed =
      s.handed ++ task.job?.toList := by
  cases task with
  | loading | popping =>
      simp only [advance]
      split <;> simp [Task.job?]
  | handing job => rfl
  | _ => simp [advance, Task.job?]

/- Logs grow by what an event pushes and hands over. -/
theorem logs_step
    {s s' : SocketWriter α}
    {e : Event α}
    (hStep : s.step e = some s') :
    s'.pushed = s.pushed ++ e.pushes.toList ∧
      s'.handed = s.handed ++ (s.hands e).toList := by
  cases e with
  | push job =>
      cases hStep
      simp [Event.pushes, hands]
  | next i =>
      simp only [step, Option.bind_eq_bind,
        Option.bind_eq_some_iff] at hStep
      rcases hStep with ⟨task, hTask, hNext⟩
      cases hNext
      simp [Event.pushes, hands, hTask, pushed_advance,
        handed_advance]
  | complete i failed =>
      simp only [step, Option.bind_eq_bind,
        Option.bind_eq_some_iff] at hStep
      rcases hStep with ⟨_, _, hNext⟩
      cases hNext
      simp [Event.pushes, hands]

----------
-- The Owner
----------

/-
  One task or one write owns the socket, and the flag tells
  whether there is an owner that has set it.
-/
structure Owned (s : SocketWriter α) : Prop where
  one :
    s.tasks.countP Task.owns + s.outstanding.length ≤ 1
  flag :
    s.isWriting = true ↔
      0 < s.tasks.countP Task.writes + s.outstanding.length
  inOrder : s.pushed = s.handed ++ s.waiting
  awake :
    s.writeQueue ≠ [] →
      0 < s.outstanding.length + s.tasks.length

/- An owner has set the flag, or is to set it. -/
theorem countP_owns (tasks : List (Task α)) :
    tasks.countP Task.owns =
      tasks.countP Task.writes + tasks.countP Task.stores := by
  induction tasks with
  | nil => rfl
  | cons task tasks ih =>
      simp only [List.countP_cons, ih]
      cases task <;>
        simp [Task.owns, Task.writes, Task.stores] <;> omega

/- Without an owner, nothing is in hand. -/
theorem jobs_of_countP
    (hNone : tasks.countP Task.owns = 0) :
    tasks.filterMap Task.job? = [] := by
  rw [List.filterMap_eq_nil_iff]
  intro task hMem
  have hOwns := List.countP_eq_zero.mp hNone task hMem
  cases task with
  | handing job => simp [Task.owns, Task.writes] at hOwns
  | _ => rfl

namespace Owned

variable {s : SocketWriter α}

theorem sound (hOwned : s.Owned) : s.Sound where
  one := by
    have hOne := hOwned.one
    omega
  inOrder := by
    rw [hOwned.inOrder]
    exact List.prefix_append _ _
  awake := by
    intro hQueue
    have hAwake := hOwned.awake hQueue
    by_cases hOut : s.outstanding = []
    · right
      intro hTasks
      simp [hOut, hTasks] at hAwake
    · exact .inl hOut

theorem start : Owned (SocketWriter.start (α := α)) := by
  constructor <;> simp [SocketWriter.start, waiting]

theorem push
    (hOwned : s.Owned)
    (job : α) :
    Owned
      { s with
        writeQueue := s.writeQueue ++ [job]
        tasks := s.tasks ++ [.loading]
        pushed := s.pushed ++ [job] } where
  one := by
    simpa [Task.owns, Task.writes, Task.stores] using
      hOwned.one
  flag := by
    simpa [Task.writes] using hOwned.flag
  inOrder := by
    simp [hOwned.inOrder, waiting, Task.job?]
  awake := by
    intro _
    simp only [List.length_append, List.length_singleton]
    omega

variable {i : Nat} {job : α} {task : Task α}
variable {s' : SocketWriter α} {e : Event α}

/- The write that completes becomes a task. -/
theorem complete
    (hOwned : s.Owned)
    (hWrite : s.outstanding[i]? = some job)
    (failed : Bool) :
    Owned
      { s with
        outstanding := s.outstanding.eraseIdx i
        tasks :=
          s.tasks ++
            [if failed then .clearing else .popping] } := by
  rcases exists_split hWrite with ⟨front, back, hList, _, hErase⟩
  have hOne := hOwned.one
  have hFlag := hOwned.flag
  have hInOrder := hOwned.inOrder
  rw [hList] at hOne hFlag
  simp only [List.length_append, List.length_cons] at hOne hFlag
  have hTask :
      ∃ task : Task α,
        (if failed then Task.clearing else .popping) = task ∧
          task.owns = true ∧ task.writes = true ∧
          task.job? = none := by
    cases failed with
    | false => exact ⟨.popping, rfl, rfl, rfl, rfl⟩
    | true => exact ⟨.clearing, rfl, rfl, rfl, rfl⟩
  rcases hTask with ⟨task, hEq, hOwns, hWrites, hJob⟩
  rw [hEq, hErase]
  constructor
  case one =>
    simp only [List.countP_append, List.countP_singleton,
      hOwns, List.length_append, if_true]
    omega
  case flag =>
    simp only [List.countP_append, List.countP_singleton,
      hWrites, List.length_append, if_true]
    rw [hFlag]
    omega
  case inOrder =>
    simp [hInOrder, waiting, hJob]
  case awake =>
    intro _
    simp only [List.length_append, List.length_singleton]
    omega

section

variable (hOwned : s.Owned)
variable (hTask : s.tasks[i]? = some task)
include hOwned hTask

/- An owner is the only one. -/
theorem rest_of_owner
    (hOwns : task.owns = true) :
    (s.tasks.eraseIdx i).countP Task.owns = 0 ∧
      s.outstanding = [] := by
  have hOne := hOwned.one
  rw [countP_at hTask, if_pos hOwns] at hOne
  refine ⟨by omega, ?_⟩
  exact List.eq_nil_of_length_eq_zero (by omega)

theorem isWriting_of_task
    (hWrites : task.writes = true) :
    s.isWriting = true := by
  rw [hOwned.flag, countP_at hTask, if_pos hWrites]
  omega

/- What is pushed, where an owner is at one place. -/
theorem pushed_of_rest
    (hRest : (s.tasks.eraseIdx i).countP Task.owns = 0) :
    s.pushed =
      s.handed ++ (task.job?.toList ++ s.writeQueue) := by
  rw [hOwned.inOrder, waiting,
    jobs_at hTask (jobs_of_countP hRest)]

end

/- One place of the tasks is the owner. -/
theorem of_set
    {tasks : List (Task α)}
    {task' : Task α}
    (hTask : tasks[i]? = some task)
    (hRest : (tasks.eraseIdx i).countP Task.owns = 0)
    (hTasks : s'.tasks = tasks.set i task')
    (hOut : s'.outstanding = [])
    (hOwns : task'.owns = true)
    (hFlag : s'.isWriting = task'.writes)
    (hPushed :
      s'.pushed =
        s'.handed ++ (task'.job?.toList ++ s'.writeQueue)) :
    s'.Owned := by
  have hSum := countP_owns (tasks.eraseIdx i)
  constructor
  case one =>
    rw [hTasks, countP_set hTask, if_pos hOwns, hOut, hRest]
    exact Nat.le_refl 1
  case flag =>
    have hNone : (tasks.eraseIdx i).countP Task.writes = 0 := by
      omega
    rw [hTasks, countP_set hTask, hOut, hFlag, hNone]
    cases task'.writes <;> simp
  case inOrder =>
    rw [hPushed, waiting, hTasks,
      jobs_set hTask (jobs_of_countP hRest)]
  case awake =>
    intro _
    rw [hTasks, List.length_set]
    rcases List.getElem?_eq_some_iff.mp hTask with ⟨hi, _⟩
    omega

/- No task is the owner, but a write may be. -/
theorem of_rest
    (hRest : s'.tasks.countP Task.owns = 0)
    (hOut : s'.outstanding.length ≤ 1)
    (hFlag :
      s'.isWriting = true ↔ 0 < s'.outstanding.length)
    (hPushed : s'.pushed = s'.handed ++ s'.writeQueue)
    (hAwake :
      s'.writeQueue ≠ [] →
        0 < s'.outstanding.length + s'.tasks.length) :
    s'.Owned := by
  have hSum := countP_owns s'.tasks
  have hNone : s'.tasks.countP Task.writes = 0 := by
    omega
  constructor
  case one =>
    rw [hRest]
    omega
  case flag =>
    rw [hNone, Nat.zero_add]
    exact hFlag
  case inOrder =>
    rw [hPushed, waiting, jobs_of_countP hRest,
      List.nil_append]
  case awake => exact hAwake

section

variable (hOwned : s.Owned)
include hOwned

/- A caller that finds the flag set leaves. -/
theorem leave
    (hTask : s.tasks[i]? = some .loading)
    (hSet : s.isWriting = true) :
    Owned { s with tasks := s.tasks.eraseIdx i } := by
  have hOwns :
      (s.tasks.eraseIdx i).countP Task.owns =
        s.tasks.countP Task.owns :=
    (countP_at hTask Task.owns).symm
  have hWrites :
      (s.tasks.eraseIdx i).countP Task.writes =
        s.tasks.countP Task.writes :=
    (countP_at hTask Task.writes).symm
  rcases exists_split hTask with
    ⟨front, back, hTasks, _, hErase⟩
  constructor
  case one =>
    simp only [hOwns]
    exact hOwned.one
  case flag =>
    simp only [hWrites]
    exact hOwned.flag
  case inOrder =>
    have hJobs :
        (s.tasks.eraseIdx i).filterMap Task.job? =
          s.tasks.filterMap Task.job? := by
      rw [hErase, hTasks, List.filterMap_append,
        List.filterMap_append]
      rfl
    simp only [hOwned.inOrder, waiting, hJobs]
  case awake =>
    -- whoever has set the flag is still there
    intro _
    have hOwner := hOwned.flag.mp hSet
    have hLength :=
      List.countP_le_length
        (l := s.tasks.eraseIdx i) (p := Task.writes)
    dsimp only
    omega

/- A caller that finds the flag cleared becomes the owner. -/
theorem enter
    (hTask : s.tasks[i]? = some .loading)
    (hCleared : s.isWriting = false)
    (hStores : s.tasks.countP Task.stores = 0) :
    Owned { s with tasks := s.tasks.set i .storing } := by
  have hNone :
      ¬ 0 < s.tasks.countP Task.writes +
        s.outstanding.length := by
    rw [← hOwned.flag, hCleared]
    exact Bool.false_ne_true
  have hSum := countP_owns s.tasks
  have hAt :
      s.tasks.countP Task.owns =
        (s.tasks.eraseIdx i).countP Task.owns :=
    countP_at hTask Task.owns
  have hRest : (s.tasks.eraseIdx i).countP Task.owns = 0 := by
    omega
  have hOut : s.outstanding = [] :=
    List.eq_nil_of_length_eq_zero (by omega)
  have hPushed := hOwned.pushed_of_rest hTask hRest
  exact of_set hTask hRest rfl hOut rfl hCleared hPushed

theorem popping
    (hTask : s.tasks[i]? = some .popping) :
    (s.advance i .popping).Owned := by
  rcases hOwned.rest_of_owner hTask rfl with ⟨hRest, hOut⟩
  have hPushed := hOwned.pushed_of_rest hTask hRest
  have hFlag := hOwned.isWriting_of_task hTask rfl
  simp only [advance]
  cases hQueue : s.writeQueue with
  | nil | cons job rest =>
      refine of_set hTask hRest rfl hOut rfl hFlag ?_
      simpa [hQueue, Task.job?] using hPushed

theorem handing
    (hTask : s.tasks[i]? = some (.handing job)) :
    (s.advance i (.handing job)).Owned := by
  rcases hOwned.rest_of_owner hTask rfl with ⟨hRest, hOut⟩
  have hPushed := hOwned.pushed_of_rest hTask hRest
  have hFlag := hOwned.isWriting_of_task hTask rfl
  unfold advance
  apply of_rest
  · exact hRest
  · simp [hOut]
  · simp [hOut, hFlag]
  · simpa [Task.job?] using hPushed
  · intro _
    simp only [List.length_append, List.length_singleton]
    omega

/- The queue is empty, or a caller is to look at the flag. -/
theorem clearing
    (hTask : s.tasks[i]? = some .clearing)
    (hAlone :
      s.writeQueue.isEmpty = true ∨
        s.tasks.any Task.loads = true) :
    (s.advance i .clearing).Owned := by
  rcases hOwned.rest_of_owner hTask rfl with ⟨hRest, hOut⟩
  have hPushed := hOwned.pushed_of_rest hTask hRest
  unfold advance
  apply of_rest
  · exact hRest
  · simp [hOut]
  · simp [hOut]
  · simpa [Task.job?] using hPushed
  · intro hQueue
    rcases hAlone with hEmpty | hLoads
    · exact absurd (List.isEmpty_iff.mp hEmpty) hQueue
    · -- that caller is not the one that clears the flag
      have hPos : 0 < s.tasks.countP Task.loads := by
        rw [List.countP_pos_iff]
        simpa using hLoads
      have hAt :
          s.tasks.countP Task.loads =
            (s.tasks.eraseIdx i).countP Task.loads :=
        countP_at hTask Task.loads
      have hLength :=
        List.countP_le_length
          (l := s.tasks.eraseIdx i) (p := Task.loads)
      dsimp only
      omega

theorem advance
    (hTask : s.tasks[i]? = some task)
    (hAlone : s.Alone (.next i)) :
    (s.advance i task).Owned := by
  simp only [Alone, hTask] at hAlone
  cases task with
  | loading =>
      by_cases hSet : s.isWriting = true
      · rw [SocketWriter.advance, if_pos hSet]
        exact hOwned.leave hTask hSet
      · rw [SocketWriter.advance, if_neg hSet]
        exact hOwned.enter hTask (Bool.eq_false_iff.mpr hSet)
          (hAlone.resolve_left hSet)
  | storing =>
      rcases hOwned.rest_of_owner hTask rfl with
        ⟨hRest, hOut⟩
      have hPushed := hOwned.pushed_of_rest hTask hRest
      exact of_set hTask hRest rfl hOut rfl rfl hPushed
  | popping => exact hOwned.popping hTask
  | handing job => exact hOwned.handing hTask
  | clearing => exact hOwned.clearing hTask hAlone

theorem step
    (hAlone : s.Alone e)
    (hStep : s.step e = some s') :
    s'.Owned := by
  cases e with
  | push job =>
      cases hStep
      exact hOwned.push job
  | next i =>
      simp only [SocketWriter.step, Option.bind_eq_bind,
        Option.bind_eq_some_iff] at hStep
      rcases hStep with ⟨task, hTask, hNext⟩
      cases hNext
      exact hOwned.advance hTask hAlone
  | complete i failed =>
      simp only [SocketWriter.step, Option.bind_eq_bind,
        Option.bind_eq_some_iff] at hStep
      rcases hStep with ⟨job, hWrite, hNext⟩
      cases hNext
      exact hOwned.complete hWrite failed

/- What waits after a step, in terms of what waited before. -/
theorem waiting_step
    (hAlone : s.Alone e)
    (hStep : s.step e = some s') :
    (s.hands e).toList ++ s'.waiting =
      s.waiting ++ e.pushes.toList := by
  have hBefore := hOwned.inOrder
  have hAfter := (hOwned.step hAlone hStep).inOrder
  rcases logs_step hStep with ⟨hPushed, hHanded⟩
  rw [hPushed, hHanded, hBefore,
    List.append_assoc, List.append_assoc] at hAfter
  exact (List.append_cancel_left hAfter).symm

end

end Owned

/-
  In a run whose steps all meet the condition, the writer is
  sound in every state.
-/
theorem sound_of_alone
    {es : List (Event α)}
    {s : SocketWriter α}
    (hRun : run step start es = some s)
    (hAlong : Along step Alone start es) :
    s.Sound := by
  have hOwned : s.Owned := by
    apply invariant_of_run
      (I := Owned) ?_ Owned.start hRun hAlong
    intro t e t' hOwned hAlone hStep
    exact hOwned.step hAlone hStep
  exact hOwned.sound

----------
-- Samples
----------

/- Two packets, the second while the first is written. -/
def twoPackets : List (Event Nat) :=
  [.push 1, .next 0, .next 0, .next 0, .next 0, .push 2,
    .next 0, .complete 0 false, .next 0, .next 0]

theorem sound_of_alone_twoPackets :
    ∃ s,
      run step start twoPackets = some s ∧
        s.handed = [1, 2] ∧ s.Sound := by
  have hAlong :
      Along step Alone start twoPackets := by
    decide +kernel
  exact ⟨_, rfl, by decide +kernel,
    sound_of_alone rfl hAlong⟩

/-
  Two callers find the flag cleared, and two writes are
  outstanding. A caller finds the flag set by a task that is
  about to clear it, or a write fails: the packet is left in
  the queue.
-/
theorem unsound_runs :
    (∃ s : SocketWriter Nat,
      run step start
          [.push 1, .push 2, .next 0, .next 1, .next 0, .next 1,
            .next 0, .next 0, .next 0, .next 0] = some s ∧
        s.outstanding = [1, 2]) ∧
      (∃ s : SocketWriter Nat,
        run step start
            [.push 1, .next 0, .next 0, .next 0, .next 0,
              .complete 0 false, .next 0, .push 2, .next 1,
              .next 0] = some s ∧
          s.writeQueue = [2] ∧ s.outstanding = [] ∧
          s.tasks = []) ∧
      (∃ s : SocketWriter Nat,
        run step start
            [.push 1, .next 0, .next 0, .next 0, .next 0,
              .push 2, .next 0, .complete 0 true,
              .next 0] = some s ∧
          s.writeQueue = [2] ∧ s.outstanding = [] ∧
          s.tasks = []) := by
  refine ⟨⟨_, rfl, ?_⟩, ⟨_, rfl, ?_⟩, ⟨_, rfl, ?_⟩⟩
  · decide +kernel
  · decide +kernel
  · decide +kernel

end SocketWriter

end Slfs
