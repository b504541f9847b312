import Mathlib.Algebra.Order.BigOperators.Group.List
import Mathlib.Algebra.Order.Group.Nat
import Slfs.DataFunction.Chain
import Slfs.DataFunction.UniqueNames

/-
  What a request has done when it replies an error.

  If every deadline passes after the last answer, a request
  calls `next` once, and one that executes its write replies
  `OK`. A timer that fires earlier replies an error and leaves
  the answers to come, which write all the same. The first
  prepare of a block leaves an empty one even after a rollback.

  Main declarations:
    * `Chain.Orderly`
    * `Scene.no_effect_of_error`
-/

----------
-- Reads In Time
----------

namespace Slfs

open Transition
open StorageConf (standard)

namespace Reading

variable {conf : StorageConf}

/- A read that has not been overtaken by its timer. -/
structure Timely (conf : StorageConf) (r : Reading) : Prop where
  slots :
    r.reader.results.length = (chunks conf r.range).length
  waits : ¬ r.Called → r.timer = .armed
  done :
    r.Called →
      r.timer = .cancelled ∧
        ∀ i : Nat, r.reader.results[i]? ≠ some none

/- A read whose callback has not been called yet. -/
def live (r : Reading) : Nat :=
  if r.Called then 0 else 1

variable {r : Reading} {i : Nat}

theorem live_of_called
    (h : r.Called) :
    r.live = 0 :=
  if_pos h

theorem live_of_not_called
    (h : ¬ r.Called) :
    r.live = 1 :=
  if_neg h

theorem not_called_start (call : Cont × Range) :
    ¬ (start conf call).Called := by
  intro h
  exact h rfl

theorem timely_start (call : Cont × Range) :
    (start conf call).Timely conf where
  slots := List.length_replicate
  waits := fun _ => rfl
  done := fun h => absurd h (not_called_start call)

theorem called_onNothing (r : Reading) :
    r.onNothing.Called := by
  simp [Called, onNothing]

/- A read of nothing has no slots. -/
theorem Timely.onNothing
    (h : r.Timely conf)
    (hSize : r.range.size = 0)
    (hNew : ¬ r.Called) :
    r.onNothing.Timely conf := by
  have hChunks : chunks conf r.range = [] := by
    unfold chunks Cluster.readChunks
    rw [hSize, Nat.add_zero]
    exact Chunks.chunks_of_le (Nat.mod_le _ _)
  have hNone : r.reader.results = [] := by
    have hLength := h.slots
    rw [hChunks] at hLength
    exact List.length_eq_zero_iff.mp hLength
  refine
    { slots := h.slots
      waits := fun hNot => absurd (called_onNothing r) hNot
      done := fun _ => ⟨?_, ?_⟩ }
  · simp [Reading.onNothing, h.waits hNew, Timer.cancel]
  · simp [Reading.onNothing, hNone]

/- An answer that is still missing belongs to a live read. -/
theorem Timely.not_called
    (h : r.Timely conf)
    (hSlot : r.reader.results[i]? = some none) :
    ¬ r.Called :=
  fun hCalled => (h.done hCalled).2 i hSlot

theorem Timely.onResponse
    (h : r.Timely conf)
    (hSlot : r.reader.results[i]? = some none)
    (buf : Bytes) :
    (r.onResponse i buf).Timely conf := by
  have hNew := h.not_called hSlot
  have hReplies : r.reader.replies = [] := by
    simpa [Called] using hNew
  have hArmed := h.waits hNew
  by_cases hAll :
      (r.reader.results.set i (some buf)).all Option.isSome
  · refine
      { slots := ?_
        waits := ?_
        done := fun _ => ⟨?_, ?_⟩ }
    · simpa [Reading.onResponse, Reader.onResponse, hAll]
        using h.slots
    · intro hNot
      exact absurd hNot (by
        simp [Called, Reading.onResponse, Reader.onResponse,
          hAll])
    · simp [Reading.onResponse, Reader.onResponse, hAll,
        hArmed, Timer.cancel]
    · intro j hj
      simp only [Reading.onResponse, Reader.onResponse,
        if_pos hAll] at hj
      have hSome := List.all_eq_true.mp hAll none
        (List.mem_of_getElem? hj)
      exact absurd hSome (by decide)
  · refine
      { slots := ?_
        waits := fun _ => ?_
        done := ?_ }
    · simpa [Reading.onResponse, Reader.onResponse, hAll]
        using h.slots
    · simp [Reading.onResponse, Reader.onResponse, hAll,
        hArmed, hReplies]
    · intro hCalled
      exact absurd hCalled (by
        simp [Called, Reading.onResponse, Reader.onResponse,
          hAll, hReplies])

/- A deadline after the last answer finds a cancelled timer. -/
theorem Timely.expire
    (h : r.Timely conf)
    (hCalled : r.Called) :
    { r with timer := r.timer.expire }.Timely conf where
  slots := h.slots
  waits := fun hNot => absurd hCalled hNot
  done := fun _ => by
    refine ⟨?_, (h.done hCalled).2⟩
    simp [(h.done hCalled).1, Timer.expire]

end Reading

----------
-- Callbacks And The Reads That They Leave
----------

open DataFunction

/- The callback belongs to a part of a renaming. -/
def Cont.part : Cont → Bool
| .directory | .renameSource | .file => false
| .renameDestination _ | .renameFile => true

namespace Outcome

/- The reads that an outcome starts. -/
def reads : Outcome → List (Cont × Range)
| .read reads => reads
| _ => []

/- The outcome calls `next` or leaves that to a commit. -/
def Closes : Outcome → Prop
| .reply _ | .commit _ => True
| _ => False

end Outcome

/-
  A callback has run while `n` other reads are live: the reads
  that are live now are those that a renaming waits for, and
  none are left if `next` is called.
-/
structure Resumed.Balanced
    (join : Option Join)
    (n : Nat)
    (done : Resumed) :
    Prop where
  keeps : join.isSome → done.join.isSome
  parts :
    ∀ r ∈ done.outcome.reads, r.1.part = done.join.isSome
  alone :
    done.join = none → n + done.outcome.reads.length ≤ 1
  joined :
    ∀ j ∈ done.join,
      j.outstandingRequests =
        ((n + done.outcome.reads.length : Nat) : Int)
  closed :
    done.outcome.Closes → n + done.outcome.reads.length = 0

/- A callback that replies or writes as the only one left. -/
theorem Resumed.balanced_of_closes
    {done : Resumed}
    (hJoin : done.join = none)
    (hReads : done.outcome.reads = []) :
    done.Balanced none 0 where
  keeps := by simp
  parts := by simp [hReads]
  alone := by simp [hReads]
  joined := by simp [hJoin]
  closed := by simp [hReads]

variable {erased : List Uuid}

/- The directory is read again. -/
theorem Resumed.balanced_of_read
    {read : Cont × Range}
    (hPart : read.1.part = false) :
    (Resumed.mk none erased (.read [read])).Balanced none 0 where
  keeps := by simp
  parts := by simp [Outcome.reads, hPart]
  alone := by simp [Outcome.reads]
  joined := by simp
  closed := by simp [Outcome.Closes]

/- The last part of a renaming finds no other read live. -/
theorem Join.finish_balanced
    {input : Jsre.Request}
    {info : Jsre.RenameInfo}
    {old j : Join}
    {n : Nat}
    (hJoin : j.outstandingRequests = (n : Int) + 1) :
    (Resumed.mk (some (j.finish input info).1) erased
      (j.finish input info).2).Balanced (some old) n := by
  have hLeft : j.outstandingRequests - 1 = (n : Int) := by
    omega
  have hCount :
      (j.finish input info).1.outstandingRequests = n := by
    unfold finish
    simp only []
    repeat' split
    all_goals exact hLeft
  have hReads : (j.finish input info).2.reads = [] := by
    unfold finish
    simp only []
    repeat' split
    all_goals rfl
  have hLast : (j.finish input info).2.Closes → n = 0 := by
    intro hCloses
    by_contra hMore
    have hNot : j.outstandingRequests - 1 ≠ 0 := by omega
    rw [finish, if_neg hNot] at hCloses
    exact hCloses
  exact
    { keeps := by simp
      parts := by simp [hReads]
      alone := by simp
      joined := by simp [hReads, hCount]
      closed := by simpa [hReads] using hLast }

namespace DataFunction

variable {conf : StorageConf}
variable {formatTime : UInt64 → Bytes}

theorem resumeDirectory_balanced
    (uuid : Uuid)
    (next : Next Writes) :
    (resumeDirectory uuid next).Balanced none 0 := by
  rcases next with _ | size | (buf | _ | writes)
  · exact Resumed.balanced_of_closes rfl rfl
  · exact Resumed.balanced_of_read rfl
  · exact Resumed.balanced_of_closes rfl rfl
  · exact Resumed.balanced_of_closes rfl rfl
  · exact Resumed.balanced_of_closes rfl rfl

theorem resumeSource_balanced
    (input : Jsre.Request)
    (info : Jsre.RenameInfo)
    (next : Next (Bytes × Jsre.FilemetaServer)) :
    (resumeSource input info next).Balanced none 0 := by
  rcases next with _ | size | (buf | _ | ⟨source, r⟩)
  · exact Resumed.balanced_of_closes rfl rfl
  · exact Resumed.balanced_of_read rfl
  · exact Resumed.balanced_of_closes rfl rfl
  · exact Resumed.balanced_of_closes rfl rfl
  · unfold resumeSource
    simp only []
    split
    all_goals exact
      { keeps := by simp
        parts := by simp [Outcome.reads, Cont.part]
        alone := by simp
        joined := by simp [Outcome.reads]
        closed := by simp [Outcome.Closes] }

variable {input : Jsre.Request} {n : Nat}

theorem resumeDestination_balanced
    {info : Jsre.RenameInfo}
    {r : Jsre.FilemetaServer}
    {j : Join}
    {next : Next (Except RenameSubOperation Bytes)}
    (hJoin : j.outstandingRequests = (n : Int) + 1)
    (hDefined :
      (resumeDestination input info r j next).outcome ≠
        .undefined) :
    (resumeDestination input info r j next).Balanced (some j)
      n := by
  rcases next with _ | size | (buf | _ | (e | destination))
  · exact Join.finish_balanced hJoin
  · exact
      { keeps := by simp [resumeDestination]
        parts := by
          simp [resumeDestination, Outcome.reads, Cont.part]
        alone := by simp [resumeDestination]
        joined := by
          simp [resumeDestination, Outcome.reads, hJoin]
        closed := by
          simp [resumeDestination, Outcome.Closes] }
  · exact absurd rfl hDefined
  · exact absurd rfl hDefined
  · exact Join.finish_balanced hJoin
  · exact Join.finish_balanced hJoin

/- Every callback keeps count of the reads. -/
theorem resume_balanced
    {amb : Ambient}
    {work : Work}
    {join : Option Join}
    {cont : Cont}
    {content : Bytes}
    (hPart : cont.part = join.isSome)
    (hAlone : join = none → n = 0)
    (hJoin :
      ∀ j ∈ join, j.outstandingRequests = (n : Int) + 1)
    (hDefined :
      (resume conf formatTime amb work input join cont
        content).outcome ≠ .undefined) :
    (resume conf formatTime amb work input join cont
      content).Balanced join n := by
  cases join with
  | none =>
      have hZero := hAlone rfl
      subst hZero
      cases cont with
      | directory => exact resumeDirectory_balanced _ _
      | renameSource =>
          unfold resume at hDefined ⊢
          cases hInfo : Jsre.RenameInfo.parse input.data with
          | none => exact Resumed.balanced_of_closes rfl rfl
          | some info => exact resumeSource_balanced _ _ _
      | renameDestination r => cases hPart
      | renameFile => cases hPart
      | file => exact Resumed.balanced_of_closes rfl rfl
  | some j =>
      have hCount := hJoin j rfl
      cases cont with
      | directory | renameSource | file => cases hPart
      | renameDestination r =>
          unfold resume at hDefined ⊢
          cases hInfo : Jsre.RenameInfo.parse input.data with
          | none =>
              rw [hInfo] at hDefined
              exact absurd rfl hDefined
          | some info =>
              rw [hInfo] at hDefined
              exact resumeDestination_balanced hCount hDefined
      | renameFile =>
          unfold resume at hDefined ⊢
          cases hInfo : Jsre.RenameInfo.parse input.data with
          | none =>
              rw [hInfo] at hDefined
              exact absurd rfl hDefined
          | some info => exact Join.finish_balanced hCount

theorem begin_balanced
    (amb : Ambient)
    (work : Work)
    (input : Jsre.Request) :
    (Resumed.mk none [] (begin amb work input)).Balanced none
      0 := by
  have hOne :
      (begin amb work input).reads = [] ∨
        ∃ read, read.1.part = false ∧
          begin amb work input = .read [read] := by
    unfold begin
    repeat' split
    all_goals
      first
      | exact Or.inl rfl
      | exact Or.inr ⟨_, rfl, rfl⟩
  rcases hOne with hNone | ⟨read, hPart, hRead⟩
  · exact Resumed.balanced_of_closes rfl hNone
  · rw [hRead]
    exact Resumed.balanced_of_read hPart

end DataFunction

----------
-- Orderly Requests
----------

/-
  A commit in order. Its messages of the second round say what
  it decided.
-/
structure Writing.Settled (w : Writing) : Prop where
  faithful : Session.Faithful w.size w.session
  onWay :
    ∀ m ∈ w.onWay, m.2 ∈ w.session.coordinator.commits

namespace Chain

/-
  The deadline of a read passes after its callback has been
  called, answers to prepares are handled while the loop that
  sends them is ahead, and the deadline of a commit passes
  after the last answer.
-/
def Orderly (c : Chain) : Event → Prop
| .readDeadline r => ∀ reading ∈ c.reads[r]?, reading.Called
| .response w _ =>
    ∀ writing ∈ c.writes[w]?,
      Session.Ahead writing.size writing.session
| .deadline w =>
    ∀ writing ∈ c.writes[w]?,
      writing.session.answered.length = writing.size
| .serve _ _ | .answer _ _ _ _ | .nothing _ _ _ => True
| .readTimer _ _ _ | .send _ | .prepare _ _ => True
| .commit _ _ _ | .timer _ => True

instance decidableOrderly
    (c : Chain) :
    ∀ e : Event, Decidable (Orderly c e)
| .readDeadline r =>
    inferInstanceAs
      (Decidable (∀ reading ∈ c.reads[r]?, reading.Called))
| .response w _ =>
    inferInstanceAs
      (Decidable (∀ writing ∈ c.writes[w]?,
        Session.Ahead writing.size writing.session))
| .deadline w =>
    inferInstanceAs
      (Decidable (∀ writing ∈ c.writes[w]?,
        writing.session.answered.length = writing.size))
| .serve _ _ | .answer _ _ _ _ | .nothing _ _ _ =>
    isTrue trivial
| .readTimer _ _ _ | .send _ | .prepare _ _ => isTrue trivial
| .commit _ _ _ | .timer _ => isTrue trivial

/- How many reads will still call their callback. -/
def live (c : Chain) : Nat :=
  (c.reads.map Reading.live).sum

/-
  A request that has one way to go on: the live reads are
  those that its callbacks count, and `next` is called, or
  left to a commit, when none is live.
-/
structure Tidy (conf : StorageConf) (c : Chain) : Prop where
  timely : ∀ r ∈ c.reads, r.Timely conf
  parts :
    ∀ r ∈ c.reads, ¬ r.Called → r.cont.part = c.join.isSome
  alone : c.join = none → c.live ≤ 1
  joined :
    ∀ j ∈ c.join, j.outstandingRequests = (c.live : Int)
  closing : c.replies.length + c.writes.length ≤ 1
  waiting :
    0 < c.live → c.replies.length + c.writes.length = 0
  settled : ∀ w ∈ c.writes, w.Settled

variable {conf : StorageConf} {c c' : Chain} {r : Nat}
variable {reading reading' : Reading} {amb : Ambient}

theorem live_setReading
    (hRead : c.reads[r]? = some reading)
    (reading' : Reading) :
    (c.setReading r reading').live + reading.live =
      c.live + reading'.live :=
  Table.sum_map_set Reading.live hRead reading'

theorem live_pos
    {r : Reading}
    (hMem : r ∈ c.reads)
    (hNew : ¬ r.Called) :
    0 < c.live := by
  have hLe : r.live ≤ c.live :=
    List.single_le_sum (fun _ _ => Nat.zero_le _) _
      (List.mem_map_of_mem hMem)
  rw [Reading.live_of_not_called hNew] at hLe
  exact hLe

/- A read that changes without calling its callback. -/
theorem Tidy.setReading
    (h : Tidy conf c)
    (hRead : c.reads[r]? = some reading)
    (hTimely : reading'.Timely conf)
    (hCont : reading'.cont = reading.cont)
    (hCalled : reading'.Called ↔ reading.Called) :
    Tidy conf (c.setReading r reading') := by
  have hSame : reading'.live = reading.live := by
    unfold Reading.live
    simp only [hCalled]
  have hLive : (c.setReading r reading').live = c.live := by
    have hSum := live_setReading hRead reading'
    omega
  have hOld := List.mem_of_getElem? hRead
  refine
    { timely := ?_
      parts := ?_
      alone := ?_
      joined := ?_
      closing := h.closing
      waiting := ?_
      settled := h.settled }
  · intro a hMem
    rcases Table.mem_set hMem with rfl | ⟨j, _, hj⟩
    · exact hTimely
    · exact h.timely a (List.mem_of_getElem? hj)
  · intro a hMem hNew
    rcases Table.mem_set hMem with rfl | ⟨j, _, hj⟩
    · rw [hCont]
      exact h.parts reading hOld
        (fun hDone => hNew (hCalled.mpr hDone))
    · exact h.parts a (List.mem_of_getElem? hj) hNew
  · rw [hLive]
    exact h.alone
  · rw [hLive]
    exact h.joined
  · rw [hLive]
    exact h.waiting

/- A commit that goes on. -/
theorem Tidy.setWriting
    {w : Nat}
    {writing' : Writing}
    (h : Tidy conf c)
    (hSettled : writing'.Settled) :
    Tidy conf (c.setWriting w writing') := by
  have hLength :
      (c.setWriting w writing').writes.length =
        c.writes.length :=
    List.length_set
  refine
    { timely := h.timely
      parts := h.parts
      alone := h.alone
      joined := h.joined
      closing := ?_
      waiting := ?_
      settled := ?_ }
  · rw [hLength]
    exact h.closing
  · rw [hLength]
    exact h.waiting
  · intro a hMem
    rcases Table.mem_set hMem with rfl | ⟨j, _, hj⟩
    · exact hSettled
    · exact h.settled a (List.mem_of_getElem? hj)

theorem settled_start
    (version : Version)
    (writes : Writes) :
    (Writing.start conf version writes).Settled where
  faithful := Session.faithful_start
  onWay := by simp [Writing.start]

variable {version : Version}

/- The chain after a callback that kept count. -/
theorem tidy_proceed
    {join : Option Join}
    {done : Resumed}
    (hTimely : ∀ r ∈ c.reads, r.Timely conf)
    (hParts :
      ∀ r ∈ c.reads, ¬ r.Called →
        r.cont.part = done.join.isSome)
    (hReplies : c.replies = [])
    (hWrites : c.writes = [])
    (hBalanced : done.Balanced join c.live)
    (h :
      proceed conf version { c with join := done.join }
        done.outcome = some c') :
    Tidy conf c' := by
  rcases done with ⟨after, erased, outcome⟩
  have hAlone := hBalanced.alone
  have hJoined := hBalanced.joined
  have hClosed := hBalanced.closed
  have hBase (hNone : outcome.reads = []) :
      Tidy conf { c with join := after } := by
    simp only [hNone, List.length_nil,
      Nat.add_zero] at hAlone hJoined
    exact
      { timely := hTimely
        parts := hParts
        alone := hAlone
        joined := hJoined
        closing := by simp [hReplies, hWrites]
        waiting := by simp [hReplies, hWrites]
        settled := by simp [hWrites] }
  cases outcome with
  | reply buf =>
      cases h
      have hZero : c.live = 0 := hClosed trivial
      exact
        { hBase rfl with
          closing := by simp [hReplies, hWrites]
          waiting := fun hPos => absurd hZero hPos.ne' }
  | commit writes =>
      cases h
      have hZero : c.live = 0 := hClosed trivial
      exact
        { hBase rfl with
          closing := by simp [hReplies, hWrites]
          waiting := fun hPos => absurd hZero hPos.ne'
          settled := by
            simpa [hWrites] using
              settled_start version writes }
  | wait =>
      cases h
      exact hBase rfl
  | undefined => cases h
  | read reads =>
      cases h
      have hNew :
          (reads.map (Reading.start conf)).map Reading.live =
            List.replicate reads.length 1 := by
        rw [List.map_map, List.eq_replicate_iff]
        refine ⟨List.length_map _, ?_⟩
        intro n hMem
        rcases List.mem_map.mp hMem with ⟨call, _, rfl⟩
        exact Reading.live_of_not_called
          (Reading.not_called_start call)
      have hLive :
          ((c.reads ++ reads.map (Reading.start conf)).map
            Reading.live).sum = c.live + reads.length := by
        rw [List.map_append, List.sum_append, hNew]
        simp [live]
      refine
        { timely := ?_
          parts := ?_
          alone := ?_
          joined := ?_
          closing := by simp [hReplies, hWrites]
          waiting := by simp [hReplies, hWrites]
          settled := by simp [hWrites] }
      · intro a hMem
        rcases List.mem_append.mp hMem with hOld | hStart
        · exact hTimely a hOld
        · rcases List.mem_map.mp hStart with ⟨call, _, rfl⟩
          exact Reading.timely_start call
      · intro a hMem hWaits
        rcases List.mem_append.mp hMem with hOld | hStart
        · exact hParts a hOld hWaits
        · rcases List.mem_map.mp hStart with ⟨call, hCall, rfl⟩
          exact hBalanced.parts call hCall
      · unfold live
        rw [hLive]
        exact hAlone
      · unfold live
        rw [hLive]
        exact hJoined

theorem tidy_begin
    {work : Work}
    {input : Jsre.Request}
    (h : begin conf amb version work input = some c) :
    Tidy conf c := by
  let first : Chain :=
    { work := work
      input := input
      join := none
      reads := []
      writes := []
      replies := [] }
  have hBalanced := DataFunction.begin_balanced amb work input
  refine tidy_proceed (c := first) ?_ ?_ rfl rfl hBalanced h
  · simp [first]
  · simp [first]

/- A live read calls its callback. -/
theorem Tidy.call
    {formatTime : UInt64 → Bytes}
    {content : Bytes}
    {s s' : Store}
    (h : Tidy conf c)
    (hRead : c.reads[r]? = some reading)
    (hNew : ¬ reading.Called)
    (hTimely : reading'.Timely conf)
    (hCalled : reading'.Called)
    (hCall :
      Chain.call conf formatTime amb version reading.cont
        content s (c.setReading r reading') =
          some (s', c')) :
    Tidy conf c' := by
  have hMem := List.mem_of_getElem? hRead
  have hPart := h.parts reading hMem hNew
  have hNone := h.waiting (live_pos hMem hNew)
  have hLive : (c.setReading r reading').live + 1 = c.live := by
    have hSum := live_setReading hRead reading'
    rw [Reading.live_of_called hCalled,
      Reading.live_of_not_called hNew] at hSum
    exact hSum
  rcases Option.map_eq_some_iff.mp hCall with
    ⟨next, hProceed, hEq⟩
  cases hEq
  have hBalanced :
      (DataFunction.resume conf formatTime amb c.work c.input
        c.join reading.cont content).Balanced c.join
          (c.setReading r reading').live := by
    apply DataFunction.resume_balanced hPart
    · intro hJoin
      have hOne := h.alone hJoin
      omega
    · intro j hj
      have hCount := h.joined j hj
      omega
    · intro hUndefined
      have hStuck := hProceed
      change proceed conf version _
        (DataFunction.resume conf formatTime amb c.work c.input
          c.join reading.cont content).outcome = _ at hStuck
      rw [hUndefined] at hStuck
      cases hStuck
  refine tidy_proceed ?_ ?_ ?_ ?_ hBalanced hProceed
  · intro a ha
    rcases Table.mem_set ha with rfl | ⟨j, _, hj⟩
    · exact hTimely
    · exact h.timely a (List.mem_of_getElem? hj)
  · intro a ha hWaits
    have hOthers := live_pos ha hWaits
    rcases Table.mem_set ha with rfl | ⟨j, _, hj⟩
    · exact absurd hCalled hWaits
    · have hOld := h.parts a (List.mem_of_getElem? hj) hWaits
      by_cases hSome : c.join.isSome = true
      · rw [hOld, hSome]
        exact (hBalanced.keeps hSome).symm
      · -- With no renaming there is no other live read.
        have hOne := h.alone (by simpa using hSome)
        omega
  · exact List.length_eq_zero_iff.mp (by
      change c.replies.length = 0
      omega)
  · exact List.length_eq_zero_iff.mp (by
      change c.writes.length = 0
      omega)

end Chain

----------
-- Steps Of An Orderly Request
----------

namespace Writing

variable {w : Writing} {session : Session}
variable {e : Session.Event}

/- A step of the session, without a second round. -/
theorem Settled.step
    (h : w.Settled)
    (hStep : w.stepSession e = some session)
    (hOrder : Session.Orderly w.size w.session e) :
    { w with session := session }.Settled where
  faithful := Session.faithful_step h.faithful hOrder hStep
  onWay := fun m hMem =>
    Session.commits_subset_of_step hStep (h.onWay m hMem)

theorem Settled.requests
    (h : w.Settled)
    (requests : Nat → Request) :
    { w with requests := requests }.Settled where
  faithful := h.faithful
  onWay := h.onWay

theorem Settled.erase
    (h : w.Settled)
    (m : Nat × Bool) :
    { w with onWay := w.onWay.erase m }.Settled where
  faithful := h.faithful
  onWay := fun m' hMem => h.onWay m' (List.mem_of_mem_erase hMem)

/- The second round carries the outcome just committed. -/
theorem Settled.broadcast
    (h : w.Settled)
    {outcome : Option Bool}
    (hOutcome :
      ∀ agree ∈ outcome,
        agree ∈ w.session.coordinator.commits) :
    (w.broadcast outcome).Settled := by
  cases outcome with
  | none => exact h
  | some agree =>
      refine
        { faithful := h.faithful
          onWay := ?_ }
      intro m hMem
      rcases List.mem_append.mp hMem with hOld | hNew
      · exact h.onWay m hOld
      · rcases List.mem_map.mp hNew with ⟨i, _, rfl⟩
        exact hOutcome agree rfl

end Writing

namespace Chain

variable {conf : StorageConf}
variable {formatTime : UInt64 → Bytes} {s s' : Store}
variable {c c' : Chain} {e : Event}

/- Every orderly step leaves one way to go on. -/
theorem tidy_step
    (h : Tidy conf c)
    (hOrder : Orderly c e)
    (hStep : step conf formatTime s c e = some (s', c')) :
    Tidy conf c' := by
  have hTimely :
      ∀ {r : Nat} {reading : Reading},
        c.reads[r]? = some reading → reading.Timely conf :=
    fun hRead => h.timely _ (List.mem_of_getElem? hRead)
  have hSettled :
      ∀ {w : Nat} {writing : Writing},
        c.writes[w]? = some writing → writing.Settled :=
    fun hWrite => h.settled _ (List.mem_of_getElem? hWrite)
  cases stepped_of_step hStep with
  | serve hRead =>
      have hOld := hTimely hRead
      exact h.setReading hRead
        ⟨hOld.slots, hOld.waits, hOld.done⟩ rfl Iff.rfl
  | answer hRead _ hSlot hMore =>
      refine h.setReading hRead
        ((hTimely hRead).onResponse hSlot _) rfl ?_
      constructor
      · intro hCalled
        exact absurd hMore hCalled
      · intro hCalled
        exact absurd hCalled ((hTimely hRead).not_called hSlot)
  | lastAnswer hRead _ hSlot hLast hCall =>
      refine h.call hRead ((hTimely hRead).not_called hSlot)
        ((hTimely hRead).onResponse hSlot _) ?_ hCall
      intro hNone
      rw [hNone] at hLast
      cases hLast
  | nothing hRead hSize hNew hCall =>
      exact h.call hRead hNew
        ((hTimely hRead).onNothing hSize hNew)
        (Reading.called_onNothing _) hCall
  | readDeadline hRead =>
      have hCalled := hOrder _ hRead
      exact h.setReading hRead
        ((hTimely hRead).expire hCalled) rfl Iff.rfl
  | @readTimer r _ _ reading _ _ hRead hTimer =>
      -- The timer of an orderly read never expires.
      by_cases hCalled : reading.Called
      · rw [((hTimely hRead).done hCalled).1] at hTimer
        cases hTimer
      · rw [(hTimely hRead).waits hCalled] at hTimer
        cases hTimer
  | send hWrite _ hSession =>
      exact h.setWriting
        (((hSettled hWrite).step hSession trivial).requests _)
  | prepare hWrite =>
      exact h.setWriting ((hSettled hWrite).requests _)
  | response hWrite _ hSession =>
      have hAhead := hOrder _ hWrite
      refine h.setWriting
        (((hSettled hWrite).step hSession hAhead).broadcast ?_)
      exact Session.outcome_mem_commits hSession
  | commit hWrite =>
      exact h.setWriting ((hSettled hWrite).erase _)
  | deadline hWrite hSession =>
      have hLate := hOrder _ hWrite
      exact h.setWriting ((hSettled hWrite).step hSession hLate)
  | timer hWrite hSession =>
      exact h.setWriting
        ((hSettled hWrite).step hSession trivial)

/- Some commit of the request has decided to execute. -/
def Executing (c : Chain) : Prop :=
  ∃ w ∈ c.writes, true ∈ w.session.coordinator.commits

theorem Executing.setReading
    (h : Executing c)
    (r : Nat)
    (reading : Reading) :
    Executing (c.setReading r reading) :=
  h

theorem Executing.setWriting
    {w : Nat}
    {writing writing' : Writing}
    (h : Executing c)
    (hWrite : c.writes[w]? = some writing)
    (hCommits :
      writing.session.coordinator.commits ⊆
        writing'.session.coordinator.commits) :
    Executing (c.setWriting w writing') := by
  rcases h with ⟨a, hMem, hTrue⟩
  rcases List.getElem?_of_mem hMem with ⟨j, hj⟩
  by_cases hPlace : w = j
  · subst hPlace
    rw [hWrite] at hj
    cases hj
    exact ⟨writing', List.mem_set
      (List.getElem?_eq_some_iff.mp hWrite).1 _,
      hCommits hTrue⟩
  · refine ⟨a, ?_, hTrue⟩
    apply List.mem_of_getElem?
    change (c.writes.set w writing')[j]? = some a
    rw [List.getElem?_set_ne hPlace]
    exact hj

theorem Executing.call
    {amb : Ambient}
    {version : Version}
    {cont : Cont}
    {content : Bytes}
    (h : Executing c)
    (hCall :
      Chain.call conf formatTime amb version cont content s c =
        some (s', c')) :
    Executing c' := by
  rcases Option.map_eq_some_iff.mp hCall with
    ⟨next, hProceed, hEq⟩
  cases hEq
  rcases h with ⟨w, hMem, hTrue⟩
  revert hProceed
  cases (DataFunction.resume conf formatTime amb c.work c.input
    c.join cont content).outcome with
  | reply | read | wait =>
      rintro ⟨⟩
      exact ⟨w, hMem, hTrue⟩
  | commit writes =>
      rintro ⟨⟩
      exact ⟨w, List.mem_append_left _ hMem, hTrue⟩
  | undefined =>
      rintro ⟨⟩

/- A decision is not taken back. -/
theorem executing_step
    (h : Executing c)
    (hStep : step conf formatTime s c e = some (s', c')) :
    Executing c' := by
  cases stepped_of_step hStep with
  | serve | answer | readDeadline => exact h
  | lastAnswer _ _ _ _ hCall | nothing _ _ _ hCall
  | readTimer _ _ hCall =>
      exact (h.setReading _ _).call hCall
  | send hWrite _ hSession =>
      exact h.setWriting hWrite
        (Session.commits_subset_of_step hSession)
  | prepare hWrite => exact h.setWriting hWrite (fun _ => id)
  | @response w i writing type session hWrite _ hSession =>
      refine h.setWriting hWrite ?_
      have hSub := Session.commits_subset_of_step hSession
      cases writing.session.coordinator.outcome type with
      | none => exact hSub
      | some agree => exact hSub
  | commit hWrite => exact h.setWriting hWrite (fun _ => id)
  | deadline hWrite hSession | timer hWrite hSession =>
      exact h.setWriting hWrite
        (Session.commits_subset_of_step hSession)

/- A message that executes was sent by such a commit. -/
theorem Tidy.executing
    {w i : Nat}
    (h : Tidy conf c)
    (hStep :
      step conf formatTime s c (.commit w i true) =
        some (s', c')) :
    Executing c := by
  cases stepped_of_step hStep with
  | commit hWrite _ hOnWay =>
      have hMem := List.mem_of_getElem? hWrite
      exact ⟨_, hMem, (h.settled _ hMem).onWay _ hOnWay⟩

/- A request that executes replies `OK` and nothing else. -/
theorem Tidy.answers_of_executing
    (h : Tidy conf c)
    (hExecuting : Executing c) :
    c.answers = [Coordinator.okReply] := by
  rcases hExecuting with ⟨w, hMem, hTrue⟩
  have hPos := List.length_pos_of_mem hMem
  have hClosing := h.closing
  have hReplies : c.replies = [] :=
    List.length_eq_zero_iff.mp (by omega)
  have hWrites : c.writes.length = 1 := by omega
  rcases List.length_eq_one_iff.mp hWrites with ⟨a, hOne⟩
  rw [hOne] at hMem
  have hSame := List.mem_singleton.mp hMem
  subst hSame
  have hFaithful := (h.settled w (by simp [hOne])).faithful
  unfold answers
  rw [hReplies, hOne]
  simpa using hFaithful.execute hTrue

end Chain

----------
-- A Request Among Others
----------

/- A request and the store that it shares with others. -/
structure Scene where
  store : Store
  chain : Chain

namespace Scene

/-
  A step of the request, or steps of others that leave the
  store in any state.
-/
inductive Event where
| own (e : Chain.Event)
| other (store : Store)

variable (conf : StorageConf)
variable (formatTime : UInt64 → Bytes)

def step (t : Scene) : Event → Option Scene
| .own e =>
    (t.chain.step conf formatTime t.store e).map
      (fun next => ⟨next.1, next.2⟩)
| .other store => some { t with store := store }

/- The request is in order, and prepares what exists. -/
def Orderly (t : Scene) : Event → Prop
| .own e =>
    t.chain.Orderly e ∧ Chain.Found conf t.store t.chain e
| .other _ => True

instance decidableOrderly
    (t : Scene) :
    ∀ e : Event, Decidable (Orderly conf t e)
| .own e =>
    inferInstanceAs
      (Decidable (t.chain.Orderly e ∧
        Chain.Found conf t.store t.chain e))
| .other _ => isTrue trivial

variable {conf formatTime}

theorem step_own
    {t t' : Scene}
    {e : Chain.Event}
    (h : step conf formatTime t (.own e) = some t') :
    Chain.step conf formatTime t.store t.chain e =
      some (t'.store, t'.chain) := by
  rcases Option.map_eq_some_iff.mp h with ⟨next, hNext, rfl⟩
  exact hNext

theorem tidy_step
    (t : Scene)
    (e : Event)
    (t' : Scene)
    (h : t.chain.Tidy conf)
    (hOrder : Orderly conf t e)
    (hStep : step conf formatTime t e = some t') :
    t'.chain.Tidy conf := by
  cases e with
  | own e => exact Chain.tidy_step h hOrder.1 (step_own hStep)
  | other store =>
      cases hStep
      exact h

theorem executing_step
    (t : Scene)
    (e : Event)
    (t' : Scene)
    (h : t.chain.Executing)
    (hStep : step conf formatTime t e = some t') :
    t'.chain.Executing := by
  cases e with
  | own e => exact Chain.executing_step h (step_own hStep)
  | other store =>
      cases hStep
      exact h

/-
  If a request ever replies an error, none of its steps
  changes the committed content of a block or makes a block,
  before or after the reply, whatever others do to the store
  in between.
-/
theorem no_effect_of_error
    (conf : StorageConf)
    (formatTime : UInt64 → Bytes)
    (amb : Ambient)
    (version : Version)
    (work : Work)
    (input : Jsre.Request)
    (store : Store)
    (chain : Chain)
    (es : List Event)
    (final : Scene)
    (buf : Bytes)
    (hBegin :
      Chain.begin conf amb version work input = some chain)
    (hRun :
      run (step conf formatTime) ⟨store, chain⟩ es =
        some final)
    (hOrder :
      Along (step conf formatTime) (Orderly conf)
        ⟨store, chain⟩ es)
    (hReply : buf ∈ final.chain.answers)
    (hError : Decimal.ascii "Error" <+: buf) :
    ∀ before e after t t',
      es = before ++ .own e :: after →
      run (step conf formatTime) ⟨store, chain⟩
        before = some t →
      step conf formatTime t (.own e) = some t' →
        ∀ k,
          (t'.store.servers.block conf k).content =
            (t.store.servers.block conf k).content := by
  intro before e after t t' hSplit hBefore hStep k
  have hTidy : chain.Tidy conf := Chain.tidy_begin hBegin
  have hFinal : final.chain.Tidy conf :=
    invariant_of_run
      (I := fun t => t.chain.Tidy conf) tidy_step hTidy hRun
      hOrder
  have hNever : ¬ final.chain.Executing := by
    intro hExecuting
    rw [hFinal.answers_of_executing hExecuting] at hReply
    rw [List.mem_singleton.mp hReply] at hError
    exact absurd hError (by decide)
  subst hSplit
  rw [along_append hBefore] at hOrder
  rcases run_append.mp hRun with
    ⟨m, hFirst, hRest⟩
  rw [hBefore] at hFirst
  cases hFirst
  have hThere : t.chain.Tidy conf :=
    invariant_of_run
      (I := fun t => t.chain.Tidy conf) tidy_step hTidy hBefore
      hOrder.1
  have hNow : ¬ t.chain.Executing := by
    intro hExecuting
    exact hNever (invariant_of_any_run
      (I := fun t => t.chain.Executing) executing_step
      hExecuting hRest)
  refine Chain.content_of_step (step_own hStep)
    hOrder.2.1.2 ?_ k
  rintro w i rfl
  exact hNow (hThere.executing (step_own hStep))

----------
-- Requests That Reply An Error
----------

/- A directory without files. -/
def sampleStore : Store :=
  ((Volume.start Store.empty).step standard (fun _ => []) 2
    (Volume.sampleTask (.metadata .init) "" [])).elim
      Store.empty Volume.store

/- The directory with the prepare of another data function. -/
def preparedStore : Store :=
  let piece : Piece :=
    { uuid := Volume.sampleKey 7
      blockid := 0
      offset := 0
      data := [1] }
  { servers :=
      (sampleStore.servers.request standard
        (piece.prepareRequest false 5)).elim
          sampleStore.servers Prod.snd
    recoder := fun _ => false }

/- A request to add a file. -/
def sampleInput : Jsre.Request :=
  (Volume.sampleTask (.metadata .addfile) "a" [0, 1, 2, 3]).input

def sampleAmbient : Ambient :=
  (Volume.sampleTask (.metadata .addfile) "a" [0, 1, 2, 3]).amb

/- A request in an empty directory, before its first step. -/
def sampleStart : Scene :=
  { store := sampleStore
    chain :=
      { work := .metadata .addfile
        input := sampleInput
        join := none
        reads :=
          [Reading.start standard (.directory,
              ⟨sampleInput.uuid, 0, DataFunction.readsize⟩)]
        writes := []
        replies := [] } }

/- The directory is read, and its callback runs. -/
def sampleRead : List Event :=
  [.own (.serve 0 0), .own (.answer 0 0 sampleAmbient 9)]

/- The prepare of the directory is sent and handled. -/
def samplePrepare : List Event :=
  [.own (.send 0), .own (.prepare 0 0)]

/- The prepare of another request is in the way. -/
theorem no_effect_of_pending_log :
    ∃ final,
      run (step standard (fun _ => [])) sampleStart
          (sampleRead ++ .other preparedStore ::
            samplePrepare ++
              [.own (.response 0 0), .own (.commit 0 0 false)]) =
        some final ∧
      final.chain.answers =
        [Coordinator.pendingReply .single .twoPcPrepareAbort] ∧
      ∀ before e after t t',
        sampleRead ++ .other preparedStore ::
            samplePrepare ++
              [.own (.response 0 0), .own (.commit 0 0 false)] =
          before ++ .own e :: after →
        run (step standard (fun _ => [])) sampleStart
            before = some t →
        step standard (fun _ => []) t (.own e) =
            some t' →
          ∀ k,
            (t'.store.servers.block standard k).content =
              (t.store.servers.block standard k).content := by
  have hEnds :
      (run (step standard (fun _ => [])) sampleStart
          (sampleRead ++ .other preparedStore ::
            samplePrepare ++
              [.own (.response 0 0),
                .own (.commit 0 0 false)])).map
          (fun t => t.chain.answers) =
        some
          [Coordinator.pendingReply .single
            .twoPcPrepareAbort] := by
    decide +kernel
  rcases Option.map_eq_some_iff.mp hEnds with
    ⟨final, hRun, hAnswers⟩
  refine ⟨final, hRun, hAnswers, ?_⟩
  refine no_effect_of_error standard (fun _ => [])
    sampleAmbient 9 (.metadata .addfile) sampleInput sampleStore
    sampleStart.chain _ final
    (Coordinator.pendingReply .single .twoPcPrepareAbort)
    rfl hRun ?_ ?_ (by decide)
  · decide +kernel
  · rw [hAnswers]
    exact List.mem_singleton.mpr rfl

/- The timer of the read fires before its answer. -/
def lateRead : List Event :=
  [.own (.serve 0 0), .own (.readDeadline 0),
      .own (.readTimer 0 sampleAmbient 8),
      .own (.answer 0 0 sampleAmbient 9)] ++
    samplePrepare ++ [.own (.response 0 0)]

/- The timer of the commit fires before the last answer. -/
def latePrepare : List Event :=
  sampleRead ++ samplePrepare ++
    [.own (.deadline 0), .own (.timer 0),
      .own (.response 0 0)]

/- The request replies an error, and then it writes. -/
theorem effect_after_error :
    List.Forall
      (fun late =>
        ∃ t t',
          run (step standard (fun _ => []))
              sampleStart late = some t ∧
            step standard (fun _ => []) t
              (.own (.commit 0 0 true)) = some t' ∧
            (∃ buf ∈ t.chain.answers,
              Decimal.ascii "Error" <+: buf) ∧
            (t'.store.servers.block standard
                ⟨Volume.sampleKey 7, 0⟩).bytes ≠
              (t.store.servers.block standard
                ⟨Volume.sampleKey 7, 0⟩).bytes)
      [lateRead, latePrepare] := by
  have hEnds :
      ∀ late ∈ [lateRead, latePrepare],
        ((run (step standard (fun _ => [])) sampleStart
          late).bind
            (fun t =>
              (step standard (fun _ => []) t
                (.own (.commit 0 0 true))).map
                  (fun t' =>
                    decide ((∃ buf ∈ t.chain.answers,
                        Decimal.ascii "Error" <+: buf) ∧
                      (t'.store.servers.block
                          standard
                          ⟨Volume.sampleKey 7, 0⟩).bytes ≠
                        (t.store.servers.block
                          standard
                          ⟨Volume.sampleKey 7, 0⟩).bytes)))) =
          some true := by
    decide +kernel
  rw [List.forall_iff_forall_mem]
  intro late hLate
  rcases Option.bind_eq_some_iff.mp (hEnds late hLate) with
    ⟨t, hRun, hNext⟩
  rcases Option.map_eq_some_iff.mp hNext with
    ⟨t', hStep, hSeen⟩
  exact ⟨t, t', hRun, hStep, of_decide_eq_true hSeen⟩

end Scene

end Slfs
