import Mathlib.Data.List.Rotate
import Slfs.Proxy.LaunchPolicy

/-
  How long an idle worker is kept.

  The policy keeps a moving average of the time between the
  requests to each worker, and tells workers a time that
  depends on it, in one case through a division. Only with a
  debug log is more than the first interval recorded.

  Main declarations:
    * `Proxy.KeepaliveMovingInterval`
    * `Proxy.KeepaliveMovingInterval.returns_iff_threshold`
-/

----------
-- A Moving Average
----------

namespace Slfs

open Transition

namespace Proxy

/- A ring of the last inputs, and their sum. -/
structure Sma where
  n : UInt32
  index : UInt32
  previousInputs : List UInt32
  sum : UInt32
deriving DecidableEq, Repr

namespace Sma

def create (bufferSize : UInt32) : Sma :=
  let n := if bufferSize = 0 then 1 else bufferSize
  { n := n
    index := 0
    previousInputs := List.replicate n.toNat 0
    sum := 0 }

def record (input : UInt32) (s : Sma) : Sma :=
  let i := s.index.toNat
  { s with
    sum := s.sum - s.previousInputs.getD i 0 + input
    previousInputs := s.previousInputs.set i input
    index := if s.index + 1 = s.n then 0 else s.index + 1 }

def getSma (s : Sma) : UInt32 :=
  (s.sum + s.n / 2) / s.n

theorem n_create (bufferSize : UInt32) :
    0 < (create bufferSize).n.toNat := by
  unfold create
  simp only
  split
  · decide
  · rename_i hSize
    have hZero : bufferSize.toNat ≠ 0 := by
      intro hEq
      exact hSize (UInt32.toNat_inj.mp hEq)
    omega

/- Half of the size of the ring is rounded away. -/
theorem getSma_eq_zero
    {s : Sma}
    (hSize : 0 < s.n.toNat)
    (hSum : s.sum = 0) :
    s.getSma = 0 := by
  have hHalf : s.n.toNat / 2 / s.n.toNat = 0 :=
    Nat.div_eq_of_lt (Nat.div_lt_self hSize (by decide))
  apply UInt32.toNat_inj.mp
  simpa [getSma, hSum] using hHalf

/- The last inputs in order, with zeros before the first. -/
def window (n : Nat) (inputs : List UInt32) : List UInt32 :=
  (List.replicate n 0 ++ inputs).drop inputs.length

/- The sum of some inputs, which may need more than 32 bits. -/
def total (inputs : List UInt32) : Nat :=
  (inputs.map UInt32.toNat).sum

/- The ring has the last inputs from its index on. -/
structure Holds
    (s : Sma)
    (n : UInt32)
    (inputs : List UInt32) : Prop where
  size : s.n = n
  index : s.index.toNat < n.toNat
  length : s.previousInputs.length = n.toNat
  ring :
    s.previousInputs.rotate s.index.toNat =
      window n.toNat inputs
  sum : s.sum.toNat = total (window n.toNat inputs) % 2 ^ 32

variable {n : Nat} {inputs : List UInt32}

theorem window_append
    (hSize : 0 < n)
    (input : UInt32) :
    window n (inputs ++ [input]) =
      (window n inputs).tail ++ [input] := by
  unfold window
  rw [List.tail_drop, ← List.append_assoc,
    List.length_append, List.length_singleton,
    List.drop_append_of_le_length]
  simp only [List.length_append, List.length_replicate]
  omega

theorem window_of_le
    (h : n ≤ inputs.length) :
    window n inputs = inputs.drop (inputs.length - n) := by
  unfold window
  rw [List.drop_append, List.length_replicate,
    List.drop_eq_nil_of_le (by simpa using h),
    List.nil_append]

theorem total_window_of_le
    (h : inputs.length ≤ n) :
    total (window n inputs) = total inputs := by
  unfold window
  rw [List.drop_append_of_le_length (by simpa using h)]
  simp [total]

section

variable {ring : List UInt32} {i : Nat}

theorem rotate_eq_cons (hi : i < ring.length) :
    ring.rotate i =
      ring.getD i 0 :: (ring.drop (i + 1) ++ ring.take i) := by
  rw [List.rotate_eq_drop_append_take (Nat.le_of_lt hi),
    List.drop_eq_getElem_cons hi,
    List.getD_eq_getElem?_getD, List.getElem?_eq_getElem hi]
  rfl

theorem rotate_set
    (hi : i < ring.length)
    (input : UInt32) :
    (ring.set i input).rotate (i + 1) =
      (ring.rotate i).tail ++ [input] := by
  have hNext : i + 1 ≤ (ring.set i input).length := by
    rw [List.length_set]
    exact hi
  rw [rotate_eq_cons hi,
    List.rotate_eq_drop_append_take hNext,
    List.drop_set_of_lt (Nat.lt_succ_self i),
    List.set_eq_take_append_cons_drop, if_pos hi]
  simp [List.take_append, Nat.min_eq_left (Nat.le_of_lt hi)]

end

theorem holds_create (bufferSize : UInt32) :
    (create bufferSize).Holds (create bufferSize).n [] := by
  have hSize := n_create bufferSize
  constructor
  case index => exact hSize
  all_goals simp [create, window, total]

/- A new input takes the place of the oldest one. -/
theorem Holds.record
    {s : Sma}
    {n : UInt32}
    (h : s.Holds n inputs)
    (input : UInt32) :
    (s.record input).Holds n (inputs ++ [input]) := by
  have hLt := n.toNat_lt
  have hIndex := h.index
  have hi : s.index.toNat < s.previousInputs.length := by
    rw [h.length]
    exact h.index
  have hNext : (s.index + 1).toNat = s.index.toNat + 1 := by
    rw [UInt32.toNat_add]
    exact Nat.mod_eq_of_lt (by simpa using (by omega))
  have hOldest :
      window n.toNat inputs =
        s.previousInputs.getD s.index.toNat 0 ::
          (window n.toNat inputs).tail := by
    rw [← h.ring, rotate_eq_cons hi]
    rfl
  have hWindow :
      window n.toNat (inputs ++ [input]) =
        (window n.toNat inputs).tail ++ [input] :=
    window_append (Nat.zero_lt_of_lt h.index) input
  have hRing := rotate_set hi input
  rw [h.ring, ← hWindow] at hRing
  constructor
  case size => exact h.size
  case length =>
    simp only [Sma.record, List.length_set]
    exact h.length
  case index =>
    simp only [Sma.record, h.size]
    split
    · exact Nat.zero_lt_of_lt h.index
    · rename_i hLast
      have hNe : s.index.toNat + 1 ≠ n.toNat := by
        rw [← hNext]
        exact fun hEq => hLast (UInt32.toNat_inj.mp hEq)
      omega
  case ring =>
    simp only [Sma.record, h.size]
    split
    · -- behind the last slot the ring starts again
      rename_i hLast
      have hEnd :
          s.index.toNat + 1 =
            (s.previousInputs.set s.index.toNat
              input).length := by
        rw [List.length_set, h.length, ← hNext, hLast]
      rw [hEnd, List.rotate_length] at hRing
      simpa using hRing
    · rw [hNext]
      exact hRing
  case sum =>
    have hSum := h.sum
    have hOld :=
      (s.previousInputs.getD s.index.toNat 0).toNat_lt
    rw [hOldest] at hSum
    simp only [Sma.record, UInt32.toNat_add,
      UInt32.toNat_sub, hWindow]
    simp only [total, List.map_cons, List.map_append,
      List.map_nil, List.sum_cons, List.sum_append,
      List.sum_nil] at hSum ⊢
    omega

/-
  The first two inputs into a ring add up to zero, if the
  second one is zero and replaces the first, or is the
  complement of the first.
-/
theorem sum_record_record
    (bufferSize first second : UInt32)
    (hSecond :
      second =
        if (create bufferSize).n = 1 then 0 else 0 - first) :
    (((create bufferSize).record first).record second).sum =
      0 := by
  have hSize := n_create bufferSize
  have hHolds :=
    ((holds_create bufferSize).record first).record second
  apply UInt32.toNat_inj.mp
  rw [hHolds.sum, hSecond]
  by_cases hOne : (create bufferSize).n = 1
  · rw [if_pos hOne, hOne]
    simp [window, total]
  · have hNe : (create bufferSize).n.toNat ≠ 1 := fun hEq =>
      hOne (UInt32.toNat_inj.mp hEq)
    rw [if_neg hOne, total_window_of_le (by simp; omega)]
    have hLt := first.toNat_lt
    simp [total]
    unfold UInt32.size
    omega

end Sma

----------
-- The Policy
----------

open Decimal (stoi)
open Mark (colon)

/- A number as a 32-bit one without a sign. -/
def uint32 (x : Int) : UInt32 :=
  (x % 2 ^ 32).toNat.toUInt32

/-
  The averages and the times of the last requests, in
  nanoseconds, by worker. What was sent comes last. The
  margin is in hundredths.
-/
structure KeepaliveMovingInterval where
  smaBufferSize : UInt32
  errorMargin : Int
  defaultWaitTime : UInt32
  concurrencyThreshold : UInt32
  waitTimes : Nat → Option Sma
  lastRequest : Nat → Option Int
  sent : List (Nat × UInt32)

/- Match `(\d+):(\d+):(\d+):(\d+)` anywhere in the arguments. -/
def keepaliveArgs (args : Bytes) :
    Option KeepaliveMovingInterval :=
  match Decimal.searchFields colon 4 args with
  | some [first, second, third, fourth] => do
      let smaBufferSize ← stoi first
      let defaultWaitTime ← stoi second
      let concurrencyThreshold ← stoi third
      let errorMargin ← stoi fourth
      some
        { smaBufferSize := uint32 smaBufferSize
          errorMargin := errorMargin
          defaultWaitTime := uint32 defaultWaitTime
          concurrencyThreshold := uint32 concurrencyThreshold
          waitTimes := fun _ => none
          lastRequest := fun _ => none
          sent := [] }
  | _ => none

namespace KeepaliveMovingInterval

-- an average with the margin added, in floating point
variable (scaled : Int → UInt32 → UInt32)
-- the proxy logs at the level `debug`, as with `-v`
variable (debug : Bool)

def sendWorkerKeepalive
    (w : Nat)
    (duration : UInt32)
    (p : KeepaliveMovingInterval) : KeepaliveMovingInterval :=
  { p with sent := p.sent ++ [(w, duration)] }

/- Division by zero does not return. -/
def setWorkerKeepalive
    (w : Nat)
    (p : KeepaliveMovingInterval) :
    Option KeepaliveMovingInterval :=
  match p.waitTimes w with
  | none => some p
  | some sma =>
      if sma.getSma < p.concurrencyThreshold then
        some (p.sendWorkerKeepalive w p.defaultWaitTime)
      else if 100 < sma.getSma then
        some
          (p.sendWorkerKeepalive w
            (scaled p.errorMargin sma.getSma))
      else if sma.getSma = 0 then none
      else
        some
          (p.sendWorkerKeepalive w
            (sma.getSma + 100 / sma.getSma))

def startedANewJob
    (w : Nat)
    (now : Int)
    (p : KeepaliveMovingInterval) : KeepaliveMovingInterval :=
  match p.lastRequest w with
  | none =>
      -- an average that is there already is not replaced
      let sma :=
        (p.waitTimes w).getD (Sma.create p.smaBufferSize)
      { p with
        waitTimes :=
          Function.update p.waitTimes w
            (some (sma.record p.defaultWaitTime))
        lastRequest :=
          Function.update p.lastRequest w (some now) }
  | some last =>
      let interval := (now - last).tdiv 1000000
      -- `record` is an operand of a debug log statement
      { p with
        waitTimes :=
          if debug ∧ interval > p.concurrencyThreshold.toNat then
            Function.update p.waitTimes w
              ((p.waitTimes w).map
                (fun sma => sma.record (uint32 interval)))
          else p.waitTimes
        lastRequest :=
          Function.update p.lastRequest w (some now) }

inductive Event where
| startedANewJob (worker : Nat) (now : Int)
| setWorkerKeepalive (worker : Nat)
deriving DecidableEq, Repr

def step (p : KeepaliveMovingInterval) :
    Event → Option KeepaliveMovingInterval
| .startedANewJob w now => some (p.startedANewJob debug w now)
| .setWorkerKeepalive w => p.setWorkerKeepalive scaled w

variable {scaled debug} {p p' : KeepaliveMovingInterval}

/- The average that a worker has after its first request. -/
def first (p : KeepaliveMovingInterval) : Sma :=
  (Sma.create p.smaBufferSize).record p.defaultWaitTime

/- A zero average is divided by if no threshold is above it. -/
theorem setWorkerKeepalive_eq_none_iff
    {w : Nat} :
    p.setWorkerKeepalive scaled w = none ↔
      p.concurrencyThreshold = 0 ∧
        ∃ sma ∈ p.waitTimes w, sma.getSma = 0 := by
  have hBelow :
      ¬ (0 : UInt32) < p.concurrencyThreshold ↔
        p.concurrencyThreshold = 0 := by
    rw [UInt32.pos_iff_ne_zero, not_not]
  unfold setWorkerKeepalive
  cases p.waitTimes w with
  | none => simp
  | some sma =>
      simp only [Option.mem_some_iff, exists_eq_left']
      by_cases hZero : sma.getSma = 0
      · have hSmall : ¬ (100 : UInt32) < 0 := by decide
        simp only [hZero, hSmall, ← hBelow, if_false, if_true,
          and_true]
        split <;> simp_all
      · simp only [hZero, if_false, and_false, iff_false]
        split_ifs <;> simp

/- What was sent is all that changes. -/
theorem of_setWorkerKeepalive
    {w : Nat}
    (h : p.setWorkerKeepalive scaled w = some p') :
    ∃ sent, p' = { p with sent := sent } := by
  unfold setWorkerKeepalive sendWorkerKeepalive at h
  split at h
  · exact ⟨_, (Option.some.inj h).symm⟩
  · split_ifs at h
    all_goals exact ⟨_, (Option.some.inj h).symm⟩

variable {e : Event}

/- The arguments stay as they are. -/
theorem arguments_step
    (hStep : p.step scaled debug e = some p') :
    p'.first = p.first ∧
      p'.concurrencyThreshold = p.concurrencyThreshold := by
  cases e with
  | startedANewJob w now =>
      cases hStep
      unfold startedANewJob
      split <;> exact ⟨rfl, rfl⟩
  | setWorkerKeepalive w =>
      rcases of_setWorkerKeepalive hStep with ⟨_, rfl⟩
      exact ⟨rfl, rfl⟩

/- Every worker has the average of its first request. -/
def Quiet (p : KeepaliveMovingInterval) : Prop :=
  ∀ w, p.waitTimes w = (p.lastRequest w).map (fun _ => p.first)

/- Later intervals are not recorded without a debug log. -/
theorem quiet_step
    (h : Quiet p)
    (hStep : p.step scaled false e = some p') :
    Quiet p' := by
  cases e with
  | startedANewJob w now =>
      intro v
      rw [(arguments_step hStep).1]
      cases hStep
      have hOld := h w
      by_cases hv : v = w
      · subst hv
        cases hLast : p.lastRequest v with
        | none =>
            rw [hLast] at hOld
            simp [startedANewJob, hLast, hOld, first]
        | some last =>
            rw [hLast] at hOld
            simp [startedANewJob, hLast, hOld]
      · cases hLast : p.lastRequest w <;>
          simp [startedANewJob, hLast, hv, h v]
  | setWorkerKeepalive w =>
      rcases of_setWorkerKeepalive hStep with ⟨_, rfl⟩
      exact h

/- No average that the threshold lets through is zero. -/
def Safe (debug : Bool) (p : KeepaliveMovingInterval) : Prop :=
  p.concurrencyThreshold ≠ 0 ∨
    debug = false ∧ Quiet p ∧ p.first.getSma ≠ 0

theorem safe_step
    (h : Safe debug p)
    (hStep : p.step scaled debug e = some p') :
    Safe debug p' := by
  rcases arguments_step hStep with ⟨hFirst, hThreshold⟩
  rcases h with h | ⟨rfl, hQuiet, hAverage⟩
  · left
    rwa [hThreshold]
  · right
    rw [hFirst]
    exact ⟨rfl, quiet_step hQuiet hStep, hAverage⟩

theorem Safe.isSome_step
    (h : Safe debug p)
    (e : Event) :
    (p.step scaled debug e).isSome := by
  cases e with
  | startedANewJob w now => rfl
  | setWorkerKeepalive w =>
      by_contra hNone
      rw [Option.not_isSome_iff_eq_none] at hNone
      rcases setWorkerKeepalive_eq_none_iff.mp hNone with
        ⟨hThreshold, sma, hSma, hZero⟩
      rcases h with h | ⟨_, hQuiet, hAverage⟩
      · exact h hThreshold
      · rw [hQuiet w] at hSma
        rcases Option.map_eq_some_iff.mp hSma with ⟨_, _, rfl⟩
        exact hAverage hZero

/-
  The milliseconds between the first two requests to a
  worker that bring its average to zero.
-/
def vanishingInterval (p : KeepaliveMovingInterval) : Int :=
  if (Sma.create p.smaBufferSize).n = 1 then 2 ^ 32
  else 2 ^ 32 - p.defaultWaitTime.toNat

theorem vanishingInterval_pos (p : KeepaliveMovingInterval) :
    0 < p.vanishingInterval := by
  have hLt := p.defaultWaitTime.toNat_lt
  unfold vanishingInterval
  split <;> omega

theorem uint32_vanishingInterval
    (p : KeepaliveMovingInterval) :
    uint32 p.vanishingInterval =
      if (Sma.create p.smaBufferSize).n = 1 then 0
      else 0 - p.defaultWaitTime := by
  have hLt := p.defaultWaitTime.toNat_lt
  unfold vanishingInterval uint32
  split
  · rfl
  · apply UInt32.toNat_inj.mp
    rw [UInt32.toNat_sub]
    simp only [Nat.toUInt32_eq, UInt32.toNat_ofNat']
    simp only [UInt32.toNat_zero]
    omega

def vanishing (p : KeepaliveMovingInterval) : List Event :=
  [.startedANewJob 0 0,
    .startedANewJob 0 (p.vanishingInterval * 1000000)]

/- The average of the first worker is zero after that. -/
theorem average_vanishes
    (scaled : Int → UInt32 → UInt32)
    (hTimes : ∀ w, p.waitTimes w = none)
    (hLast : ∀ w, p.lastRequest w = none)
    (hThreshold : p.concurrencyThreshold = 0) :
    ∃ p' sma,
      run (step scaled true) p p.vanishing =
          some p' ∧
        p'.waitTimes 0 = some sma ∧
        sma.getSma = 0 ∧
        p'.concurrencyThreshold = 0 := by
  have hInterval :
      (p.vanishingInterval * 1000000 - 0).tdiv 1000000 =
        p.vanishingInterval := by
    rw [Int.sub_zero]
    exact Int.mul_tdiv_cancel _ (by decide)
  have hLonger :
      p.vanishingInterval > p.concurrencyThreshold.toNat := by
    rw [hThreshold]
    exact vanishingInterval_pos p
  have hAverage :
      (((Sma.create p.smaBufferSize).record
          p.defaultWaitTime).record
        (uint32 p.vanishingInterval)).getSma = 0 := by
    apply Sma.getSma_eq_zero
    · exact Sma.n_create p.smaBufferSize
    · exact Sma.sum_record_record _ _ _
        (uint32_vanishingInterval p)
  refine ⟨_, _, rfl, ?_, hAverage, ?_⟩
  · simp only [startedANewJob, hLast, hTimes,
      Function.update_self, hInterval, hLonger, and_self,
      if_true, Option.map_some, Option.getD_none]
  · simp only [startedANewJob, hLast, Function.update_self]
    exact hThreshold

/- The next time that is sent divides by a zero average. -/
theorem not_returns_of_zero
    {p' : KeepaliveMovingInterval}
    {debug : Bool}
    {es : List Event}
    {sma : Sma}
    (hRun : run (step scaled debug) p es = some p')
    (hThreshold : p'.concurrencyThreshold = 0)
    (hSma : p'.waitTimes 0 = some sma)
    (hZero : sma.getSma = 0) :
    ¬ ∀ es, (run (step scaled debug) p es).isSome := by
  intro hReturns
  have hNone : p'.setWorkerKeepalive scaled 0 = none :=
    setWorkerKeepalive_eq_none_iff.mpr
      ⟨hThreshold, sma, hSma, hZero⟩
  have hAll := hReturns (es ++ [.setWorkerKeepalive 0])
  rw [run_append_eq, hRun] at hAll
  simp [run, step, hNone] at hAll

/- No worker has had a request. -/
theorem fresh_of_keepaliveArgs
    {args : Bytes}
    (hArgs : keepaliveArgs args = some p) :
    (∀ w, p.waitTimes w = none) ∧
      ∀ w, p.lastRequest w = none := by
  unfold keepaliveArgs at hArgs
  split at hArgs
  · simp only [Option.bind_eq_bind,
      Option.bind_eq_some_iff] at hArgs
    rcases hArgs with ⟨_, _, _, _, _, _, _, _, hSome⟩
    cases hSome
    exact ⟨fun _ => rfl, fun _ => rfl⟩
  · cases hArgs

/-
  For all arguments that are accepted: no sequence of
  requests and of times that are sent divides by a zero
  average, exactly if the threshold is not zero, or if only
  first requests are recorded and their average is not zero.
-/
theorem returns_iff_threshold
    (scaled : Int → UInt32 → UInt32)
    (debug : Bool)
    (args : Bytes)
    {p : KeepaliveMovingInterval}
    (hArgs : keepaliveArgs args = some p) :
    (∀ es, (run (step scaled debug) p es).isSome) ↔
      p.concurrencyThreshold ≠ 0 ∨
        debug = false ∧ p.first.getSma ≠ 0 := by
  rcases fresh_of_keepaliveArgs hArgs with ⟨hTimes, hLast⟩
  constructor
  · intro hReturns
    by_contra hUnsafe
    rw [not_or, not_not] at hUnsafe
    rcases hUnsafe with ⟨hThreshold, hAverage⟩
    cases debug with
    | true =>
        rcases average_vanishes scaled hTimes hLast
          hThreshold with ⟨p', sma, hRun, hSma, hZero, hNext⟩
        exact not_returns_of_zero hRun hNext hSma hZero hReturns
    | false =>
        -- the average of a first request is zero already
        have hZero : p.first.getSma = 0 := by
          simpa using hAverage
        have hRun :
            run (step scaled false) p [.startedANewJob 0 0] =
              some (p.startedANewJob false 0 0) := rfl
        refine not_returns_of_zero hRun ?_ ?_ hZero hReturns
        · simpa [startedANewJob, hLast] using hThreshold
        · simp [startedANewJob, hLast, hTimes, first]
  · intro hSafe es
    have hStart : Safe debug p := by
      rcases hSafe with h | ⟨hDebug, hAverage⟩
      · exact Or.inl h
      · refine Or.inr ⟨hDebug, fun w => ?_, hAverage⟩
        rw [hTimes w, hLast w]
        rfl
    refine
      (isSome_run_iff_along
        (C := fun _ _ => True) (J := Safe debug)
        (fun _ _ _ hInv hStep => safe_step hInv hStep) ?_
        hStart).mpr
        (along_of_forall (fun _ _ => trivial))
    intro q e hInv
    simp [hInv.isSome_step e]

/-
  Averages of ten requests: with a threshold of five, and
  without one as long as only the default is recorded.
-/
theorem returns_with_threshold :
    (∃ p,
      keepaliveArgs (Decimal.ascii "10:1000:5:20") = some p ∧
        ∀ es,
          (run (step (fun _ sma => sma) true) p
            es).isSome) ∧
    ∃ p,
      keepaliveArgs (Decimal.ascii "10:1000:0:20") = some p ∧
        ∀ es,
          (run (step (fun _ sma => sma) false) p
            es).isSome := by
  refine ⟨⟨_, rfl, ?_⟩, ⟨_, rfl, ?_⟩⟩
  · exact (returns_iff_threshold (fun _ sma => sma) true
      (Decimal.ascii "10:1000:5:20") rfl).mpr (by decide)
  · exact (returns_iff_threshold (fun _ sma => sma) false
      (Decimal.ascii "10:1000:0:20") rfl).mpr (by decide)

/-
  With a ring of ten and a default of one millisecond the
  average of the first request is zero.
-/
theorem divides_by_zero :
    ∃ p,
      keepaliveArgs (Decimal.ascii "10:1:0:20") = some p ∧
        ∀ scaled debug,
          run (step scaled debug) p
              [.startedANewJob 0 0, .setWorkerKeepalive 0] =
            none := by
  refine ⟨_, rfl, ?_⟩
  intro scaled debug
  rfl

end KeepaliveMovingInterval

end Proxy

end Slfs
