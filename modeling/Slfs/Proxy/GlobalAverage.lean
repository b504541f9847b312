import Mathlib.Algebra.Order.BigOperators.Group.List
import Mathlib.Algebra.Order.Group.Nat
import Slfs.Proxy.KeepAlive

/-
  The moving average over the requests to all workers.

  Until the ring is full the sum is divided by the count of
  the inputs, which starts at one and so is always one more
  than the number of inputs.

  Main declarations:
    * `Proxy.SmaGlobal.Settled`
    * `Proxy.SmaGlobal.averages_iff_settled`
-/

----------
-- Averages
----------

namespace Slfs

open Transition

namespace Proxy

/- Between the smallest and the largest of some numbers. -/
def Between (x : UInt32) (xs : List UInt32) : Prop :=
  (∃ a ∈ xs, a ≤ x) ∧ ∃ b ∈ xs, x ≤ b

instance (x : UInt32) (xs : List UInt32) :
    Decidable (Between x xs) :=
  inferInstanceAs (Decidable (_ ∧ _))

/- A rounded average is neither too small nor too large. -/
theorem Between.average
    {x : UInt32}
    {xs : List UInt32}
    (hSize : 0 < xs.length)
    (hAverage :
      x.toNat =
        (Sma.total xs + xs.length / 2) / xs.length) :
    Between x xs := by
  have hLow : x.toNat * xs.length ≤
      Sma.total xs + xs.length / 2 := by
    rw [hAverage]
    exact Nat.div_mul_le_self _ _
  have hHigh : Sma.total xs + xs.length / 2 <
      (x.toNat + 1) * xs.length := by
    rw [hAverage, ← Nat.div_lt_iff_lt_mul hSize]
    exact Nat.lt_succ_self _
  constructor
  · have hSum :
        (xs.map UInt32.toNat).sum <
          (xs.map (fun _ => x.toNat + 1)).sum := by
      rw [List.map_const', List.sum_replicate_nat,
        Nat.mul_comm]
      exact Nat.lt_of_le_of_lt (Nat.le_add_right _ _) hHigh
    rcases List.exists_lt_of_sum_lt _ _ hSum with ⟨a, ha, hLt⟩
    exact ⟨a, ha, UInt32.le_iff_toNat_le.mpr
      (Nat.le_of_lt_succ hLt)⟩
  · have hSum :
        (xs.map (fun _ => x.toNat)).sum <
          (xs.map (fun b => b.toNat + 1)).sum := by
      rw [List.map_const', List.sum_replicate_nat,
        Nat.mul_comm, List.sum_map_add, List.map_const',
        List.sum_replicate_nat, Nat.mul_one]
      have hHalf := Nat.div_lt_self hSize (by decide : 1 < 2)
      exact Nat.lt_of_le_of_lt hLow
        (Nat.add_lt_add_left hHalf _)
    rcases List.exists_lt_of_sum_lt _ _ hSum with ⟨b, hb, hLt⟩
    exact ⟨b, hb, UInt32.le_iff_toNat_le.mpr
      (Nat.le_of_lt_succ hLt)⟩

/- A ring, and a count of its inputs that starts at one. -/
structure SmaGlobal extends Sma where
  iterCounter : Nat
deriving DecidableEq, Repr

namespace SmaGlobal

def create (bufferSize : UInt32) : SmaGlobal :=
  { toSma := Sma.create bufferSize
    iterCounter := 1 }

def getSma (s : SmaGlobal) : UInt32 :=
  if s.iterCounter < (s.n + 1).toNat then
    UInt32.ofNat ((s.sum + s.n / 2).toNat / s.iterCounter)
  else (s.sum + s.n / 2) / s.n

/-
  The average after the input, and the ring with it. To
  count further than a signed number of 64 bits goes is
  undefined.
-/
def record (input : UInt32) (s : SmaGlobal) :
    Option (UInt32 × SmaGlobal) :=
  if s.iterCounter + 1 < 2 ^ 63 then
    let s' : SmaGlobal :=
      { toSma := s.toSma.record input
        iterCounter := s.iterCounter + 1 }
    some (s'.getSma, s')
  else none

def step (s : SmaGlobal) (input : UInt32) :
    Option SmaGlobal :=
  (s.record input).map Prod.snd

/-
  What the last record returns, and what is read after it,
  is between the last inputs.
-/
def Averages
    (bufferSize : UInt32)
    (earlier : List UInt32)
    (input : UInt32) : Prop :=
  ∃ s x s',
    run step (create bufferSize) earlier = some s ∧
      s.record input = some (x, s') ∧
      let inputs := earlier ++ [input]
      let last :=
        inputs.drop (inputs.length - bufferSize.toNat)
      Between x last ∧ Between s'.getSma last

/-
  The ring is full; or with `k` inputs and their sum, in 32
  bits and with half of the size of the ring added,
  `min * (k + 1) ≤ sum < (max + 1) * (k + 1)`.
-/
def Settled (n : Nat) (inputs : List UInt32) : Prop :=
  let sum := (Sma.total inputs + n / 2) % 2 ^ 32
  let count := inputs.length + 1
  n ≤ inputs.length ∨
    (∃ a ∈ inputs, a.toNat * count ≤ sum) ∧
      ∃ b ∈ inputs, sum < (b.toNat + 1) * count

/- The ring has the inputs, and the count is one ahead. -/
structure Follows
    (s : SmaGlobal)
    (n : UInt32)
    (inputs : List UInt32) : Prop where
  holds : s.toSma.Holds n inputs
  counter : s.iterCounter = inputs.length + 1

variable {s s' : SmaGlobal} {n : UInt32}
variable {inputs : List UInt32} {input x : UInt32}

theorem Follows.record
    (h : s.Follows n inputs)
    (hRecord : s.record input = some (x, s')) :
    s'.Follows n (inputs ++ [input]) ∧
      x = s'.getSma ∧ inputs.length + 2 < 2 ^ 63 := by
  unfold SmaGlobal.record at hRecord
  split at hRecord
  · rename_i hCount
    cases hRecord
    refine ⟨⟨h.holds.record input, ?_⟩, rfl, ?_⟩
    · simp [h.counter]
    · rw [h.counter] at hCount
      exact hCount
  · cases hRecord

theorem follows_of_run
    (hSize : 0 < n.toNat)
    (hRun :
      run step (create n) inputs = some s) :
    s.Follows n inputs := by
  induction inputs using List.reverseRecOn generalizing s with
  | nil =>
      cases hRun
      have hSame : (Sma.create n).n = n := by
        unfold Sma.create
        rw [if_neg]
        rintro rfl
        cases hSize
      have hHolds := Sma.holds_create n
      rw [hSame] at hHolds
      exact ⟨hHolds, rfl⟩
  | append_singleton inputs input ih =>
      rcases run_append.mp hRun with
        ⟨m, hFirst, hLast⟩
      rcases Option.map_eq_some_iff.mp
        (run_singleton.mp hLast) with
        ⟨⟨x, s₁⟩, hRecord, hEq⟩
      cases hEq
      exact ((ih hFirst).record hRecord).1

/- There is a next state until the count is at its end. -/
theorem exists_run
    (hSize : 0 < n.toNat)
    (hCount : inputs.length + 1 < 2 ^ 63) :
    ∃ s,
      run step (create n) inputs = some s := by
  induction inputs using List.reverseRecOn with
  | nil => exact ⟨_, rfl⟩
  | append_singleton inputs input ih =>
      rw [List.length_append, List.length_singleton] at hCount
      rcases ih (by omega) with ⟨s, hRun⟩
      have hFollows := follows_of_run hSize hRun
      have hStep : ∃ s', s.step input = some s' := by
        rw [step, SmaGlobal.record, hFollows.counter,
          if_pos hCount]
        exact ⟨_, rfl⟩
      rcases hStep with ⟨s', hStep⟩
      exact ⟨s', run_append.mpr
        ⟨s, hRun, run_singleton.mpr hStep⟩⟩

/- In a full ring the sum is that of the last inputs. -/
theorem Follows.between_of_full
    (h : s.Follows n inputs)
    (hFull : n.toNat ≤ inputs.length)
    (hSmall : n.toNat < 2 ^ 31)
    (hSum :
      Sma.total (inputs.drop (inputs.length - n.toNat)) <
        2 ^ 32 - n.toNat) :
    Between s.getSma
      (inputs.drop (inputs.length - n.toNat)) := by
  have hSize := Nat.zero_lt_of_lt h.holds.index
  have hLength :
      (inputs.drop (inputs.length - n.toNat)).length =
        n.toNat := by
    rw [List.length_drop]
    omega
  have hTotal := h.holds.sum
  rw [Sma.window_of_le hFull] at hTotal
  apply Between.average (by omega)
  rw [hLength, getSma, if_neg, h.holds.size]
  · simp only [UInt32.toNat_div, UInt32.toNat_add,
      UInt32.reduceToNat, hTotal]
    congr 1
    omega
  · rw [h.counter, h.holds.size, UInt32.toNat_add]
    simp only [UInt32.reduceToNat]
    omega

/- Before that there are fewer inputs than are counted. -/
theorem Follows.getSma_of_filling
    (h : s.Follows n inputs)
    (hFilling : inputs.length < n.toNat)
    (hSmall : n.toNat < 2 ^ 31) :
    s.getSma.toNat =
      (Sma.total inputs + n.toNat / 2) % 2 ^ 32 /
        (inputs.length + 1) := by
  have hTotal := h.holds.sum
  rw [Sma.total_window_of_le (Nat.le_of_lt hFilling)] at hTotal
  rw [getSma, if_pos, h.counter, h.holds.size]
  · simp only [UInt32.toNat_ofNat', UInt32.toNat_div,
      UInt32.toNat_add, UInt32.reduceToNat, hTotal]
    rw [Nat.mod_eq_of_lt]
    · congr 1
      omega
    · exact Nat.lt_of_le_of_lt (Nat.div_le_self _ _)
        (Nat.mod_lt _ (by decide))
  · rw [h.counter, h.holds.size, UInt32.toNat_add]
    simp only [UInt32.reduceToNat]
    omega

theorem Follows.between_iff
    (h : s.Follows n inputs)
    (hSmall : n.toNat < 2 ^ 31)
    (hSums :
      ∀ i, i + n.toNat ≤ inputs.length →
        Sma.total ((inputs.drop i).take n.toNat) <
          2 ^ 32 - n.toNat) :
    Between s.getSma
        (inputs.drop (inputs.length - n.toNat)) ↔
      Settled n.toNat inputs := by
  by_cases hFull : n.toNat ≤ inputs.length
  · have hSum := hSums (inputs.length - n.toNat) (by omega)
    rw [List.take_of_length_le (by
      rw [List.length_drop]
      omega)] at hSum
    exact iff_of_true (h.between_of_full hFull hSmall hSum)
      (Or.inl hFull)
  · have hSma := h.getSma_of_filling (by omega) hSmall
    rw [Nat.sub_eq_zero_of_le (by omega), List.drop_zero]
    simp only [Between, Settled, hFull, false_or,
      UInt32.le_iff_toNat_le, hSma,
      Nat.le_div_iff_mul_le (Nat.succ_pos _),
      ← Nat.lt_succ_iff, Nat.div_lt_iff_lt_mul
        (Nat.succ_pos _)]

/-
  For every ring and all inputs, any of which as many as the
  ring has slots have a small sum: the averages are between
  the last inputs exactly if the ring is full, or while it
  fills `min * (k + 1) ≤ sum < (max + 1) * (k + 1)`.
-/
theorem averages_iff_settled
    (bufferSize : UInt32)
    (hSize : 1 ≤ bufferSize.toNat)
    (hSmall : bufferSize.toNat < 2 ^ 31)
    (earlier : List UInt32)
    (input : UInt32)
    (hSums :
      ∀ i,
        i + bufferSize.toNat ≤ (earlier ++ [input]).length →
          Sma.total (((earlier ++ [input]).drop i).take
              bufferSize.toNat) <
            2 ^ 32 - bufferSize.toNat) :
    Averages bufferSize earlier input ↔
      (earlier ++ [input]).length + 1 < 2 ^ 63 ∧
        Settled bufferSize.toNat (earlier ++ [input]) := by
  constructor
  · rintro ⟨s, x, s', hRun, hRecord, _, hBetween⟩
    rcases (follows_of_run hSize hRun).record hRecord with
      ⟨hFollows, _, hCount⟩
    refine ⟨?_, (hFollows.between_iff hSmall hSums).mp
      hBetween⟩
    simpa using hCount
  · rintro ⟨hCount, hSettled⟩
    rcases exists_run hSize hCount with ⟨s', hRun⟩
    rcases run_append.mp hRun with
      ⟨s, hFirst, hLast⟩
    rcases Option.map_eq_some_iff.mp
      (run_singleton.mp hLast) with
      ⟨⟨x, s₁⟩, hRecord, hEq⟩
    cases hEq
    rcases (follows_of_run hSize hFirst).record hRecord with
      ⟨hFollows, hx, _⟩
    have hBetween :=
      (hFollows.between_iff hSmall hSums).mpr hSettled
    exact ⟨s, x, s₁, hFirst, hRecord, hx ▸ hBetween, hBetween⟩

/- Two inputs into a ring of two. -/
theorem averages_of_two : Averages 2 [4] 6 := by
  refine (averages_iff_settled 2 (by decide) (by decide) [4] 6
    ?_).mpr ⟨by decide, Or.inl (by decide)⟩
  intro i hi
  have hZero : i = 0 := by
    simpa using hi
  subst hZero
  decide

/-
  The first input into a ring of ten is halved, and one of
  zero is not averaged to zero.
-/
theorem first_input_halved :
    ¬ Averages 10 [] 100 ∧ ¬ Averages 10 [] 0 := by
  constructor
  · rintro ⟨s, x, s', hRun, hRecord, hBetween, _⟩
    cases hRun
    cases hRecord
    revert hBetween
    decide
  · rintro ⟨s, x, s', hRun, hRecord, hBetween, _⟩
    cases hRun
    cases hRecord
    revert hBetween
    decide

end SmaGlobal

end Proxy

end Slfs
