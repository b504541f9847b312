import Slfs.DataFunction.Replication
import Mathlib.Tactic.Linarith

/-
  The servers of the copies of a block.

  The server of a copy is drawn from an engine that is seeded
  with the file's key, after a number of draws, which is
  computed in `int` from the block and the index of the copy.
  Two draws may be equal, all copies of a block zero are drawn
  at the same place, and for large blocks the number overflows.

  Main declarations:
    * `ReplicationConf.copyHost`
    * `ReplicationConf.copies_apart_any_generator_iff`
-/

----------
-- Numbers Of Discarded Draws
----------

namespace Slfs

/- A product in `int`. Leaving the range is undefined. -/
def intMul (a b : Int) : Option Int :=
  if -2 ^ 31 ≤ a * b ∧ a * b < 2 ^ 31 then some (a * b)
  else none

/- A 32-bit number that is passed as an `int`. -/
def asInt (n : Nat) : Int :=
  (n : Int).bmod (2 ^ 32)

/- The argument of `discard`. -/
def discardCount
    (partition replicationIndex : Int) : Option Int :=
  match intMul partition replicationIndex with
  | none => none
  | some n => intMul partition n

/- The count is never below the product inside of it. -/
theorem abs_mul_le
    (p : Int)
    (i : Nat) :
    -(p * (p * i)) ≤ p * i ∧ p * i ≤ p * (p * i) := by
  have hIndex : (0 : Int) ≤ i := Int.natCast_nonneg i
  have hBelow : 0 ≤ p * (p - 1) := by
    by_cases hp : p ≤ 0
    · exact mul_nonneg_of_nonpos_of_nonpos hp (by omega)
    · exact mul_nonneg (by omega) (by omega)
  have hAbove : 0 ≤ p * (p + 1) := by
    by_cases hp : p < 0
    · exact mul_nonneg_of_nonpos_of_nonpos (by omega) (by omega)
    · exact mul_nonneg (by omega) (by omega)
  have hFirst := mul_nonneg hBelow hIndex
  have hSecond := mul_nonneg hAbove hIndex
  constructor
  · linarith
  · linarith

theorem intMul_eq_some_iff
    {a b n : Int} :
    intMul a b = some n ↔
      (-2 ^ 31 ≤ a * b ∧ a * b < 2 ^ 31) ∧ a * b = n := by
  unfold intMul
  split
  · rename_i hFits
    rw [Option.some.injEq]
    exact (and_iff_right hFits).symm
  · rename_i hOut
    constructor
    · intro h
      cases h
    · intro h
      exact absurd h.1 hOut

variable {i : Nat}

/- The count is defined as far as it fits itself. -/
theorem discardCount_eq_some_iff
    {p n : Int} :
    discardCount p i = some n ↔
      p * (p * i) < 2 ^ 31 ∧ p * (p * i) = n := by
  have hBounds := abs_mul_le p i
  unfold discardCount
  constructor
  · intro h
    cases hInner : intMul p i with
    | none => simp [hInner] at h
    | some m =>
        rw [hInner] at h
        rcases intMul_eq_some_iff.mp hInner with ⟨_, hEq⟩
        rw [← hEq] at h
        rcases intMul_eq_some_iff.mp h with ⟨hFits, hCount⟩
        exact ⟨hFits.2, hCount⟩
  · rintro ⟨hFits, hCount⟩
    have hInner : intMul p i = some (p * i) := by
      apply intMul_eq_some_iff.mpr
      exact ⟨by omega, rfl⟩
    rw [hInner]
    apply intMul_eq_some_iff.mpr
    exact ⟨by omega, hCount⟩

theorem discardCount_isSome_iff
    {p : Int} :
    (discardCount p i).isSome ↔ p * (p * i) < 2 ^ 31 := by
  rw [Option.isSome_iff_exists]
  simp [discardCount_eq_some_iff]

/- The largest index decides. -/
theorem discardCounts_isSome_iff
    (p : Int)
    (size : Nat) :
    (∀ i < size, (discardCount p (i : Nat)).isSome) ↔
      p * (p * (size - 1 : Nat)) < 2 ^ 31 := by
  have hSquare : 0 ≤ p * p := mul_self_nonneg p
  constructor
  · intro h
    by_cases hSize : size = 0
    · subst hSize
      simp
    · exact discardCount_isSome_iff.mp (h (size - 1) (by omega))
  · intro hLast i hi
    apply discardCount_isSome_iff.mpr
    have hIndex : (i : Int) ≤ (size - 1 : Nat) := by omega
    have hMore := mul_le_mul_of_nonneg_left hIndex hSquare
    rw [mul_assoc, mul_assoc] at hMore
    omega

----------
-- Servers Of The Copies
----------

namespace ReplicationConf

/-
  The server of a copy, by the index of the copy. Copy zero
  is the block itself, which is in the first half of the
  backend list. Undefined when the count overflows.
-/
def copyHost
    (conf : ReplicationConf)
    (k : BlockKey)
    (index : Nat) : Option Nat :=
  (discardCount (asInt k.blockid) index).map (fun n =>
    let selected := conf.draw k.uuid n.toNat
    if index = 0 then conf.backend selected
    else
      conf.backend (conf.replicationStartIndex + selected))

/-
  All copies of a block have a server, and no two of them
  the same one.
-/
def CopiesApart
    (conf : ReplicationConf)
    (k : BlockKey) : Prop :=
  (∀ i < max 1 conf.replicationSize,
      (discardCount (asInt k.blockid) (i : Nat)).isSome) ∧
    ∀ i < max 1 conf.replicationSize,
      ∀ j < max 1 conf.replicationSize,
        i ≠ j → conf.copyHost k i ≠ conf.copyHost k j

variable {conf : ReplicationConf} {k : BlockKey}

/- Both halves of the list name the same servers. -/
theorem copyHost_of_count
    {index : Nat}
    {n : Int}
    (h : discardCount (asInt k.blockid) index = some n) :
    conf.copyHost k index =
      some (conf.draw k.uuid n.toNat) := by
  have hLt := conf.draw_lt k.uuid n.toNat
  have hFirst :
      conf.backend (conf.draw k.uuid n.toNat) =
        conf.draw k.uuid n.toNat := by
    simp [backend, hLt]
  have hSecond :
      conf.backend (conf.replicationStartIndex +
          conf.draw k.uuid n.toNat) =
        conf.draw k.uuid n.toNat := by
    simp [backend]
  rw [copyHost, h, Option.map_some]
  simp only [hFirst, hSecond, ite_self]

/- The block itself is where its requests are sent. -/
theorem copyHost_zero :
    conf.copyHost k 0 =
      some (Cluster.host conf.toStorageConf k) := by
  have hCount :
      discardCount (asInt k.blockid) (0 : Nat) = some 0 := by
    apply discardCount_eq_some_iff.mpr
    simp
  rw [copyHost_of_count hCount]
  simp [Cluster.host, StorageConf.selectReplica]

/- The copies are where the requests for them are sent. -/
theorem copyHost_eq_replicaHost
    {index : Nat}
    (hBlock : k.blockid < 2 ^ 31)
    (hCount :
      k.blockid * (k.blockid * index) < 2 ^ 31) :
    conf.copyHost k index =
      some (conf.replicaHost k index) := by
  have hInt : asInt k.blockid = k.blockid := by
    apply Int.bmod_eq_of_le
    · omega
    · omega
  have hDiscard :
      discardCount (asInt k.blockid) index =
        some ((k.blockid * (k.blockid * index) : Nat) :
          Int) := by
    apply discardCount_eq_some_iff.mpr
    rw [hInt]
    push_cast
    exact ⟨by exact_mod_cast hCount, rfl⟩
  rw [copyHost_of_count hDiscard, Int.toNat_natCast]
  simp [replicaHost, backend, StorageConf.selectReplica]

/-
  The copies are apart when the last count fits into an
  `int` and the generator yields different servers at all
  counts.
-/
theorem copiesApart_iff
    (conf : ReplicationConf)
    (k : BlockKey) :
    conf.CopiesApart k ↔
      asInt k.blockid *
          (asInt k.blockid * (conf.replicationSize - 1 : Nat)) <
        2 ^ 31 ∧
      ∀ i < max 1 conf.replicationSize,
        ∀ j < max 1 conf.replicationSize, i ≠ j →
          conf.draw k.uuid
              (asInt k.blockid * (asInt k.blockid * i)).toNat ≠
            conf.draw k.uuid
              (asInt k.blockid * (asInt k.blockid * j)).toNat
    := by
  have hLast :
      max 1 conf.replicationSize - 1 =
        conf.replicationSize - 1 := by
    omega
  unfold CopiesApart
  rw [discardCounts_isSome_iff, hLast]
  refine and_congr_right ?_
  intro hFits
  rw [← hLast] at hFits
  have hCounts := (discardCounts_isSome_iff _ _).mpr hFits
  have hHost :
      ∀ i < max 1 conf.replicationSize,
        conf.copyHost k i =
          some (conf.draw k.uuid
            (asInt k.blockid *
              (asInt k.blockid * i)).toNat) := by
    intro i hi
    have hCount := discardCount_isSome_iff.mp (hCounts i hi)
    exact copyHost_of_count
      (discardCount_eq_some_iff.mpr ⟨hCount, rfl⟩)
  constructor
  · intro h i hi j hj hNe hSame
    apply h i hi j hj hNe
    rw [hHost i hi, hHost j hj, hSame]
  · intro h i hi j hj hNe hSame
    rw [hHost i hi, hHost j hj, Option.some.injEq] at hSame
    exact h i hi j hj hNe hSame

/-
  Whatever the generator yields, the copies of a block are
  apart exactly when there are no copies besides the block.
-/
theorem copies_apart_any_generator_iff
    {size hosts : Nat}
    (hHosts : size ≤ hosts)
    (k : BlockKey) :
    (∀ conf : ReplicationConf,
        conf.replicationSize = size →
        conf.replicationStartIndex = hosts →
        conf.CopiesApart k) ↔
      size ≤ 1 := by
  constructor
  · intro h
    by_contra hSize
    -- a generator that always yields the first server
    let conf : ReplicationConf :=
      { StorageConf.standard with
        replicationSize := size
        replicationStartIndex := hosts
        draw_lt := fun _ _ => by
          change 0 < hosts
          omega }
    have hApart := (copiesApart_iff conf k).mp
      (h conf rfl rfl)
    have hMore : 1 < max 1 conf.replicationSize := by
      change 1 < max 1 size
      omega
    exact hApart.2 0 (by omega) 1 hMore (by omega) rfl
  · intro hSize conf hConf _
    apply (copiesApart_iff conf k).mpr
    rw [hConf]
    have hNone : size - 1 = 0 := by omega
    have hOne : max 1 size = 1 := by omega
    rw [hNone, hOne]
    refine ⟨by simp, ?_⟩
    intro i hi j hj hNe
    omega

/- A single copy on three servers. -/
theorem copies_apart_single :
    (1 ≤ 3) ∧
      ({ StorageConf.standard with
          draw := fun _ n => n % 3
          replicationSize := 1
          replicationStartIndex := 3
          draw_lt := fun _ n =>
            Nat.mod_lt n (by decide) } : ReplicationConf
        ).CopiesApart
        { uuid := Vector.replicate 32 7, blockid := 5 } :=
  have hHosts : 1 ≤ 3 := by decide
  ⟨hHosts,
    (copies_apart_any_generator_iff hHosts _).mpr
      (by decide) _ rfl rfl⟩

/- Three copies on three servers. -/
def three : ReplicationConf :=
  { StorageConf.standard with
    draw := fun _ n => n % 3
    replicationSize := 3
    replicationStartIndex := 3
    draw_lt := fun _ n => Nat.mod_lt n (by decide) }

/-
  All copies of the first block are on one server, and so
  are those of the fourth. The count of block 46341
  overflows.
-/
theorem copies_together :
    (three.replicationSize ≤ three.replicationStartIndex) ∧
      (List.range 3).map (three.copyHost
          { uuid := Vector.replicate 32 7, blockid := 0 }) =
        [some 0, some 0, some 0] ∧
      (List.range 3).map (three.copyHost
          { uuid := Vector.replicate 32 7, blockid := 3 }) =
        [some 0, some 0, some 0] ∧
      (List.range 3).map (three.copyHost
          { uuid := Vector.replicate 32 7
            blockid := 46341 }) =
        [some 0, none, none] := by
  decide +kernel

end ReplicationConf

end Slfs
