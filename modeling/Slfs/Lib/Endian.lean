import Mathlib.Algebra.Order.Ring.Int
import Mathlib.Data.List.Induction

/-
  Numbers in big-endian fields of a fixed width.

  Main declarations:
    * `Endian.encode`
    * `Endian.decode_encode`
-/

----------
-- Fields
----------

namespace Slfs

namespace Endian

/- The last `n` bytes of a number, most significant first. -/
def encode : Nat → Nat → List UInt8
| 0, _ => []
| n + 1, x => encode n (x / 256) ++ [UInt8.ofNat x]

/- The number in a field. -/
def decode (bytes : List UInt8) : Nat :=
  bytes.foldl (fun x b => x * 256 + b.toNat) 0

@[simp] theorem length_encode
    (n x : Nat) :
    (encode n x).length = n := by
  induction n generalizing x with
  | zero => rfl
  | succ n ih => simp [encode, ih]

theorem decode_append
    (bytes : List UInt8)
    (b : UInt8) :
    decode (bytes ++ [b]) = decode bytes * 256 + b.toNat := by
  simp [decode]

/- A number that fits its field is read back. -/
theorem decode_encode
    {n x : Nat}
    (h : x < 256 ^ n) :
    decode (encode n x) = x := by
  induction n generalizing x with
  | zero =>
      have hZero : x = 0 := by simpa using h
      subst hZero
      rfl
  | succ n ih =>
      have hDiv : x / 256 < 256 ^ n := by
        rw [Nat.pow_succ] at h
        exact Nat.div_lt_of_lt_mul (by rwa [Nat.mul_comm])
      have hByte : (UInt8.ofNat x).toNat = x % 256 :=
        UInt8.toNat_ofNat'
      rw [encode, decode_append, ih hDiv, hByte]
      omega

end Endian

end Slfs
