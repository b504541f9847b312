import Mathlib.Algebra.Order.Ring.Int
import Mathlib.Data.List.TakeWhile

/-
  Decimal numerals as byte strings, written as the standard
  library's integer-to-string conversion writes them and read
  as its string-to-integer conversion reads them.

  Main declarations:
    * `Decimal.toString`
    * `Decimal.stoll` and `Decimal.stoi`
    * `Decimal.stoll_toString`
-/

----------
-- Numerals
----------

namespace Slfs

/- The characters that tell the parts of a text apart. -/
namespace Mark

def colon : UInt8 := 58
def comma : UInt8 := 44
def dot : UInt8 := 46
def space : UInt8 := 32

end Mark

namespace Decimal

/- The bytes of a text of one-byte characters. -/
def ascii (s : String) : List UInt8 :=
  s.toList.map (fun c => c.toNat.toUInt8)

/- Decimal digits of a number, most significant first. -/
def toString (n : Nat) : List UInt8 :=
  (Nat.toDigits 10 n).map (fun c => c.toNat.toUInt8)

/- The bytes `0` to `9`. -/
def isDigit (b : UInt8) : Bool :=
  48 ≤ b.toNat && b.toNat ≤ 57

def startsWithDigit : List UInt8 → Bool
| [] => false
| b :: _ => isDigit b

/- The bytes that number parsing skips at the front. -/
def isSpace (b : UInt8) : Bool :=
  b.toNat == 32 || (9 ≤ b.toNat && b.toNat ≤ 13)

/- Value of a string of digits. -/
def value (ds : List UInt8) : Nat :=
  ds.foldl (fun v b => 10 * v + (b.toNat - 48)) 0

/- The sign of a numeral, and what follows it. -/
def splitSign : List UInt8 → Bool × List UInt8
| [] => (false, [])
| b :: rest =>
    if b.toNat = 45 then (true, rest)
    else if b.toNat = 43 then (false, rest)
    else (false, b :: rest)

/-
  Parse a 64-bit signed number: white space, a sign and the
  longest run of digits. No digits and values out of range
  are errors.
-/
def stoll (s : List UInt8) : Option Int :=
  let signed := splitSign (s.dropWhile isSpace)
  let ds := signed.2.takeWhile isDigit
  let v : Int := if signed.1 then -(value ds) else value ds
  if ds = [] then none
  else if -(2 ^ 63) ≤ v ∧ v < 2 ^ 63 then some v
  else none

/- `std::stoi`, which throws where the number does not fit. -/
def stoi (s : List UInt8) : Option Int :=
  (stoll s).filter
    (fun v => decide (-(2 ^ 31) ≤ v ∧ v < 2 ^ 31))

----------
-- Digits Of A Numeral
----------

/- A digit character is the byte of its code. -/
theorem toNat_digit
    {c : Char}
    (hc : c.isDigit) :
    c.toNat.toUInt8.toNat = c.toNat ∧
      48 ≤ c.toNat ∧ c.toNat ≤ 57 := by
  have hRange : 48 ≤ c.toNat ∧ c.toNat ≤ 57 := by
    simp only [Char.isDigit, Bool.and_eq_true,
      decide_eq_true_eq, ge_iff_le,
      UInt32.le_iff_toNat_le] at hc
    exact hc
  refine ⟨?_, hRange⟩
  have hSmall : c.toNat < 256 := by omega
  simp [Nat.toUInt8, Nat.mod_eq_of_lt hSmall]

variable {n : Nat} {b sep : UInt8}

/- Numerals consist of digits. -/
theorem isDigit_of_mem_toString
    (hb : b ∈ toString n) :
    isDigit b = true := by
  rcases List.mem_map.mp hb with ⟨c, hc, hEq⟩
  have hDigit : c.isDigit :=
    Nat.isDigit_of_mem_toDigits (by omega) (by omega) hc
  rcases toNat_digit hDigit with ⟨hNat, hLow, hHigh⟩
  subst hEq
  simp [isDigit, hNat, hLow, hHigh]

theorem toString_ne_nil
    (n : Nat) :
    toString n ≠ [] := by
  simp [toString, Nat.toDigits_ne_nil]

/- The value of a numeral is the number it was made from. -/
theorem value_toString
    (n : Nat) :
    value (toString n) = n := by
  have hFold :
      ∀ (cs : List Char) (v : Nat),
        (∀ c ∈ cs, c.isDigit) →
          (cs.map (fun c => c.toNat.toUInt8)).foldl
              (fun v b => 10 * v + (b.toNat - 48)) v =
            Nat.ofDigitChars 10 cs v := by
    intro cs
    induction cs with
    | nil =>
        intro v _
        simp
    | cons c cs ih =>
        intro v hDigits
        have hc := toNat_digit (hDigits c List.mem_cons_self)
        simp only [List.map_cons, List.foldl_cons,
          Nat.ofDigitChars_cons]
        rw [hc.1, ih _ (fun d hd =>
          hDigits d (List.mem_cons_of_mem _ hd))]
        rfl
  have hDigits : ∀ c ∈ Nat.toDigits 10 n, c.isDigit := by
    intro c hc
    exact Nat.isDigit_of_mem_toDigits (by omega) (by omega) hc
  unfold value toString
  rw [hFold _ 0 hDigits, Nat.ofDigitChars_ten_toDigits]

theorem toString_injective :
    Function.Injective toString := by
  intro n m h
  have hValue := congrArg value h
  rwa [value_toString, value_toString] at hValue

----------
-- Parsing
----------

/- Numerals start with neither a space nor a sign. -/
theorem head_of_isDigit
    (hb : isDigit b = true) :
    isSpace b = false ∧ b.toNat ≠ 45 ∧ b.toNat ≠ 43 := by
  simp only [isDigit, Bool.and_eq_true, decide_eq_true_eq]
    at hb
  refine ⟨?_, by omega, by omega⟩
  simp only [isSpace, Bool.or_eq_false_iff, beq_eq_false_iff_ne,
    Bool.and_eq_false_iff, decide_eq_false_iff_not]
  omega

/- A numeral is read to its end, and has no sign. -/
theorem split_toString (n : Nat) :
    splitSign ((toString n).dropWhile isSpace) =
        (false, toString n) ∧
      (toString n).takeWhile isDigit = toString n := by
  have hAll : ∀ b ∈ toString n, isDigit b = true :=
    fun b hb => isDigit_of_mem_toString hb
  have hNe := toString_ne_nil n
  generalize toString n = ds at hAll hNe
  cases ds with
  | nil => exact absurd rfl hNe
  | cons b rest =>
      rcases head_of_isDigit (hAll b List.mem_cons_self) with
        ⟨hSpace, hMinus, hPlus⟩
      constructor
      · simp [hSpace, splitSign, hMinus, hPlus]
      · exact List.takeWhile_eq_self_iff.mpr hAll

/- Parsing a numeral gives back the number. -/
theorem stoll_toString
    (hn : n < 2 ^ 63) :
    stoll (toString n) = some (n : Int) := by
  rcases split_toString n with ⟨hSign, hTake⟩
  have hRange :
      -(2 ^ 63) ≤ (n : Int) ∧ (n : Int) < 2 ^ 63 := by
    omega
  simp only [stoll, hSign, hTake, value_toString]
  rw [if_neg (toString_ne_nil n)]
  simp only [Bool.false_eq_true, if_false]
  rw [if_pos hRange]

----------
-- Numerals Followed By A Separator
----------

/-
  A numeral can be read off the front of a string when what
  follows does not start with a digit.
-/
theorem takeWhile_toString_append
    (n : Nat)
    {rest : List UInt8}
    (hRest : startsWithDigit rest = false) :
    (toString n ++ rest).takeWhile isDigit = toString n := by
  rw [List.takeWhile_append_of_pos
    (fun b hb => isDigit_of_mem_toString hb)]
  cases rest with
  | nil => simp
  | cons b rest =>
      have hb : isDigit b = false := hRest
      simp [hb]

/- Numerals and what follows them can be told apart. -/
theorem toString_append_inj
    {m : Nat}
    {s t : List UInt8}
    (hs : startsWithDigit s = false)
    (ht : startsWithDigit t = false)
    (h : toString n ++ s = toString m ++ t) :
    n = m ∧ s = t := by
  have hTake := congrArg (List.takeWhile isDigit) h
  rw [takeWhile_toString_append n hs,
    takeWhile_toString_append m ht] at hTake
  refine ⟨toString_injective hTake, ?_⟩
  rw [hTake] at h
  exact List.append_cancel_left h

----------
-- Fields Of Digits
----------

/-
  Parse a 64-bit number without a sign of its own: a minus
  sign takes the value from two to the power of 64.
-/
def stoull (s : List UInt8) : Option Nat :=
  let signed := splitSign (s.dropWhile isSpace)
  let ds := signed.2.takeWhile isDigit
  if ds = [] then none
  else if value ds < 2 ^ 64 then
    some
      (if signed.1 then (2 ^ 64 - value ds) % 2 ^ 64
       else value ds)
  else none

/-
  Match a number of runs of digits with a separator between
  them at the front of a text. A run that is cut short is
  followed by a digit, so that only the longest one matches.
-/
def readFields (sep : UInt8) :
    Nat → List UInt8 → Option (List (List UInt8))
| 0, _ => some []
| 1, s =>
    if s.takeWhile isDigit = [] then none
    else some [s.takeWhile isDigit]
| n + 2, s =>
    if s.takeWhile isDigit = [] then none
    else
      match s.dropWhile isDigit with
      | [] => none
      | b :: rest =>
          if b = sep then
            (readFields sep (n + 1) rest).map
              (fun fields => s.takeWhile isDigit :: fields)
          else none

/- The first place of a text where the fields match. -/
def searchFields (sep : UInt8) (n : Nat) :
    List UInt8 → Option (List (List UInt8))
| [] => readFields sep n []
| b :: rest =>
    match readFields sep n (b :: rest) with
    | some fields => some fields
    | none => searchFields sep n rest

end Decimal

end Slfs
