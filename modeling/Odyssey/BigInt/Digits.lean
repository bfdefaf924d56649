import Odyssey.Arithmetic.DigitLists
import Mathlib.Data.Nat.Size

namespace Odyssey.BigInt

open Arithmetic BitVec Nat

/-- What the preprocessor chooses: `USE(JSVALUE64)` and `HAVE(TWO_DIGIT)`. -/
structure Build where
  wide : Bool
  hasTwoDigit : Bool
  deriving DecidableEq, Repr

namespace Build

def halfDigitBits (build : Build) : Nat := if build.wide then 32 else 16

def digitBits (build : Build) : Nat := 2 * build.halfDigitBits

def maxInt : Nat := 0x7FFFFFFF

def maxLength (build : Build) : Nat := 1024 * 1024 / build.digitBits

def maxLengthBits (build : Build) : Nat := maxInt - build.digitBits - 1

end Build

abbrev Digit (build : Build) := BitVec build.digitBits

section Words

variable {w : Nat}

def digitAdd (a b carry : BitVec w) : BitVec w × BitVec w :=
  let result := a + b
  (result, carry + if result < a then 1 else 0)

def digitSub (a b borrow : BitVec w) : BitVec w × BitVec w :=
  let result := a - b
  (result, borrow + if result > a then 1 else 0)

end Words

variable (build : Build)

def halfDigitMask : Digit build := BitVec.ofNat _ (2^build.halfDigitBits - 1)

def digitMulHalves (a b : Digit build) : Digit build × Digit build :=
  let aLow := a &&& halfDigitMask build
  let aHigh := a >>> build.halfDigitBits
  let bLow := b &&& halfDigitMask build
  let bHigh := b >>> build.halfDigitBits
  let rLow := aLow * bLow
  let rMid1 := aLow * bHigh
  let rMid2 := aHigh * bLow
  let rHigh := aHigh * bHigh
  let (low, carry) := digitAdd rLow (rMid1 <<< build.halfDigitBits) 0
  let (low, carry) := digitAdd low (rMid2 <<< build.halfDigitBits) carry
  (low, (rMid1 >>> build.halfDigitBits) + (rMid2 >>> build.halfDigitBits) + rHigh + carry)

def digitMul (a b : Digit build) : Digit build × Digit build :=
  if build.hasTwoDigit then
    let result := a.setWidth (2 * build.digitBits) * b.setWidth (2 * build.digitBits)
    (result.setWidth build.digitBits, (result >>> build.digitBits).setWidth build.digitBits)
  else digitMulHalves build a b

def clz (digit : Digit build) : Nat := build.digitBits - digit.toNat.size

def halfDigitBase : Digit build := BitVec.ofNat _ (2^build.halfDigitBits)

def correct (vn1 vn0 un : Digit build) : Nat → Digit build → Digit build → Digit build
  | 0, q, _ => q
  | rounds + 1, q, rhat =>
    if q ≥ halfDigitBase build ∨ q * vn0 > rhat * halfDigitBase build + un then
      let q := q - 1
      let rhat := rhat + vn1
      if rhat ≥ halfDigitBase build then q else correct vn1 vn0 un rounds q rhat
    else q

/-- The half digit of a quotient; no more than two rounds of corrections are needed. -/
def halfQuotient (vn1 vn0 un32 un1 : Digit build) : Digit build :=
  let q := un32 / vn1
  correct build vn1 vn0 un1 2 q (un32 - q * vn1)

/-- The portable division of two digits by one: the quotient and the remainder. -/
def digitDiv (high low divisor : Digit build) : Digit build × Digit build :=
  let s := clz build divisor
  let divisor := divisor <<< s
  let vn1 := divisor >>> build.halfDigitBits
  let vn0 := divisor &&& halfDigitMask build
  let sZeroMask := (-BitVec.ofNat build.digitBits s).sshiftRight (build.digitBits - 1)
  let shiftMask := build.digitBits - 1
  let un32 := (high <<< s) ||| ((low >>> ((build.digitBits - s) &&& shiftMask)) &&& sZeroMask)
  let un10 := low <<< s
  let un1 := un10 >>> build.halfDigitBits
  let un0 := un10 &&& halfDigitMask build
  let q1 := halfQuotient build vn1 vn0 un32 un1
  let un21 := un32 * halfDigitBase build + un1 - q1 * divisor
  let q0 := halfQuotient build vn1 vn0 un21 un0
  let remainder := (un21 * halfDigitBase build + un0 - q0 * divisor) >>> s
  (q1 * halfDigitBase build + q0, remainder)

def productGreaterThan (factor1 factor2 high low : Digit build) : Bool :=
  let (resultLow, resultHigh) := digitMul build factor1 factor2
  resultHigh > high || (resultHigh == high && resultLow > low)

section WordSpecs

variable {w : Nat}

theorem toNat_one (room : 1 < 2^w) : (1 : BitVec w).toNat = 1 := (toNat_ofNat 1 w).trans (mod_eq_of_lt room)

theorem toNat_zero : (0 : BitVec w).toNat = 0 := BitVec.toNat_zero

theorem toNat_add_flag (count : BitVec w) (flag : Prop) [Decidable flag] (room : count.toNat + 1 < 2^w) :
    (count + if flag then 1 else 0).toNat = count.toNat + if flag then 1 else 0 := by
  split
  · have one := toNat_one (w := w) (by omega)
    rw [toNat_add, one, mod_eq_of_lt room]
  · exact congrArg BitVec.toNat (BitVec.add_zero count)

theorem toNat_add_cases (a b : BitVec w) : (a + b).toNat + 2^w * (if a + b < a then 1 else 0) = a.toNat + b.toNat := by
  simp only [lt_def, toNat_add]
  by_cases wraps : 2^w ≤ a.toNat + b.toNat
  · rw [mod_eq_sub_mod wraps, mod_eq_of_lt (by omega), if_pos (by omega)]
    omega
  · rw [mod_eq_of_lt (by omega), if_neg (by omega)]
    omega

theorem toNat_sub_cases (a b : BitVec w) : (a - b).toNat + b.toNat = a.toNat + 2^w * (if a - b > a then 1 else 0) := by
  simp only [lt_def, toNat_sub]
  by_cases wraps : a.toNat < b.toNat
  · rw [mod_eq_of_lt (by omega), if_pos (by omega)]
    omega
  · rw [mod_eq_sub_mod (by omega), mod_eq_of_lt (by omega), if_neg (by omega)]
    omega

theorem digitAdd_spec (a b carry : BitVec w) (room : carry.toNat + 1 < 2^w) :
    (digitAdd a b carry).1.toNat + 2^w * (digitAdd a b carry).2.toNat = a.toNat + b.toNat + 2^w * carry.toNat := by
  have sum := toNat_add_cases a b
  show (a + b).toNat + 2^w * (carry + if a + b < a then 1 else 0).toNat = _
  rw [toNat_add_flag _ _ room, Nat.mul_add]
  omega

theorem digitSub_spec (a b borrow : BitVec w) (room : borrow.toNat + 1 < 2^w) :
    (digitSub a b borrow).1.toNat + b.toNat + 2^w * borrow.toNat = a.toNat + 2^w * (digitSub a b borrow).2.toNat := by
  have difference := toNat_sub_cases a b
  show (a - b).toNat + b.toNat + 2^w * borrow.toNat = a.toNat + 2^w * (borrow + if a - b > a then 1 else 0).toNat
  rw [toNat_add_flag _ _ room, Nat.mul_add]
  omega

theorem digitAdd_carry_le (a b carry : BitVec w) (room : carry.toNat + 1 < 2^w) :
    (digitAdd a b carry).2.toNat ≤ carry.toNat + 1 := by
  rw [digitAdd, toNat_add_flag _ _ room]
  split <;> omega

theorem digitSub_borrow_le (a b borrow : BitVec w) (room : borrow.toNat + 1 < 2^w) :
    (digitSub a b borrow).2.toNat ≤ borrow.toNat + 1 := by
  rw [digitSub, toNat_add_flag _ _ room]
  split <;> omega

theorem digitAdd_digitAdd (a b c : BitVec w) (room : 2 < 2^w) :
    (digitAdd (digitAdd a b 0).1 c (digitAdd a b 0).2).1.toNat +
        2^w * (digitAdd (digitAdd a b 0).1 c (digitAdd a b 0).2).2.toNat =
      a.toNat + b.toNat + c.toNat := by
  have first := digitAdd_spec a b 0 (by rw [toNat_zero]; omega)
  have carry := digitAdd_carry_le a b 0 (by rw [toNat_zero]; omega)
  rw [toNat_zero] at first carry
  have second := digitAdd_spec (digitAdd a b 0).1 c (digitAdd a b 0).2 (by omega)
  omega

theorem digitAdd_digitAdd_carry_le (a b c : BitVec w) (room : 2 < 2^w) :
    (digitAdd (digitAdd a b 0).1 c (digitAdd a b 0).2).2.toNat ≤ 2 := by
  have first := digitAdd_carry_le a b 0 (by rw [toNat_zero]; omega)
  rw [toNat_zero] at first
  have second := digitAdd_carry_le (digitAdd a b 0).1 c (digitAdd a b 0).2 (by omega)
  omega

theorem digitSub_digitSub (a b c : BitVec w) (room : 2 < 2^w) :
    (digitSub (digitSub a b 0).1 c (digitSub a b 0).2).1.toNat + b.toNat + c.toNat =
      a.toNat + 2^w * (digitSub (digitSub a b 0).1 c (digitSub a b 0).2).2.toNat := by
  have first := digitSub_spec a b 0 (by rw [toNat_zero]; omega)
  have borrow := digitSub_borrow_le a b 0 (by rw [toNat_zero]; omega)
  rw [toNat_zero] at first borrow
  have second := digitSub_spec (digitSub a b 0).1 c (digitSub a b 0).2 (by omega)
  omega

end WordSpecs

variable {build}

theorem base_eq : 2^build.digitBits = 2^build.halfDigitBits * 2^build.halfDigitBits := by
  rw [Build.digitBits, Nat.two_mul, pow_add]

theorem room (build : Build) : 4 < 2^build.digitBits := by
  obtain ⟨wide, two⟩ := build
  cases wide <;> cases two <;> decide

variable (a : Digit build)

theorem toNat_and_halfDigitMask : (a &&& halfDigitMask build).toNat = a.toNat % 2^build.halfDigitBits := by
  have small : 2^build.halfDigitBits - 1 < 2^build.digitBits := by
    have bound : 2^build.halfDigitBits ≤ 2^build.digitBits := by
      rw [base_eq]
      exact Nat.le_mul_of_pos_left _ (Nat.two_pow_pos _)
    have positive := Nat.two_pow_pos build.halfDigitBits
    omega
  rw [toNat_and, halfDigitMask, toNat_ofNat, mod_eq_of_lt small, and_two_pow_sub_one_eq_mod]

theorem toNat_shiftHalf : (a >>> build.halfDigitBits).toNat = a.toNat / 2^build.halfDigitBits := by
  rw [toNat_ushiftRight, shiftRight_eq_div_pow]

theorem toNat_shiftHalfLeft :
    (a <<< build.halfDigitBits).toNat = a.toNat % 2^build.halfDigitBits * 2^build.halfDigitBits := by
  rw [toNat_shiftLeft, Nat.shiftLeft_eq, base_eq, mul_mod_mul_right]

theorem halves : (a >>> build.halfDigitBits).toNat < 2^build.halfDigitBits ∧
      (a &&& halfDigitMask build).toNat < 2^build.halfDigitBits ∧
      (a >>> build.halfDigitBits).toNat * 2^build.halfDigitBits + (a &&& halfDigitMask build).toNat = a.toNat := by
  rw [toNat_shiftHalf, toNat_and_halfDigitMask]
  exact ⟨Nat.div_lt_of_lt_mul (base_eq ▸ a.isLt), mod_lt _ (Nat.two_pow_pos _), div_add_mod' _ _⟩

theorem toNat_mul_of_halves {a b : Digit build} (left : a.toNat < 2^build.halfDigitBits)
    (right : b.toNat < 2^build.halfDigitBits) : (a * b).toNat = a.toNat * b.toNat := by
  rw [toNat_mul, mod_eq_of_lt]
  rw [base_eq]
  exact mul_lt_mul'' left right

theorem product_columns (half aLow aHigh bLow bHigh : Nat) :
    aLow * bLow + aLow * bHigh % half * half + aHigh * bLow % half * half +
        half * half * (aLow * bHigh / half + aHigh * bLow / half + aHigh * bHigh) =
      (aHigh * half + aLow) * (bHigh * half + bLow) := by
  have first := mod_add_div (aLow * bHigh) half
  have second := mod_add_div (aHigh * bLow) half
  calc _ = aLow * bLow + half * (aLow * bHigh % half + half * (aLow * bHigh / half)) +
        half * (aHigh * bLow % half + half * (aHigh * bLow / half)) + half * half * (aHigh * bHigh) := by ring
    _ = aLow * bLow + half * (aLow * bHigh) + half * (aHigh * bLow) + half * half * (aHigh * bHigh) := by
        rw [first, second]
    _ = _ := by ring

theorem digitMulHalves_spec (a b : Digit build) :
    (digitMulHalves build a b).1.toNat + 2^build.digitBits * (digitMulHalves build a b).2.toNat =
      a.toNat * b.toNat := by
  have roomy := room build
  obtain ⟨aHigh_lt, aLow_lt, ha⟩ := halves a
  obtain ⟨bHigh_lt, bLow_lt, hb⟩ := halves b
  have product : a.toNat * b.toNat < 2^build.digitBits * 2^build.digitBits := Nat.mul_lt_mul'' a.isLt b.isLt
  simp only [digitMulHalves]
  rw [← ha, ← hb] at product ⊢
  generalize a >>> build.halfDigitBits = aHigh at *
  generalize a &&& halfDigitMask build = aLow at *
  generalize b >>> build.halfDigitBits = bHigh at *
  generalize b &&& halfDigitMask build = bLow at *
  have columns := product_columns (2^build.halfDigitBits) aLow.toNat aHigh.toNat bLow.toNat bHigh.toNat
  rw [← base_eq, ← toNat_mul_of_halves aLow_lt bLow_lt, ← toNat_mul_of_halves aLow_lt bHigh_lt,
    ← toNat_mul_of_halves aHigh_lt bLow_lt, ← toNat_mul_of_halves aHigh_lt bHigh_lt] at columns
  generalize aLow * bLow = rLow at *
  generalize aLow * bHigh = rMid1 at *
  generalize aHigh * bLow = rMid2 at *
  generalize aHigh * bHigh = rHigh at *
  have sum := digitAdd_digitAdd rLow (rMid1 <<< build.halfDigitBits) (rMid2 <<< build.halfDigitBits) (by omega)
  generalize digitAdd rLow (rMid1 <<< build.halfDigitBits) 0 = first at sum ⊢
  generalize digitAdd first.1 (rMid2 <<< build.halfDigitBits) first.2 = second at sum ⊢
  rw [toNat_shiftHalfLeft, toNat_shiftHalfLeft] at sum
  rw [← sum] at columns
  rw [← columns] at product ⊢
  have whole : second.1.toNat + 2^build.digitBits * (rMid1.toNat / 2^build.halfDigitBits +
      rMid2.toNat / 2^build.halfDigitBits + rHigh.toNat + second.2.toNat) =
      second.1.toNat + 2^build.digitBits * second.2.toNat + 2^build.digitBits *
        (rMid1.toNat / 2^build.halfDigitBits + rMid2.toNat / 2^build.halfDigitBits + rHigh.toNat) := by
    ring
  -- the high digit does not wrap, since the product has two digits
  have fits : rMid1.toNat / 2^build.halfDigitBits + rMid2.toNat / 2^build.halfDigitBits + rHigh.toNat +
      second.2.toNat < 2^build.digitBits := by
    apply Nat.lt_of_mul_lt_mul_left
    exact lt_of_le_of_lt (le_add_left _ _) (whole ▸ product)
  simp only [toNat_add, toNat_shiftHalf, mod_add_mod]
  rw [mod_eq_of_lt fits, whole]

theorem digitMul_spec (a b : Digit build) :
    (digitMul build a b).1.toNat + 2^build.digitBits * (digitMul build a b).2.toNat = a.toNat * b.toNat := by
  rw [digitMul]
  split
  · have product : a.toNat * b.toNat < 2^(2 * build.digitBits) := by
      rw [Nat.two_mul, pow_add]
      exact mul_lt_mul'' a.isLt b.isLt
    simp only [toNat_setWidth, toNat_ushiftRight, toNat_mul, shiftRight_eq_div_pow]
    rw [mod_eq_of_lt (lt_of_lt_of_le a.isLt (Nat.pow_le_pow_right two_pos (by omega)))]
    rw [mod_eq_of_lt (lt_of_lt_of_le b.isLt (Nat.pow_le_pow_right two_pos (by omega)))]
    rw [mod_eq_of_lt product, mod_eq_of_lt (Nat.div_lt_of_lt_mul (by rwa [← pow_add, ← Nat.two_mul]))]
    exact mod_add_div _ _
  · exact digitMulHalves_spec a b

theorem productGreaterThan_iff (factor1 factor2 high low : Digit build) :
    productGreaterThan build factor1 factor2 high low = true ↔
      2^build.digitBits * high.toNat + low.toNat < factor1.toNat * factor2.toNat := by
  have product := digitMul_spec factor1 factor2
  rw [← product, add_comm (2^build.digitBits * high.toNat),
    add_mul_lt_add_mul_iff low.isLt (digitMul build factor1 factor2).1.isLt, toNat_inj, eq_comm (a := high)]
  simp [productGreaterThan, lt_def]

end Odyssey.BigInt
