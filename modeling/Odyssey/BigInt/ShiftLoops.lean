import Odyssey.BigInt.JSBigInt
import Odyssey.BigInt.DigitDivision

namespace Odyssey.BigInt

open Arithmetic BitVec Nat

variable {w : Nat}

/-- The loop of a left shift: the digits, and the bits that were pushed out of the last one. -/
def shiftLeftDigits (shift : Nat) : List (BitVec w) → BitVec w → List (BitVec w) × BitVec w
  | d :: digits, carry =>
    let (result, last) := shiftLeftDigits shift digits (d >>> (w - shift))
    ((d <<< shift ||| carry) :: result, last)
  | [], carry => ([], carry)

/-- The loop of a right shift over the digits above the first one; the last digit is the carry. -/
def shiftRightDigits (shift : Nat) : List (BitVec w) → BitVec w → List (BitVec w)
  | d :: digits, carry => (d <<< (w - shift) ||| carry) :: shiftRightDigits shift digits (d >>> shift)
  | [], carry => [carry]

def rightShifted (shift : Nat) : List (BitVec w) → List (BitVec w)
  | d :: digits => shiftRightDigits shift digits (d >>> shift)
  | [] => []

theorem toNat_shifted_or {shift : Nat} (inside : shift ≤ w) {d carry : BitVec w} (below : carry.toNat < 2^shift) :
    (d <<< shift ||| carry).toNat + 2^w * (d.toNat / 2^(w - shift)) = d.toNat * 2^shift + carry.toNat := by
  have power : 2^w = 2^(w - shift) * 2^shift := by
    rw [← Nat.pow_add, Nat.sub_add_cancel inside]
  have whole := Nat.mod_add_div (d.toNat * 2^shift) (2^w)
  have part : d.toNat * 2^shift / 2^w = d.toNat / 2^(w - shift) := by
    rw [power, Nat.mul_div_mul_right _ _ (Nat.two_pow_pos shift)]
  have low : d.toNat * 2^shift % 2^w = (d.toNat % 2^(w - shift)) <<< shift := by
    rw [power, mul_mod_mul_right, Nat.shiftLeft_eq]
  have joined : (d <<< shift ||| carry).toNat = d.toNat * 2^shift % 2^w + carry.toNat := by
    rw [toNat_or, toNat_shiftLeft, Nat.shiftLeft_eq, low, shiftLeft_add_eq_or_of_lt below]
  rw [part] at whole
  omega

theorem shifted_out {shift : Nat} (inside : shift ≤ w) (d : BitVec w) :
    (d >>> shift).toNat = d.toNat / 2^shift ∧ (d >>> shift).toNat < 2^(w - shift) := by
  rw [toNat_ushiftRight, shiftRight_eq_div_pow]
  refine ⟨rfl, Nat.div_lt_of_lt_mul ?_⟩
  rw [← pow_add, Nat.add_sub_cancel' inside]
  exact d.isLt

theorem shiftLeftDigits_spec {shift : Nat} (inside : shift ≤ w) (digits : List (BitVec w)) (carry : BitVec w)
    (below : carry.toNat < 2^shift) :
    (shiftLeftDigits shift digits carry).1.length = digits.length ∧ value (shiftLeftDigits shift digits carry).1 +
          (2^w)^digits.length * (shiftLeftDigits shift digits carry).2.toNat =
        value digits * 2^shift + carry.toNat := by
  induction digits generalizing carry with
  | nil => simp [shiftLeftDigits]
  | cons d digits ih =>
    obtain ⟨out, next⟩ := shifted_out (sub_le w shift) d
    rw [Nat.sub_sub_self inside] at next
    obtain ⟨size, rest⟩ := ih (d >>> (w - shift)) next
    have first := toNat_shifted_or inside (d := d) below
    simp only [shiftLeftDigits]
    rw [out] at rest
    refine ⟨congrArg succ size, (value_carry first rest).trans ?_⟩
    rw [value_cons]
    ring

theorem shiftRightDigits_spec {shift : Nat} (inside : shift ≤ w) (digits : List (BitVec w)) (carry : BitVec w)
    (below : carry.toNat < 2^(w - shift)) :
    (shiftRightDigits shift digits carry).length = digits.length + 1 ∧
      value (shiftRightDigits shift digits carry) = value digits * 2^(w - shift) + carry.toNat := by
  induction digits generalizing carry with
  | nil => simp [shiftRightDigits]
  | cons d digits ih =>
    obtain ⟨out, next⟩ := shifted_out inside d
    obtain ⟨size, rest⟩ := ih (d >>> shift) next
    have first := toNat_shifted_or (sub_le w shift) (d := d) below
    rw [Nat.sub_sub_self inside] at first
    rw [shiftRightDigits]
    generalize d <<< (w - shift) ||| carry = head at *
    refine ⟨congrArg succ size, ?_⟩
    rw [value_cons, value_cons, rest, out]
    calc head.toNat + 2^w * (value digits * 2^(w - shift) + d.toNat / 2^shift) =
        (head.toNat + 2^w * (d.toNat / 2^shift)) + 2^w * (value digits * 2^(w - shift)) := by ring
      _ = _ := by
          rw [first]
          ring

theorem rightShifted_spec {shift : Nat} (inside : shift ≤ w) (digits : List (BitVec w)) :
    (rightShifted shift digits).length = digits.length ∧
      value (rightShifted shift digits) = value digits / 2^shift := by
  cases digits with
  | nil => exact ⟨rfl, (Nat.zero_div _).symm⟩
  | cons d digits =>
    have power : 2^w = 2^(w - shift) * 2^shift := by
      rw [← Nat.pow_add, Nat.sub_add_cancel inside]
    obtain ⟨out, below⟩ := shifted_out inside d
    obtain ⟨size, result⟩ := shiftRightDigits_spec inside digits (d >>> shift) below
    refine ⟨size, ?_⟩
    rw [rightShifted, result, out, value_cons]
    have scaled : 2^w * value digits = value digits * 2^(w - shift) * 2^shift := by
      rw [power]
      ring
    rw [scaled, Nat.add_mul_div_right _ _ (Nat.two_pow_pos shift), add_comm]

end Odyssey.BigInt
