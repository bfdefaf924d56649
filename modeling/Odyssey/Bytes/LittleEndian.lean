import Mathlib.Tactic.Ring
import Mathlib.Data.BitVec

namespace Odyssey.Bytes

open List

def lowBytes : Nat → Nat → List UInt8
  | 0, _ => []
  | width + 1, number => UInt8.ofNat number :: lowBytes width (number / 256)

def byteValue : List UInt8 → Nat
  | [] => 0
  | byte :: bytes => byte.toNat + 256 * byteValue bytes

@[simp] theorem lowBytes_length (width number : Nat) : (lowBytes width number).length = width := by
  induction width generalizing number with
  | zero => rfl
  | succ width ih => simp [lowBytes, ih]

theorem byteValue_bound (bytes : List UInt8) : byteValue bytes < 256 ^ bytes.length := by
  induction bytes with
  | nil => decide
  | cons byte bytes ih =>
    have small := byte.toNat_lt
    simp only [byteValue, length_cons]
    omega

theorem byteValue_lowBytes (width number : Nat) : byteValue (lowBytes width number) = number % 256 ^ width := by
  induction width generalizing number with
  | zero => simp [lowBytes, byteValue, Nat.mod_one]
  | succ width ih =>
    have low : (UInt8.ofNat number).toNat = number % 256 := UInt8.toNat_ofNat'
    simp only [lowBytes, byteValue, ih, low]
    rw [pow_succ', Nat.mod_mul]

theorem lowBytes_byteValue (bytes : List UInt8) : lowBytes bytes.length (byteValue bytes) = bytes := by
  induction bytes with
  | nil => rfl
  | cons byte bytes ih =>
    have small := byte.toNat_lt
    have quotient : (byte.toNat + 256 * byteValue bytes) / 256 = byteValue bytes := by omega
    simp [lowBytes, byteValue, quotient, ih]

theorem lowBytes_eq_map (width number : Nat) :
    lowBytes width number = (List.range width).map (fun i => UInt8.ofNat (number / 256 ^ i)) := by
  induction width generalizing number with
  | zero => rfl
  | succ width ih =>
    rw [lowBytes, ih, range_succ_eq_map, map_cons, map_map, pow_zero, Nat.div_one]
    congr 1
    apply map_congr_left
    intro i _
    simp only [Function.comp_apply]
    rw [Nat.div_div_eq_div_mul, ← pow_succ']

/-- Reads a number of fixed width from the front of the input. -/
def readLow (width : Nat) (input : List UInt8) : Option (Nat × List UInt8) :=
  if width ≤ input.length then some (byteValue (input.take width), input.drop width) else none

theorem readLow_append (width number : Nat) (rest : List UInt8) (bound : number < 256 ^ width) :
    readLow width (lowBytes width number ++ rest) = some (number, rest) := by
  have size := lowBytes_length width number
  simp only [readLow, length_append]
  rw [if_pos (by omega), take_left' size, drop_left' size, byteValue_lowBytes, Nat.mod_eq_of_lt bound]

theorem readLow_inv {width number : Nat} {input rest : List UInt8}
    (accepted : readLow width input = some (number, rest)) :
    input = lowBytes width number ++ rest ∧ number < 256 ^ width := by
  unfold readLow at accepted
  split at accepted
  · rename_i enough
    cases accepted
    have size : (input.take width).length = width := length_take_of_le enough
    have back := lowBytes_byteValue (input.take width)
    rw [size] at back
    refine ⟨by rw [back, take_append_drop], ?_⟩
    have bound := byteValue_bound (input.take width)
    rwa [size] at bound
  · cases accepted

end Odyssey.Bytes
