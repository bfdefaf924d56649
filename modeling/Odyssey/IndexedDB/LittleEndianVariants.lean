import Odyssey.IndexedDB.Serialization

namespace Odyssey.IndexedDB

open Bytes BitVec Nat

variable {w : Nat}

theorem byte_setWidth_toNat (byte : UInt8) (wide : 8 ≤ w) : (byte.toBitVec.setWidth w).toNat = byte.toNat := by
  have fits : 2 ^ 8 ≤ 2 ^ w := Nat.pow_le_pow_right (by decide) wide
  rw [toNat_setWidth]
  exact mod_eq_of_lt (by omega)

theorem writeMemory_eq_lowBytes (count : Nat) (value : BitVec w) :
    writeMemory count value = lowBytes count value.toNat := by
  rw [lowBytes_eq_map]
  apply List.map_congr_left
  intro i _
  apply UInt8.toNat_inj.mp
  rw [UInt8.toNat_ofNat']
  change (value.extractLsb' (8 * i) 8).toNat = _
  rw [extractLsb'_toNat, shiftRight_eq_div_pow, Nat.pow_mul]

def readValue (w count : Nat) (data : List UInt8) : Option (BitVec w × List UInt8) :=
  (readLow count data).map (fun (number, rest) => (BitVec.ofNat w number, rest))

section Wide

variable (wide : 8 ≤ w)
include wide

theorem writeBytewise_eq_lowBytes (count : Nat) (value : BitVec w) :
    writeBytewise count value = lowBytes count value.toNat := by
  induction count generalizing value with
  | zero => rfl
  | succ count ih =>
    have shifted : (value >>> 8).toNat = value.toNat / 256 := by
      rw [toNat_ushiftRight, shiftRight_eq_div_pow]
    have mask : (0xFF : BitVec w).toNat = 255 := by
      have fits : 2 ^ 8 ≤ 2 ^ w := Nat.pow_le_pow_right (by decide) wide
      simp only [ofNat_eq_ofNat]
      exact mod_eq_of_lt (by omega)
    have low : (⟨(value &&& 0xFF).setWidth 8⟩ : UInt8) = UInt8.ofNat value.toNat := by
      apply UInt8.toNat_inj.mp
      rw [UInt8.toNat_ofNat']
      change ((value &&& 0xFF).setWidth 8).toNat = _
      rw [toNat_setWidth, toNat_and, mask]
      rw [show (255 : Nat) = 2 ^ 8 - 1 from rfl, and_two_pow_sub_one_eq_mod, mod_mod]
    rw [writeBytewise, lowBytes, low, ih, shifted]

theorem writeLittleEndian_eq_lowBytes (target : Target) (count : Nat) (value : BitVec w) :
    writeLittleEndian target count value = lowBytes count value.toNat := by
  unfold writeLittleEndian
  split
  · exact writeBytewise_eq_lowBytes wide count value
  · exact writeMemory_eq_lowBytes count value

theorem accumulateBytes_value (i : Nat) (value : BitVec w) (bytes : List UInt8) :
    accumulateBytes i value bytes = value + BitVec.ofNat w (byteValue bytes * 256 ^ i) := by
  induction bytes generalizing i value with
  | nil => simp [accumulateBytes, byteValue]
  | cons byte bytes ih =>
    rw [accumulateBytes, ih, add_assoc]
    congr 1
    apply eq_of_toNat_eq
    rw [toNat_add, toNat_shiftLeft, byte_setWidth_toNat byte wide, toNat_ofNat,
      toNat_ofNat, Nat.shiftLeft_eq, ← add_mod]
    have shifted : byte.toNat * 2 ^ (i * 8) + byteValue bytes * 256 ^ (i + 1) =
        (byte.toNat + 256 * byteValue bytes) * 256 ^ i := by
      rw [mul_comm i 8, pow_mul]
      ring
    rw [shifted, byteValue]

theorem memoryValue_value (bytes : List UInt8) : (memoryValue bytes : BitVec w) = BitVec.ofNat w (byteValue bytes) := by
  induction bytes with
  | nil => rfl
  | cons byte bytes ih =>
    have small := byte.toNat_lt
    have fits : 2 ^ 8 ≤ 2 ^ w := Nat.pow_le_pow_right (by decide) wide
    have head : byte.toNat % 2 ^ w = byte.toNat := mod_eq_of_lt (by omega)
    change byte.toBitVec.setWidth w ||| (memoryValue bytes : BitVec w) <<< 8 = _
    rw [ih]
    apply eq_of_toNat_eq
    rw [toNat_or, toNat_shiftLeft, byte_setWidth_toNat byte wide, toNat_ofNat,
      toNat_ofNat, ← head, ← or_mod_two_pow, byteValue]
    have reduce : (byteValue bytes % 2 ^ w) <<< 8 % 2 ^ w = byteValue bytes <<< 8 % 2 ^ w := by
      rw [Nat.shiftLeft_eq, Nat.shiftLeft_eq, mod_mul_mod]
    rw [or_mod_two_pow, reduce, ← or_mod_two_pow]
    rw [Nat.or_comm, ← shiftLeft_add_eq_or_of_lt small, Nat.shiftLeft_eq, mul_comm, add_comm]

theorem readBytewise_eq_readValue (count : Nat) (data : List UInt8) :
    readBytewise count data = readValue w count data := by
  unfold readBytewise readValue readLow
  split
  · rw [if_neg (by omega)]
    rfl
  · rw [if_pos (by omega), accumulateBytes_value wide]
    simp

theorem readMemory_eq_readValue (count : Nat) (data : List UInt8) : readMemory count data = readValue w count data := by
  unfold readMemory readValue readLow
  split
  · rw [if_neg (by omega)]
    rfl
  · rw [if_pos (by omega), memoryValue_value wide]
    rfl

theorem readLittleEndian_eq_readValue (target : Target) (count : Nat) (data : List UInt8) :
    readLittleEndian target count data = readValue w count data := by
  unfold readLittleEndian
  split
  · exact readBytewise_eq_readValue wide count data
  · exact readMemory_eq_readValue wide count data

end Wide

theorem read_written (count : Nat) (target : Target) (positive : 1 ≤ count)
    (value : BitVec (8 * count)) (rest : List UInt8) :
    readLittleEndian target count (writeLittleEndian target count value ++ rest) = some (value, rest) := by
  have wide : 8 ≤ 8 * count := by omega
  have bound : value.toNat < 256 ^ count := by
    have small := value.isLt
    rwa [pow_mul] at small
  rw [readLittleEndian_eq_readValue wide, writeLittleEndian_eq_lowBytes wide, readValue, readLow_append _ _ _ bound]
  simp

theorem written_read (count : Nat) {target : Target} (positive : 1 ≤ count) {value : BitVec (8 * count)}
    {data rest : List UInt8} (accepted : readLittleEndian target count data = some (value, rest)) :
    data = writeLittleEndian target count value ++ rest := by
  have wide : 8 ≤ 8 * count := by omega
  rw [readLittleEndian_eq_readValue wide, readValue, Option.map_eq_some_iff] at accepted
  obtain ⟨⟨number, tail⟩, found, same⟩ := accepted
  obtain ⟨split, bound⟩ := readLow_inv found
  cases same
  have exact : number % 2 ^ (8 * count) = number := by
    apply mod_eq_of_lt
    rwa [pow_mul]
  rw [writeLittleEndian_eq_lowBytes wide, toNat_ofNat, exact]
  exact split

end Odyssey.IndexedDB
