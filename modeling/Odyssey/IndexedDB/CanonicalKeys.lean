import Odyssey.IndexedDB.KeyOrderLaws
import Odyssey.IndexedDB.Keys

namespace Odyssey.IndexedDB

open Containers List

theorem doubleRank_positiveZero (bits : UInt64) : doubleRank (positiveZero bits) = doubleRank bits := by
  rw [doubleRank_eq_iff, IDBKeyData.positiveZero_positiveZero]

namespace IDBKeyData

theorem canonical_array (keys : List IDBKeyData) : (array keys).canonical = array (keys.map canonical) := by
  rw [canonical, normalise, normaliseKeys_eq_map]

namespace Comparable

variable {key other : IDBKeyData}

theorem canonical (comparable : key.Comparable) : key.canonical.Comparable := by
  induction comparable with
  | invalid => exact .invalid
  | minimum => exact .minimum
  | maximum => exact .maximum
  | number bits real => exact .number _ ((isNaN_positiveZero bits).trans real)
  | date bits real => exact .date _ ((isNaN_positiveZero bits).trans real)
  | string value => exact .string _
  | binary value => exact .binary _
  | array keys _ ih =>
    rw [canonical_array]
    refine .array _ fun replaced member => ?_
    rcases mem_map.mp member with ⟨key, within, rfl⟩
    exact ih key within

theorem canonical_canonical (comparable : key.Comparable) : key.canonical.canonical = key.canonical := by
  induction comparable with
  | array keys _ ih =>
    rw [canonical_array, canonical_array, map_map]
    exact congrArg IDBKeyData.array (map_congr_left ih)
  | _ => simp [IDBKeyData.canonical, normalise, positiveZero_positiveZero]

theorem code_canonical (comparable : key.Comparable) : key.canonical.code = key.code := by
  induction comparable with
  | array keys _ ih =>
    rw [canonical_array, code, code]
    induction keys with
    | nil => rfl
    | cons key keys rest => simp_all [codes]
  | _ => simp [IDBKeyData.canonical, normalise, code, stringCode, doubleRank_positiveZero]

theorem canonical_eq_of_code (comparable : key.Comparable) (comparableOther : other.Comparable)
    (same : key.code = other.code) : key.canonical = other.canonical := by
  rw [← compare_eq_zero_iff comparable comparableOther, comparable.compare_eq comparableOther, same, threeWay_self]

end Comparable

end IDBKeyData

/-- The keys of `IDBKeyData` on which `compare`, `==` and the hash agree: without NaNs, negative zeros and
    null strings. Each stands for those that differ from it only in the signs of zeros and in null strings. -/
@[ext]
structure CanonicalKey where
  data : IDBKeyData
  comparable : data.Comparable
  canonical : data.canonical = data

namespace CanonicalKey

theorem code_injective : Function.Injective (fun key : CanonicalKey => key.data.code) := by
  intro key other same
  have canonical := key.comparable.canonical_eq_of_code other.comparable same
  rw [key.canonical, other.canonical] at canonical
  exact CanonicalKey.ext canonical

instance : LinearOrder CanonicalKey := LinearOrder.lift' _ code_injective

def ofData (key : IDBKeyData) (comparable : key.Comparable) : CanonicalKey :=
  ⟨key.canonical, comparable.canonical, comparable.canonical_canonical⟩

/-- The order of canonical forms is `compare`. Of distinguishable keys they are equal exactly if `==`
    says so, and then the hashes are equal too. -/
theorem ofData_spec {key other : IDBKeyData} (comparable : key.Comparable) (comparableOther : other.Comparable) :
    threeWay (ofData key comparable) (ofData other comparableOther) = key.compare other ∧
      (key.Distinguishable other →
        key.equal other = some (decide (ofData key comparable = ofData other comparableOther)) ∧
          (ofData key comparable = ofData other comparableOther → ∀ (Code : Type) (hasher : MemoryHasher Code),
            ∃ code, key.hash hasher = some code ∧ other.hash hasher = some code)) := by
  have order : threeWay (ofData key comparable) (ofData other comparableOther) = key.compare other := by
    rw [comparable.compare_eq comparableOther, ← comparable.code_canonical, ← comparableOther.code_canonical]
    rfl
  have same : ofData key comparable = ofData other comparableOther ↔ key.compare other = 0 := by
    rw [← order, threeWay_eq_zero]
  refine ⟨order, fun told => ?_⟩
  have agrees := (IDBKeyData.agrees_iff_distinguishable comparable comparableOther).mpr told
  have equal : key.equal other = some (decide (ofData key comparable = ofData other comparableOther)) := by
    rw [agrees.equal, decide_eq_decide.mpr same]
  refine ⟨equal, fun one => agrees.hash ?_⟩
  rw [equal, decide_eq_true one]

end CanonicalKey

/-- The bits of `static_cast<double>(number)`, which rounds to nearest with ties to even. -/
def doubleOfNumber (number : UInt64) : UInt64 :=
  if number = 0 then 0
  else
    let exponent := Nat.log2 number.toNat
    let kept := number.toNat * 2^(52 - exponent) / 2^(exponent - 52)
    let lost := number.toNat % 2^(exponent - 52)
    let rounded := if 2 * lost + kept % 2 > 2^(exponent - 52) then kept + 1 else kept
    UInt64.ofNat ((1022 + exponent) * 2^52 + rounded)

theorem doubleOfNumber_lt (number : UInt64) : (doubleOfNumber number).toNat < 0x7FF0000000000000 := by
  unfold doubleOfNumber
  split
  · decide
  · rename_i positive
    have nonzero : number.toNat ≠ 0 := fun zero => positive (UInt64.toNat_inj.mp zero)
    have below : Nat.log2 number.toNat < 64 := (Nat.log2_lt nonzero).mpr number.toNat_lt
    have above : number.toNat < 2^(Nat.log2 number.toNat + 1) := Nat.lt_log2_self
    generalize Nat.log2 number.toNat = exponent at *
    have kept : number.toNat * 2^(52 - exponent) / 2^(exponent - 52) < 2^53 := by
      rw [Nat.div_lt_iff_lt_mul (Nat.two_pow_pos _), ← Nat.pow_add]
      calc number.toNat * 2^(52 - exponent)
        _ < 2^(exponent + 1) * 2^(52 - exponent) := Nat.mul_lt_mul_of_pos_right above (Nat.two_pow_pos _)
        _ = 2^(53 + (exponent - 52)) := by
          rw [← Nat.pow_add]
          congr 1
          omega
    dsimp only
    generalize number.toNat * 2^(52 - exponent) / 2^(exponent - 52) = kept at *
    split
    all_goals
      rw [UInt64.toNat_ofNat', Nat.mod_eq_of_lt (by omega)]
      omega

namespace CanonicalKey

theorem ofNumber_comparable (number : UInt64) : (IDBKeyData.number (doubleOfNumber number)).Comparable := by
  have small := doubleOfNumber_lt number
  refine .number _ ?_
  simp only [isNaN, decide_eq_false_iff_not]
  omega

theorem ofArray_comparable (keys : List CanonicalKey) : (IDBKeyData.array (keys.map data)).Comparable := by
  refine .array _ fun held member => ?_
  rcases mem_map.mp member with ⟨key, _, rfl⟩
  exact key.comparable

instance : IDBKeyOrder CanonicalKey where
  toLinearOrder := inferInstance
  isValid key := key.data.isValid
  minimum := ⟨.minimum, .minimum, rfl⟩
  maximum := ⟨.maximum, .maximum, rfl⟩
  setNumberValue number := ofData _ (ofNumber_comparable number)
  setArrayValue keys := ofData _ (ofArray_comparable keys)
  number key :=
    match key.data with
    | .number bits => some (Float.ofBits bits)
    | _ => none

instance (number : Nat) : OfNat CanonicalKey number := ⟨IDBKeyOrder.setNumberValue (UInt64.ofNat number)⟩

end CanonicalKey

end Odyssey.IndexedDB
