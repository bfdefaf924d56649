import Odyssey.BigInt.Shifts
import Odyssey.BigInt.BitwiseSpec

namespace Odyssey.BigInt

open Arithmetic List Nat Int

namespace JSBigInt

variable {build : Build} {x y : JSBigInt build}

def Shifted (build : Build) (result : Except BigIntError (JSBigInt build)) (integer : Int) : Prop :=
  match result with
  | .ok returned =>
    returned.Canonical ∧ returned.toInt = integer ∧ integer.natAbs < (2^build.digitBits)^build.maxLength
  | .error error => error = tooBig ∧ (2^build.digitBits)^build.maxLength ≤ integer.natAbs

def shiftedInteger (integer amount : Int) : Int :=
  if 0 ≤ amount then integer * 2^amount.toNat else integer / 2^(-amount).toNat

theorem maxLengthBits_lt (build : Build) : build.maxLengthBits < 2^build.digitBits ∧
    build.digitBits * build.maxLength ≤ build.maxLengthBits := by
  obtain ⟨wide, two⟩ := build
  cases wide <;> cases two <;> decide

theorem toShiftAmount_cases (hy : y.Canonical) (filled : y.digits ≠ []) :
    (toShiftAmount y = none ∧ build.maxLengthBits < value y.digits) ∨
      ∃ shift, toShiftAmount y = some shift ∧ shift.toNat = value y.digits := by
  have bound := (maxLengthBits_lt build).1
  rw [toShiftAmount]
  split_ifs with long
  · left
    refine ⟨rfl, ?_⟩
    have least := hy.trimmed.le_value filled
    have power : 2^build.digitBits ≤ (2^build.digitBits)^(y.digits.length - 1) := by
      rw [length] at long
      exact Nat.le_self_pow (by omega) _
    omega
  · have one : y.length = 1 := by
      have positive := length_pos_iff.mpr filled
      rw [length] at long ⊢
      omega
    rw [value_of_length_one one]
    simp only
    split_ifs with large
    · exact .inl ⟨rfl, large⟩
    · exact .inr ⟨_, rfl, rfl⟩

theorem shifted_digits (hx : x.Canonical) (filled : x.digits ≠ []) {bits : Nat} (inside : bits < build.digitBits) :
    let result := if bits = 0 then (x.digits, 0) else shiftLeftDigits bits x.digits 0
    let grow := bits != 0 && x.digits.getD (x.length - 1) 0 >>> (build.digitBits - bits) != 0
    let all := result.1 ++ if grow then [result.2] else []
    all.length = x.length + (if grow then 1 else 0) ∧ value all = value x.digits * 2^bits ∧
      (2^build.digitBits)^(all.length - 1) ≤ value all := by
  obtain ⟨size, total⟩ := shifted_or_copied (Nat.le_of_lt inside) x.digits
  obtain ⟨k, hk⟩ : ∃ k, x.digits.length = k + 1 := exists_eq_succ_of_ne_zero (mt length_eq_zero_iff.mp filled)
  have hlength : x.length = k + 1 := hk
  have least := hx.trimmed.le_value filled
  have top := toNat_top hk
  rw [hk] at least
  simp only [hlength, Nat.add_sub_cancel]
  generalize (if bits = 0 then (x.digits, 0) else shiftLeftDigits bits x.digits 0) = result at *
  have below := value_lt result.1
  have power : (2^build.digitBits)^(k + 1) = (2^build.digitBits)^k * 2^(build.digitBits - bits) * 2^bits := by
    rw [pow_succ, mul_assoc, ← pow_add, Nat.sub_add_cancel (Nat.le_of_lt inside)]
  have carry : result.2.toNat = (x.digits.getD k 0 >>> (build.digitBits - bits)).toNat := by
    rw [BitVec.toNat_ushiftRight, Nat.shiftRight_eq_div_pow, top, Nat.div_div_eq_div_mul,
      ← Nat.mul_div_mul_right _ _ (Nat.two_pow_pos bits), ← power, ← total, ← hk, ← size,
      Nat.add_mul_div_left _ _ (Nat.zero_lt_of_lt below), Nat.div_eq_of_lt below, Nat.zero_add]
  have grown : (bits != 0 && x.digits.getD k 0 >>> (build.digitBits - bits) != 0) = decide (result.2.toNat ≠ 0) := by
    rw [Bool.eq_iff_iff, Bool.and_eq_true, bne_iff_ne, bne_iff_ne, decide_eq_true_eq, carry]
    constructor
    · rintro ⟨_, bit⟩ zero
      exact bit (BitVec.eq_of_toNat_eq zero)
    · intro bit
      refine ⟨?_, fun zero => bit (congrArg BitVec.toNat zero)⟩
      rintro rfl
      rw [BitVec.toNat_ushiftRight, Nat.shiftRight_eq_div_pow, Nat.sub_zero, Nat.div_eq_of_lt (BitVec.isLt _)] at bit
      exact bit rfl
  simp only [grown, decide_eq_true_eq]
  rw [hk] at size
  by_cases spilled : result.2.toNat ≠ 0
  · rw [if_pos spilled, if_pos spilled, length_append, value_append, value_singleton, size, ← hk, total]
    refine ⟨rfl, rfl, ?_⟩
    rw [← total]
    exact le_trans (Nat.le_mul_of_pos_right _ (by omega)) (le_add_left _ _)
  · have none : result.2.toNat = 0 := by omega
    rw [none, mul_zero, add_zero] at total
    rw [if_neg spilled, if_neg spilled, append_nil, size, total]
    exact ⟨rfl, rfl, le_trans least (Nat.le_mul_of_pos_right _ (Nat.two_pow_pos bits))⟩

theorem signed_mul_pow (sign : Bool) (magnitude bits : Nat) :
    signed sign (magnitude * 2^bits) = signed sign magnitude * 2^bits := by
  cases sign <;> simp [signed]

theorem shifted_of_returns {result : Except BigIntError (JSBigInt build)} {integer : Int} {allocated : Nat}
    (returned : Returns result integer allocated) (fits : allocated ≤ build.maxLength)
    (small : integer.natAbs < (2^build.digitBits)^build.maxLength) : Shifted build result integer := by
  cases result with
  | error error => exact absurd returned.2 (Nat.not_lt_of_le fits)
  | ok value => exact ⟨returned.1, returned.2, small⟩

theorem not_shifted_of_returns {result : Except BigIntError (JSBigInt build)} {integer other : Int} {allocated : Nat}
    (returned : Returns result integer allocated) (differ : integer ≠ other) : ¬Shifted build result other := by
  cases result with
  | error error =>
    rintro ⟨big, _⟩
    exact BigIntError.noConfusion (returned.1.symm.trans big)
  | ok value =>
    rintro ⟨_, same, _⟩
    exact differ (returned.2.symm.trans same)

theorem leftShiftByAbsolute_shifted (storage : Storage build) (hx : x.Canonical) (filled : x.digits ≠ [])
    (hy : y.Canonical) (amount : y.digits ≠ []) :
    Shifted build (leftShiftByAbsolute storage x y) (x.toInt * 2^value y.digits) := by
  rw [toInt_eq_signed, ← signed_mul_pow]
  have positive := hx.trimmed.value_pos filled
  rcases toShiftAmount_cases hy amount with ⟨none, large⟩ | ⟨shift, found, exact⟩
  · rw [leftShiftByAbsolute, none]
    refine ⟨rfl, ?_⟩
    rw [natAbs_signed, ← pow_mul]
    have limit := (maxLengthBits_lt build).2
    calc 2^(build.digitBits * build.maxLength) ≤ 2^value y.digits := Nat.pow_le_pow_right two_pos (by omega)
      _ ≤ value x.digits * 2^value y.digits := Nat.le_mul_of_pos_left _ positive
  · obtain ⟨size, digits, least⟩ := shifted_digits hx filled (mod_lt shift.toNat digitBits_pos)
    have amount_eq := div_add_mod shift.toNat build.digitBits
    simp only [leftShiftByAbsolute, found, append_assoc]
    rw [← exact]
    generalize shift.toNat / build.digitBits = digitShift at *
    generalize shift.toNat % build.digitBits = bitsShift at *
    generalize (if bitsShift = 0 then (x.digits, 0) else shiftLeftDigits bitsShift x.digits 0) = result at *
    generalize (bitsShift != 0 && x.digits.getD (x.length - 1) 0 >>> (build.digitBits - bitsShift) != 0) = grow at *
    generalize (if grow = true then 1 else 0) = grown at *
    generalize (result.1 ++ if grow = true then [result.2] else []) = all at *
    have whole : value (replicate digitShift 0 ++ all) = value x.digits * 2^shift.toNat := by
      rw [value_append, value_replicate_zero, length_replicate, digits, ← amount_eq]
      ring
    have all_size : (replicate digitShift 0 ++ all).length = x.length + digitShift + grown := by
      rw [length_append, length_replicate]
      omega
    have some : 0 < x.length := length_pos_iff.mpr filled
    rw [← whole]
    split_ifs with long
    · refine ⟨rfl, ?_⟩
      rw [natAbs_signed, value_append, value_replicate_zero, length_replicate, zero_add]
      calc (2^build.digitBits)^build.maxLength ≤ (2^build.digitBits)^(digitShift + (all.length - 1)) :=
            Nat.pow_le_pow_right (Nat.two_pow_pos _) (by omega)
        _ = (2^build.digitBits)^digitShift * (2^build.digitBits)^(all.length - 1) := pow_add _ _ _
        _ ≤ (2^build.digitBits)^digitShift * value all := mul_le_mul_left _ least
    · apply shifted_of_returns (returns_trimmed _ all_size (by omega)) (Nat.le_of_not_lt long)
      rw [natAbs_signed]
      apply lt_of_lt_of_le (value_lt _)
      rw [all_size]
      exact Nat.pow_le_pow_right (Nat.two_pow_pos _) (Nat.le_of_not_lt long)

variable {amount : Nat} (digits : List (Digit build))

def keptDigits (amount : Nat) : List (Digit build) :=
  if amount % build.digitBits = 0 then digits.drop (amount / build.digitBits)
  else rightShifted (amount % build.digitBits) (digits.drop (amount / build.digitBits))

theorem two_pow_amount (build : Build) (amount : Nat) :
    2^amount = (2^build.digitBits)^(amount / build.digitBits) * 2^(amount % build.digitBits) := by
  rw [← pow_mul, ← pow_add, div_add_mod]

theorem keptDigits_spec (amount : Nat) :
    (keptDigits digits amount).length = digits.length - amount / build.digitBits ∧
    value (keptDigits digits amount) = value digits / 2^amount := by
  rw [keptDigits, two_pow_amount build, ← Nat.div_div_eq_div_mul, ← value_drop]
  split_ifs with none
  · rw [none, pow_zero, Nat.div_one]
    exact ⟨length_drop, rfl⟩
  · obtain ⟨size, exact⟩ := rightShifted_spec (le_of_lt (mod_lt amount digitBits_pos))
      (digits.drop (amount / build.digitBits))
    exact ⟨size.trans length_drop, exact⟩

theorem lost_iff (inside : amount / build.digitBits < digits.length) :
    (digits.getD (amount / build.digitBits) 0 &&& ((1 : Digit build) <<< (amount % build.digitBits) - 1) != 0 ||
        (digits.take (amount / build.digitBits)).any (· != 0)) = true ↔
      value digits % 2^amount ≠ 0 := by
  have bits : amount % build.digitBits < build.digitBits := mod_lt amount digitBits_pos
  rw [two_pow_amount build, mod_mul, ← value_take, ← value_drop]
  generalize amount / build.digitBits = digitalShift at *
  generalize amount % build.digitBits = bitsShift at *
  have roomy := room build
  have power : 2^bitsShift < 2^build.digitBits := Nat.pow_lt_pow_right (by omega) bits
  have one : ((1 : Digit build) <<< bitsShift).toNat = 2^bitsShift := by
    rw [BitVec.toNat_shiftLeft, toNat_one (by omega), Nat.one_shiftLeft, mod_eq_of_lt power]
  have low : value (digits.drop digitalShift) % 2^bitsShift =
      (digits.getD digitalShift 0 &&& ((1 : Digit build) <<< bitsShift - 1)).toNat := by
    have split : 2^build.digitBits = 2^bitsShift * 2^(build.digitBits - bitsShift) := by
      rw [← pow_add, Nat.add_sub_cancel' (le_of_lt bits)]
    rw [drop_getD inside, value_cons, split, mul_assoc, add_mul_mod_self_left, BitVec.toNat_and,
      toNat_sub_one (by omega) (one ▸ Nat.two_pow_pos bitsShift), one, and_two_pow_sub_one_eq_mod]
  have scale : (2^build.digitBits)^digitalShift ≠ 0 := ne_of_gt (Nat.pow_pos (by omega))
  rw [low, ne_eq, Nat.add_eq_zero_iff, mul_eq_zero, value_eq_zero_iff, or_iff_right scale, ← toNat_zero,
    BitVec.toNat_inj, and_comm, not_and_or, Bool.or_eq_true, any_eq_true]
  simp

theorem floor_eq (x : JSBigInt build) (amount : Nat) : x.toInt / 2^amount =
      signed x.sign (value x.digits / 2^amount + if x.sign = true ∧ value x.digits % 2^amount ≠ 0 then 1 else 0) := by
  have cast : (2 : Int)^amount = ((2^amount : Nat) : Int) := by
    rfl
  rw [toInt_eq_signed, cast]
  cases x.sign
  · simp [signed]
  · simp only [signed, if_true, true_and, Int.neg_ediv, Int.sign_natCast_of_ne_zero (Nat.ne_of_gt (Nat.two_pow_pos amount)),
      natCast_dvd_natCast, dvd_iff_mod_eq_zero, ite_not]
    split <;> push_cast <;> ring

/-- A right shift that drops whole digits of a negative number whose top digit is all ones, and not only zeros. -/
def Spills (x : JSBigInt build) (amount : Nat) : Prop :=
  x.sign = true ∧ amount % build.digitBits = 0 ∧ amount / build.digitBits < x.length ∧
    (∃ digit ∈ x.digits.take (amount / build.digitBits), digit ≠ 0) ∧
    x.digits.getD (x.length - 1) 0 = BitVec.allOnes _

instance (x : JSBigInt build) (amount : Nat) : Decidable (Spills x amount) := inferInstanceAs (Decidable (_ ∧ _))

theorem length_rightTrim_le (x : JSBigInt build) : x.rightTrim.digits.length ≤ x.digits.length := by
  rw [rightTrim]
  split
  · exact le_refl _
  · split
    · exact zero_le _
    · exact ( rdropWhile_prefix _ _).length_le

variable (storage : Storage build)

theorem rightShiftByMaximum_floor (hx : x.Canonical) (filled : x.digits ≠ []) (all : value x.digits < 2^amount) :
    (rightShiftByMaximum storage x.sign).Canonical ∧
      (rightShiftByMaximum storage x.sign).toInt = x.toInt / 2^amount := by
  have positive := hx.trimmed.value_pos filled
  rw [floor_eq, div_eq_of_lt all, mod_eq_of_lt all, rightShiftByMaximum]
  cases x.sign
  · exact ⟨Canonical.zero, rfl⟩
  · have roomy := room build
    have one := toNat_one (w := build.digitBits) (by omega)
    have minusOne : createFromInt32 storage (-1) = ⟨[1], true⟩ := rfl
    rw [if_pos rfl, minusOne, toInt_eq_signed, value_singleton, one, if_pos ⟨rfl, by omega⟩]
    exact ⟨canonical_singleton (one ▸ one_ne_zero) true, rfl⟩

theorem natAbs_toInt_lt (small : x.length ≤ build.maxLength) :
    x.toInt.natAbs < (2^build.digitBits)^build.maxLength := by
  rw [toInt_eq_signed, natAbs_signed]
  exact lt_of_lt_of_le (value_lt _) (Nat.pow_le_pow_right (Nat.two_pow_pos _) small)

theorem value_lt_two_pow (fits : build.digitBits * x.length ≤ amount) : value x.digits < 2^amount := by
  calc value x.digits < (2^build.digitBits)^x.length := value_lt _
    _ = 2^(build.digitBits * x.length) := (pow_mul ..).symm
    _ ≤ 2^amount := Nat.pow_le_pow_right two_pos fits

theorem roundDown_shifted (negative : x.sign = true) (small : x.length ≤ build.maxLength)
    (lost : value x.digits % 2^amount ≠ 0) {kept : JSBigInt build}
    (exact : value kept.digits = value x.digits / 2^amount) (size : kept.digits.length ≤ x.length) :
    Shifted build (absoluteAddOne storage kept .Signed) (x.toInt / 2^amount) := by
  have bound := lt_of_le_of_lt (natAbs_ediv_le_natAbs x.toInt (2^amount)) (natAbs_toInt_lt small)
  have returned := absoluteAddOne_returns storage kept .Signed
  rw [floor_eq, if_pos ⟨negative, lost⟩, negative] at bound ⊢
  rw [exact] at returned
  apply shifted_of_returns returned _ bound
  split_ifs with full
  · -- the number that overflows is not greater than the one that was shifted
    have less : value kept.digits + 1 ≤ value x.digits := by
      have some : 0 < value x.digits := Nat.pos_of_ne_zero (fun zero => lost (by rw [zero, zero_mod]))
      have more : 1 < 2^amount := by
        by_contra one
        have unit : 2^amount = 1 := le_antisymm (Nat.le_of_not_lt one) (Nat.two_pow_pos amount)
        exact lost (by rw [unit, mod_one])
      rw [exact]
      exact div_lt_self some more
    have power : (2^build.digitBits)^kept.digits.length < (2^build.digitBits)^x.length := by
      have bound := value_lt x.digits
      rw [length]
      omega
    have shorter := (Nat.pow_lt_pow_iff_right (by have := room build; omega)).mp power
    omega
  · omega

theorem spills_iff (x : JSBigInt build) (inside : amount / build.digitBits < x.length) :
    (x.sign && (x.digits.getD (amount / build.digitBits) 0 &&& ((1 : Digit build) <<< (amount % build.digitBits) - 1) != 0 ||
        (x.digits.take (amount / build.digitBits)).any (· != 0)) &&
      amount % build.digitBits == 0 && ~~~x.digits.getD (x.length - 1) 0 == 0) = true ↔ Spills x amount := by
  have ones (digit : Digit build) : ~~~digit = 0 ↔ digit = BitVec.allOnes _ := by
    constructor
    · intro zero
      rw [← BitVec.not_not (b := digit), zero]
      exact BitVec.not_zero
    · rintro rfl
      exact BitVec.not_allOnes
  have mask : (1 : Digit build) <<< 0 - 1 = 0 := by simp
  simp only [Bool.and_eq_true, Bool.or_eq_true, bne_iff_ne, beq_iff_eq, any_eq_true, ones]
  constructor
  · rintro ⟨⟨⟨negative, lost⟩, whole⟩, top⟩
    rw [whole, mask] at lost
    exact ⟨negative, whole, inside, lost.resolve_left (fun bit => bit BitVec.and_zero), top⟩
  · rintro ⟨negative, whole, _, lost, top⟩
    exact ⟨⟨⟨negative, .inr lost⟩, whole⟩, top⟩

theorem rightShiftByAbsolute_eq {shift : Digit build} (found : toShiftAmount y = some shift)
    (inside : shift.toNat / build.digitBits < x.length) :
    rightShiftByAbsolute storage x y = let result := (createWithLengthUnchecked storage
        (x.length - shift.toNat / build.digitBits + if Spills x shift.toNat then 1 else 0)
        (keptDigits x.digits shift.toNat)).setSign x.sign
      if x.sign = true ∧ value x.digits % 2^shift.toNat ≠ 0 then absoluteAddOne storage result.rightTrim .Signed
      else .ok result.rightTrim := by
  simp only [rightShiftByAbsolute, found, if_neg (Nat.not_le_of_lt inside), spills_iff x inside]
  rw [keptDigits]
  simp only [Bool.and_eq_true, lost_iff x.digits inside]

theorem rightShiftByAbsolute_shifted (hx : x.Canonical) (filled : x.digits ≠ []) (small : x.length ≤ build.maxLength)
    (hy : y.Canonical) (some : y.digits ≠ []) (holds : ¬Spills x (value y.digits)) :
    Shifted build (rightShiftByAbsolute storage x y) (x.toInt / 2^value y.digits) := by
  have bound := lt_of_le_of_lt (natAbs_ediv_le_natAbs x.toInt (2^value y.digits)) (natAbs_toInt_lt small)
  have maximum (fits : build.digitBits * x.length ≤ value y.digits) :
      Shifted build (.ok (rightShiftByMaximum storage x.sign)) (x.toInt / 2^value y.digits) := by
    obtain ⟨canonical, exact⟩ := rightShiftByMaximum_floor storage hx filled (value_lt_two_pow fits)
    exact ⟨canonical, exact, bound⟩
  rcases toShiftAmount_cases hy some with ⟨none, large⟩ | ⟨shift, found, amount⟩
  · rw [rightShiftByAbsolute, none]
    apply maximum
    have limit := (maxLengthBits_lt build).2
    have fits := mul_le_mul_left build.digitBits small
    omega
  rw [← amount] at bound maximum holds ⊢
  by_cases long : x.length ≤ shift.toNat / build.digitBits
  · simp only [rightShiftByAbsolute, found, if_pos long]
    exact maximum (le_trans (mul_le_mul_left _ long) (mul_div_le _ _))
  have inside : shift.toNat / build.digitBits < x.length := Nat.lt_of_not_le long
  obtain ⟨size, exact⟩ := keptDigits_spec x.digits shift.toNat
  rw [rightShiftByAbsolute_eq storage found inside, if_neg holds, createWithLengthUnchecked_eq (by exact size)]
  split_ifs with round
  · apply roundDown_shifted storage round.1 small round.2 ((value_rightTrim _).trans exact)
    exact Nat.le_trans (length_rightTrim_le _) (le_trans (le_of_eq size) (sub_le _ _))
  · have kept : keptDigits x.digits shift.toNat ≠ [] :=
      ne_nil_of_length_pos (by rw [size]; exact Nat.sub_pos_of_lt inside)
    obtain ⟨canonical, integer⟩ := trimmed_of_digits kept x.sign
    refine ⟨canonical, integer.trans ?_, bound⟩
    rw [floor_eq, if_neg round, exact]
    rfl

theorem rightShiftByAbsolute_spilled (small : x.length ≤ build.maxLength) (hy : y.Canonical) (some : y.digits ≠ [])
    (spills : Spills x (value y.digits)) :
    ¬Shifted build (rightShiftByAbsolute (fun _ => 1) x y) (x.toInt / 2^value y.digits) := by
  obtain ⟨negative, whole, inside, _, _⟩ := id spills
  rcases toShiftAmount_cases hy some with ⟨_, large⟩ | ⟨shift, found, amount⟩
  · have limit := (maxLengthBits_lt build).2
    have beyond : build.maxLength ≤ value y.digits / build.digitBits := by
      rw [le_div_iff_mul_le digitBits_pos, mul_comm]
      omega
    omega
  rw [← amount] at spills whole inside ⊢
  obtain ⟨size, exact⟩ := keptDigits_spec x.digits shift.toNat
  have lost := (Bool.and_eq_true _ _).mp ((Bool.and_eq_true _ _).mp
    ((Bool.and_eq_true _ _).mp ((spills_iff x inside).mpr spills)).1).1
  have round : x.sign = true ∧ value x.digits % 2^shift.toNat ≠ 0 := ⟨negative, (lost_iff x.digits inside).mp lost.2⟩
  rw [rightShiftByAbsolute_eq _ found inside, if_pos spills, if_pos round, floor_eq, if_pos round]
  generalize keptDigits x.digits shift.toNat = kept at *
  have made : createWithLengthUnchecked (fun _ => 1) (x.length - shift.toNat / build.digitBits + 1) kept =
      { digits := kept ++ [1] } := by
    rw [createWithLengthUnchecked, range_succ, map_append, drop_left']
    · rfl
    · rw [length_map, length_range, size, length]
  have roomy := room build
  have power : 0 < (2^build.digitBits)^kept.length := Nat.pow_pos (by omega)
  rw [made]
  apply not_shifted_of_returns (absoluteAddOne_returns _ _ _)
  intro same
  have magnitude := congrArg natAbs same
  rw [natAbs_signed, natAbs_signed, value_rightTrim, setSign, value_append,
    value_singleton, toNat_one (by omega)] at magnitude
  omega

theorem shiftedInteger_negative (integer : Int) (some : 0 < amount) :
    shiftedInteger integer (-(amount : Int)) = integer / 2^amount := by
  rw [shiftedInteger, if_neg (by omega), neg_neg, toNat_natCast]

theorem trivial_shift (hx : x.Canonical) (small : x.length ≤ build.maxLength) (zero : y.digits = [] ∨ x.digits = [])
    (amount : Int) (none : y.digits = [] → amount = 0) :
    Shifted build (.ok x) (shiftedInteger x.toInt amount) ∧ ¬Spills x (value y.digits) := by
  have same : shiftedInteger x.toInt amount = x.toInt := by
    rcases zero with zero | zero
    · rw [none zero]
      exact mul_one _
    · rw [toInt_of_isZero (isZero_iff.mpr zero), shiftedInteger, zero_mul, zero_ediv, ite_self]
  rw [same]
  refine ⟨⟨hx, rfl, natAbs_toInt_lt small⟩, ?_⟩
  rintro ⟨negative, _, _, ⟨digit, member, _⟩, _⟩
  rcases zero with zero | zero
  · rw [zero, value_nil, Nat.zero_div] at member
    cases member
  · rw [hx.positive zero] at negative
    cases negative

theorem shifts_exact_iff (hx : x.Canonical) (hy : y.Canonical) (small : x.length ≤ build.maxLength) :
    ((∀ storage, Shifted build (leftShift storage x y) (shiftedInteger x.toInt y.toInt)) ↔
      ¬(y.sign = true ∧ Spills x (value y.digits))) ∧
    ((∀ storage, Shifted build (signedRightShift storage x y) (shiftedInteger x.toInt (-y.toInt))) ↔
      ¬(y.sign = false ∧ Spills x (value y.digits))) := by
  by_cases none : y.digits = [] ∨ x.digits = []
  · have zero : (y.isZero || x.isZero) = true := by
      rw [Bool.or_eq_true, isZero_iff, isZero_iff]
      exact none
    have amount (empty : y.digits = []) : y.toInt = 0 := toInt_of_isZero (isZero_iff.mpr empty)
    obtain ⟨left, never⟩ := trivial_shift hx small none y.toInt amount
    obtain ⟨right, _⟩ := trivial_shift hx small none (-y.toInt) (fun empty => by rw [amount empty]; rfl)
    simp only [leftShift, signedRightShift, if_pos zero]
    exact ⟨⟨fun _ spills => never spills.2, fun _ _ => left⟩, ⟨fun _ spills => never spills.2, fun _ _ => right⟩⟩
  · rw [not_or] at none
    obtain ⟨some, filled⟩ := none
    have zero : (y.isZero || x.isZero) = false := by
      rw [Bool.or_eq_false_iff, Bool.eq_false_iff, Bool.eq_false_iff, ne_eq, ne_eq, isZero_iff, isZero_iff]
      exact ⟨some, filled⟩
    have positive := hy.trimmed.value_pos some
    have right : (∀ storage, Shifted build (rightShiftByAbsolute storage x y) (x.toInt / 2^value y.digits)) ↔
        ¬Spills x (value y.digits) :=
      ⟨fun exact spills => rightShiftByAbsolute_spilled small hy some spills (exact _),
        fun holds storage => rightShiftByAbsolute_shifted storage hx filled small hy some holds⟩
    have left (storage : Storage build) : Shifted build (leftShiftByAbsolute storage x y) (x.toInt * 2^value y.digits) :=
      leftShiftByAbsolute_shifted storage hx filled hy some
    rw [toInt_eq_signed y]
    simp only [leftShift, signedRightShift, zero]
    cases y.sign
    · simp only [signed, Bool.false_eq_true, if_false, shiftedInteger_negative _ positive,
        true_and, false_and, not_false_iff, iff_true]
      exact ⟨left, right⟩
    · simp only [signed, if_true, neg_neg, shiftedInteger_negative _ positive,
        Bool.true_eq_false, true_and, false_and, not_false_iff, iff_true]
      exact ⟨right, left⟩

theorem shifts_exact_iff_minus_five : let x : JSBigInt ⟨true, false⟩ := ⟨[5], true⟩
    let y : JSBigInt ⟨true, false⟩ := ⟨[1], false⟩
    x.Canonical ∧ y.Canonical ∧ x.length ≤ Build.maxLength ⟨true, false⟩ ∧
      ((∀ storage, Shifted ⟨true, false⟩ (leftShift storage x y) (shiftedInteger (-5) 1)) ↔
        ¬(y.sign = true ∧ Spills x 1)) ∧
      ((∀ storage, Shifted ⟨true, false⟩ (signedRightShift storage x y) (shiftedInteger (-5) (-1))) ↔
        ¬(y.sign = false ∧ Spills x 1)) := by
  have hx : (⟨[5], true⟩ : JSBigInt ⟨true, false⟩).Canonical := ⟨by decide, nofun⟩
  have hy : (⟨[1], false⟩ : JSBigInt ⟨true, false⟩).Canonical := ⟨by decide, nofun⟩
  exact ⟨hx, hy, by decide, shifts_exact_iff hx hy (by decide)⟩

/-- The lowest digit of `-(2^128 - 2^64 + 1)` is shifted out; the storage held a one. -/
theorem signedRightShift_spilled : let x : JSBigInt ⟨true, false⟩ := ⟨[1, BitVec.allOnes 64], true⟩
    let y : JSBigInt ⟨true, false⟩ := ⟨[64], false⟩
    x.Canonical ∧ y.Canonical ∧ x.length ≤ Build.maxLength ⟨true, false⟩ ∧
      signedRightShift (fun _ => 1) x y = .ok ⟨[0, 2], true⟩ ∧
      (⟨[0, 2], true⟩ : JSBigInt ⟨true, false⟩).toInt ≠ shiftedInteger x.toInt (-y.toInt) :=
  ⟨⟨by decide, nofun⟩, ⟨by decide, nofun⟩, by decide, by decide, by decide⟩

end JSBigInt

end Odyssey.BigInt
