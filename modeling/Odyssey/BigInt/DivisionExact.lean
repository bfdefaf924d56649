import Odyssey.BigInt.DivisionSpec

namespace Odyssey.BigInt

open Arithmetic List Nat

variable {build : Build}

theorem divideDigits_spec {divisor : Digit build} (digits : List (Digit build)) {remainder : Digit build}
    (less : remainder.toNat < divisor.toNat) (quotient : List (Digit build)) :
    ∃ front, (divideDigits build divisor digits remainder quotient).1 = front ++ quotient ∧
      front.length = digits.length ∧
      (divideDigits build divisor digits remainder quotient).2.toNat < divisor.toNat ∧
      value digits.reverse + (2^build.digitBits)^digits.length * remainder.toNat =
        value front * divisor.toNat + (divideDigits build divisor digits remainder quotient).2.toNat := by
  induction digits generalizing remainder quotient with
  | nil => exact ⟨[], rfl, rfl, less, by simp [divideDigits]⟩
  | cons digit digits ih =>
    obtain ⟨digit_eq, rest⟩ := digitDiv_spec digit less
    have division := div_add_mod' (remainder.toNat * 2^build.digitBits + digit.toNat) divisor.toNat
    rw [← digit_eq, ← rest] at division
    simp only [divideDigits]
    generalize digitDiv build remainder digit divisor = step at *
    have next : step.2.toNat < divisor.toNat := by
      rw [rest]
      exact mod_lt _ (by omega)
    obtain ⟨front, all, size, final, whole⟩ := ih next (step.1 :: quotient)
    refine ⟨front ++ [step.1], ?_, ?_, final, ?_⟩
    · rw [all, append_assoc, singleton_append]
    · rw [length_append, size, length_singleton, length_cons]
    · rw [reverse_cons, value_append, value_singleton, length_reverse, value_append, value_singleton, size]
      calc value digits.reverse + (2^build.digitBits)^digits.length * digit.toNat +
            (2^build.digitBits)^(digits.length + 1) * remainder.toNat =
          value digits.reverse + (2^build.digitBits)^digits.length *
            (remainder.toNat * 2^build.digitBits + digit.toNat) := by ring
        _ = (value digits.reverse + (2^build.digitBits)^digits.length * step.2.toNat) +
            (2^build.digitBits)^digits.length * step.1.toNat * divisor.toNat := by
            rw [← division]
            ring
        _ = _ := by
            rw [whole]
            ring

namespace JSBigInt

variable (storage : Storage build)

theorem tryCreateWithLength_cases {size : Nat} {digits : List (Digit build)} (all : digits.length = size) :
    tryCreateWithLength storage size digits = .error .OutOfMemoryError ∨
      tryCreateWithLength storage size digits = .ok { digits := digits } := by
  rw [tryCreateWithLength, createWithLengthUnchecked_eq all]
  split
  · exact .inl rfl
  · exact .inr rfl

theorem tryCreateWithLength_error_or (size : Nat) (digits : List (Digit build)) :
    tryCreateWithLength storage size digits = .error .OutOfMemoryError ∨
      ∃ cell, tryCreateWithLength storage size digits = .ok cell := by
  rw [tryCreateWithLength]
  split
  · exact .inl rfl
  · exact .inr ⟨_, rfl⟩

theorem shifted_or_copied {shift : Nat} (inside : shift ≤ build.digitBits) (digits : List (Digit build)) :
    let result := if shift = 0 then (digits, 0) else shiftLeftDigits shift digits 0
    result.1.length = digits.length ∧
      value result.1 + (2^build.digitBits)^digits.length * result.2.toNat = value digits * 2^shift := by
  split_ifs with none
  · rw [none, pow_zero, mul_one]
    exact ⟨rfl, rfl⟩
  · have spec := shiftLeftDigits_spec inside digits 0 (by rw [toNat_zero]; exact Nat.two_pow_pos shift)
    exact spec

theorem absoluteLeftShiftAlwaysCopy_spec (x : JSBigInt build) {shift : Nat} (inside : shift ≤ build.digitBits)
    (mode : LeftShiftMode) (fits : mode = .SameSizeResult → value x.digits * 2^shift < (2^build.digitBits)^x.length) :
    absoluteLeftShiftAlwaysCopy storage x shift mode = .error .OutOfMemoryError ∨
      ∃ digits, absoluteLeftShiftAlwaysCopy storage x shift mode = .ok { digits := digits } ∧
        digits.length = (if mode = .AlwaysAddOneDigit then x.length + 1 else x.length) ∧
        value digits = value x.digits * 2^shift := by
  obtain ⟨size, total⟩ := shifted_or_copied inside x.digits
  simp only [absoluteLeftShiftAlwaysCopy]
  generalize (if shift = 0 then (x.digits, 0) else shiftLeftDigits shift x.digits 0) = result at *
  generalize made : (if mode = .AlwaysAddOneDigit then result.1 ++ [result.2] else result.1) = digits
  have spec : digits.length = (if mode = .AlwaysAddOneDigit then x.length + 1 else x.length) ∧
      value digits = value x.digits * 2^shift := by
    cases mode
    · cases made
      have none := eq_zero_of_mul_lt _ (Nat.lt_of_le_of_lt (Nat.le_add_left _ _) (total.trans_lt (fits rfl)))
      rw [none] at total
      exact ⟨size, total⟩
    · cases made
      rw [if_pos rfl, length_append, value_append, size]
      exact ⟨rfl, total⟩
  exact (tryCreateWithLength_cases storage spec.1).imp id (fun created => ⟨_, created, spec⟩)

end JSBigInt

/-- What the shift by the leading zeros of the top digit does to a number. -/
structure Normalizes (digits : List (Digit build)) (shift : Nat) : Prop where
  inside : shift < build.digitBits
  fits : value digits * 2^shift < (2^build.digitBits)^digits.length
  top : ∀ shifted : List (Digit build), shifted.length = digits.length → value shifted = value digits * 2^shift →
    2^build.digitBits ≤ 2 * (shifted.getD (shifted.length - 1) 0).toNat

theorem normalizes {digits : List (Digit build)} (trimmed : Trimmed digits) (some : digits ≠ []) :
    Normalizes digits (clz build (digits.getD (digits.length - 1) 0)) := by
  obtain ⟨k, size⟩ : ∃ k, digits.length = k + 1 := exists_eq_succ_of_ne_zero (mt length_eq_zero_iff.mp some)
  have least := trimmed.le_value some
  have power : 0 < (2^build.digitBits)^k := Nat.pow_pos (Nat.two_pow_pos _)
  have top := toNat_top size
  rw [size, Nat.add_sub_cancel] at least ⊢
  have positive : 0 < (digits.getD k 0).toNat := by
    rw [top]
    exact div_pos least power
  have room := clz_room (digits.getD k 0)
  have normal := normalized positive
  rw [toNat_normalized] at normal
  have count := clz_lt positive
  generalize clz build (digits.getD k 0) = shift at *
  generalize digits.getD k 0 = digit at *
  refine ⟨count, ?_, ?_⟩
  · have below : value digits < (2^build.digitBits)^k * (digit.toNat + 1) := by
      rw [top]
      exact lt_mul_div_succ _ power
    calc value digits * 2^shift < (2^build.digitBits)^k * (digit.toNat + 1) * 2^shift :=
          mul_lt_mul_of_pos_right below (Nat.two_pow_pos shift)
      _ = (2^build.digitBits)^k * ((digit.toNat + 1) * 2^shift) := mul_assoc _ _ _
      _ ≤ (2^build.digitBits)^k * 2^build.digitBits := mul_le_mul_left _ room
      _ = (2^build.digitBits)^digits.length := by rw [size, pow_succ]
  · intro shifted shifted_size shifted_value
    rw [shifted_size, size, Nat.add_sub_cancel, toNat_top (shifted_size.trans size), shifted_value]
    have part : digit.toNat * 2^shift ≤ value digits * 2^shift / (2^build.digitBits)^k := by
      rw [le_div_iff_mul_le power]
      have above : digit.toNat * (2^build.digitBits)^k ≤ value digits := by
        rw [top]
        exact div_mul_le_self _ _
      calc digit.toNat * 2^shift * (2^build.digitBits)^k = digit.toNat * (2^build.digitBits)^k * 2^shift := by ring
        _ ≤ value digits * 2^shift := mul_le_mul_right _ above
    omega

namespace JSBigInt

variable {x y : JSBigInt build} (storage : Storage build)

theorem normalizedDivisor_spec {shift : Nat} (normal : Normalizes y.digits shift) :
    normalizedDivisor storage y shift = .error .OutOfMemoryError ∨
      ∃ v : JSBigInt build, normalizedDivisor storage y shift = .ok v ∧
        v.digits.length = y.length ∧ value v.digits = value y.digits * 2^shift := by
  rw [normalizedDivisor]
  split_ifs with none
  · rcases absoluteLeftShiftAlwaysCopy_spec storage y (le_of_lt normal.inside) .SameSizeResult
      (fun _ => normal.fits) with failed | ⟨digits, made, spec⟩
    · exact .inl failed
    · exact .inr ⟨_, made, spec⟩
  · have zero : shift = 0 := by omega
    rw [zero, pow_zero, mul_one]
    exact .inr ⟨y, rfl, rfl, rfl⟩

theorem inplaceRightShift_spec {shift : Nat} (inside : shift ≤ build.digitBits) (digits : List (Digit build)) :
    (inplaceRightShift build shift digits).length = digits.length ∧
      value (inplaceRightShift build shift digits) = value digits / 2^shift := by
  rw [inplaceRightShift]
  split_ifs with none
  · rw [none, pow_zero, Nat.div_one]
    exact ⟨rfl, rfl⟩
  · exact rightShifted_spec inside digits

theorem division_unique {dividend divisor quotient rest : Nat} (less : rest < divisor)
    (whole : dividend = quotient * divisor + rest) : quotient = dividend / divisor ∧ rest = dividend % divisor := by
  rw [whole, add_comm, add_mul_div_right _ _ (by omega), add_mul_mod_self_right, div_eq_of_lt less,
    mod_eq_of_lt less, zero_add]
  exact ⟨rfl, rfl⟩

theorem unshifted {dividend divisor quotient rest scale : Nat} (positive : 0 < scale) (less : rest < divisor * scale)
    (whole : dividend * scale = quotient * (divisor * scale) + rest) :
    quotient = dividend / divisor ∧ rest / scale = dividend % divisor := by
  obtain ⟨division, remainder⟩ := division_unique less whole
  rw [Nat.mul_div_mul_right _ _ positive] at division
  rw [mul_mod_mul_right] at remainder
  rw [remainder, Nat.mul_div_cancel _ positive]
  exact ⟨division, rfl⟩

theorem absoluteDivWithBigIntDivisor_spec (trimmed : Trimmed y.digits) (two : 2 ≤ y.length)
    (longer : y.length ≤ x.length) :
    absoluteDivWithBigIntDivisor storage x y = .error .OutOfMemoryError ∨
      ∃ quotient remainder : List (Digit build), quotient ≠ [] ∧ remainder ≠ [] ∧
        absoluteDivWithBigIntDivisor storage x y = .ok ({ digits := quotient }, { digits := remainder }) ∧
        value quotient = value x.digits / value y.digits ∧
        value remainder = value x.digits % value y.digits := by
  have some : y.digits ≠ [] := ne_nil_of_length_pos (show 0 < y.length by omega)
  have normal := normalizes trimmed some
  rw [absoluteDivWithBigIntDivisor]
  simp only
  rw [← length] at normal
  generalize clz build (y.digits.getD (y.length - 1) 0) = shift at *
  rcases tryCreateWithLength_error_or storage (y.length + 1) [] with failed | ⟨qhatv, made⟩
  · rw [failed]
    exact .inl rfl
  rw [made]
  rcases normalizedDivisor_spec storage normal with failed | ⟨v, shifted, v_size, v_value⟩
  · rw [failed]
    exact .inl rfl
  rw [shifted]
  rcases absoluteLeftShiftAlwaysCopy_spec storage x (le_of_lt normal.inside) .AlwaysAddOneDigit
    (fun same => by cases same) with failed | ⟨u, copied, u_size, u_value⟩
  · rw [failed]
    exact .inl rfl
  rw [copied]
  rw [if_pos rfl] at u_size
  have scale := Nat.two_pow_pos shift
  have above : value (u.drop (x.length - y.length + 1)) < value v.digits := by
    have least := trimmed.le_value some
    have split := value_take_add_drop u (x.length - y.length + 1)
    apply Nat.lt_of_mul_lt_mul_left (a := (2^build.digitBits)^(x.length - y.length + 1))
    calc (2^build.digitBits)^(x.length - y.length + 1) * value (u.drop (x.length - y.length + 1)) ≤ value u := by omega
      _ = value x.digits * 2^shift := u_value
      _ < (2^build.digitBits)^x.length * 2^shift := mul_lt_mul_of_pos_right (value_lt _) scale
      _ = (2^build.digitBits)^(x.length - y.length + 1) * ((2^build.digitBits)^(y.length - 1) * 2^shift) := by
          rw [← mul_assoc, ← pow_add]
          congr 2
          omega
      _ ≤ (2^build.digitBits)^(x.length - y.length + 1) * value v.digits := by
          rw [v_value]
          exact mul_le_mul_left _ (mul_le_mul_right _ least)
  obtain ⟨quotient, digits, size, rest_size, less, whole⟩ := divisionRounds_spec (by omega)
    (normal.top v.digits v_size v_value) (show x.length - y.length + 1 + v.digits.length ≤ u.length by omega) above []
  rw [u_value, v_value] at whole
  rw [v_value] at less
  obtain ⟨quotient_eq, rest_eq⟩ := unshifted scale less whole
  obtain ⟨final_size, final⟩ := inplaceRightShift_spec (le_of_lt normal.inside)
    (divisionRounds build v.digits (x.length - y.length + 1) u []).2
  rw [append_nil] at digits
  refine .inr ⟨quotient, inplaceRightShift build shift
    (divisionRounds build v.digits (x.length - y.length + 1) u []).2, ?_, ?_, ?_, quotient_eq, final.trans rest_eq⟩
  · exact ne_nil_of_length_pos (by omega)
  · exact ne_nil_of_length_pos (by omega)
  · show Except.ok (createWithLengthUnchecked storage (x.length - y.length + 1)
      (divisionRounds build v.digits (x.length - y.length + 1) u []).1, _) = _
    rw [digits, createWithLengthUnchecked_eq size]

theorem absoluteDivWithDigitDivisor_spec (x : JSBigInt build) {divisor : Digit build}
    (some : 0 < divisor.toNat) (other : divisor ≠ 1) :
    ∃ quotient : List (Digit build), quotient.length = x.length ∧
      (absoluteDivWithDigitDivisor storage x divisor).1 = { digits := quotient } ∧
      value quotient = value x.digits / divisor.toNat ∧
      (absoluteDivWithDigitDivisor storage x divisor).2.toNat = value x.digits % divisor.toNat := by
  obtain ⟨front, digits, size, less, whole⟩ := divideDigits_spec x.digits.reverse
    (show (0 : Digit build).toNat < divisor.toNat by rwa [toNat_zero]) []
  rw [append_nil] at digits
  rw [length_reverse] at size
  rw [reverse_reverse] at whole
  simp only [absoluteDivWithDigitDivisor, if_neg other]
  refine ⟨front, size, ?_, division_unique less whole⟩
  rw [digits, length, createWithLengthUnchecked_eq size]

def Gives (result : Except BigIntError (JSBigInt build)) (integer : Int) : Prop :=
  match result with
  | .ok returned => returned.Canonical ∧ returned.toInt = integer
  | .error error => error = .OutOfMemoryError

theorem not_less (hx : x.Canonical) (hy : y.Canonical) (greater : absoluteCompare x y ≠ .LessThan) :
    value y.digits ≤ value x.digits ∧ y.length ≤ x.length := by
  have least : value y.digits ≤ value x.digits := by
    by_contra less
    rw [absoluteCompare_eq hx hy, comparisonOf, if_pos (Nat.lt_of_not_le less)] at greater
    exact greater rfl
  refine ⟨least, ?_⟩
  by_contra shorter
  have less := hy.trimmed.value_lt_of_length_lt (Nat.lt_of_not_le shorter)
  omega

theorem less_of_compare (hx : x.Canonical) (hy : y.Canonical) (less : absoluteCompare x y = .LessThan) :
    value x.digits < value y.digits := by
  rw [absoluteCompare_eq hx hy, comparisonOf] at less
  by_contra least
  rw [if_neg least] at less
  split at less <;> cases less

theorem value_of_length_one (one : y.length = 1) : value y.digits = (y.digits.getD 0 0).toNat := by
  obtain ⟨digit, digits⟩ := length_eq_one_iff.mp one
  rw [digits]
  rfl

theorem nonzero (hy : y.Canonical) (some : y.isZero = false) : 0 < value y.digits ∧ 0 < y.length := by
  have nonempty : y.digits ≠ [] := fun none => Bool.false_ne_true (some.symm.trans (isZero_iff.mpr none))
  exact ⟨hy.trimmed.value_pos nonempty, length_pos_iff.mpr nonempty⟩

theorem divide_gives (hx : x.Canonical) (hy : y.Canonical) (some : y.isZero = false) :
    Gives (divide storage x y) (signed (x.sign != y.sign) (value x.digits / value y.digits)) := by
  obtain ⟨positive, size⟩ := nonzero hy some
  rw [divide, some, if_neg Bool.false_ne_true]
  split
  · rename_i less
    rw [div_eq_of_lt (less_of_compare hx hy less), signed_zero]
    exact ⟨Canonical.zero, toInt_zero⟩
  · rename_i greater
    obtain ⟨least, longer⟩ := not_less hx hy greater
    simp only
    split
    · rename_i one
      have digit := value_of_length_one one
      split
      · rename_i unit
        rw [digit, unit, toNat_one (by omega), Nat.div_one]
        exact signed_or_unaryMinus hx (x.sign != y.sign)
      · rename_i other
        obtain ⟨quotient, quotient_size, made, exact, _⟩ :=
          absoluteDivWithDigitDivisor_spec storage x (digit ▸ positive) other
        have filled : quotient ≠ [] := ne_nil_of_length_pos (by omega)
        rw [made, digit, ← exact]
        exact trimmed_of_digits filled _
    · rcases absoluteDivWithBigIntDivisor_spec storage hy.trimmed (by omega) longer with
        failed | ⟨quotient, remainder, some, _, made, exact, _⟩
      · rw [failed]
        exact rfl
      · rw [made, ← exact]
        exact trimmed_of_digits some _

theorem remainder_gives (hx : x.Canonical) (hy : y.Canonical) (some : y.isZero = false) :
    Gives (remainder storage x y) (signed x.sign (value x.digits % value y.digits)) := by
  obtain ⟨positive, size⟩ := nonzero hy some
  rw [remainder, some, if_neg Bool.false_ne_true]
  split
  · rename_i less
    rw [mod_eq_of_lt (less_of_compare hx hy less)]
    exact ⟨hx, toInt_eq_signed x⟩
  · rename_i greater
    obtain ⟨least, longer⟩ := not_less hx hy greater
    split
    · rename_i one
      have digit := value_of_length_one one
      simp only
      split
      · rename_i unit
        rw [digit, unit, toNat_one (by omega), mod_one, signed_zero]
        exact ⟨Canonical.zero, toInt_zero⟩
      · rename_i other
        obtain ⟨_, _, _, _, exact⟩ := absoluteDivWithDigitDivisor_spec storage x (digit ▸ positive) other
        rw [digit, ← exact]
        split
        · rename_i zero
          rw [zero, toNat_zero, signed_zero]
          exact ⟨Canonical.zero, toInt_zero⟩
        · exact trimmed_of_digits (cons_ne_nil _ _) _
    · rcases absoluteDivWithBigIntDivisor_spec storage hy.trimmed (by omega) longer with
        failed | ⟨quotient, remainder, _, some, made, _, exact⟩
      · rw [failed]
        exact rfl
      · rw [made, ← exact]
        exact trimmed_of_digits some _

theorem natAbs_signed (sign : Bool) (magnitude : Nat) : (signed sign magnitude).natAbs = magnitude := by
  cases sign
  · exact Int.natAbs_natCast _
  · exact (Int.natAbs_neg _).trans (Int.natAbs_natCast _)

theorem sign_signed (sign : Bool) {magnitude : Nat} (some : 0 < magnitude) :
    (signed sign magnitude).sign = if sign then -1 else 1 := by
  have positive : (0 : Int) < magnitude := Int.natCast_pos.mpr some
  cases sign
  · exact Int.sign_eq_one_of_pos positive
  · exact Int.sign_eq_neg_one_of_neg (neg_neg_of_pos positive)

theorem signed_division (first second : Bool) (dividend : Nat) {divisor : Nat} (positive : 0 < divisor) :
    signed first dividend = signed (first != second) (dividend / divisor) * signed second divisor +
        signed first (dividend % divisor) ∧
      (signed first (dividend % divisor)).natAbs < (signed second divisor).natAbs ∧
      (signed first (dividend % divisor) = 0 ∨
        (signed first (dividend % divisor)).sign = (signed first dividend).sign) := by
  have whole := div_add_mod' dividend divisor
  have rest := mod_lt dividend positive
  refine ⟨?_, ?_, ?_⟩
  · have product : signed first (dividend / divisor * divisor) =
        signed (first != second) (dividend / divisor) * signed second divisor := by
      rw [← signed_mul]
      cases first <;> cases second <;> rfl
    rw [← product, ← signed_add, whole]
  · rw [natAbs_signed, natAbs_signed]
    exact rest
  · rcases Nat.eq_zero_or_pos (dividend % divisor) with none | some
    · rw [none]
      exact .inl (signed_zero first)
    · right
      have more : 0 < dividend := lt_of_lt_of_le some (mod_le _ _)
      rw [sign_signed first some, sign_signed first more]

theorem division_exact (storage storage' : Storage build) (hx : x.Canonical) (hy : y.Canonical) : (y.toInt ≠ 0 →
      divide storage x y = .error .OutOfMemoryError ∨ remainder storage' x y = .error .OutOfMemoryError ∨
      ∃ q r, divide storage x y = .ok q ∧ remainder storage' x y = .ok r ∧ q.Canonical ∧ r.Canonical ∧
        x.toInt = q.toInt * y.toInt + r.toInt ∧ r.toInt.natAbs < y.toInt.natAbs ∧
        (r.toInt = 0 ∨ r.toInt.sign = x.toInt.sign)) ∧
    (y.toInt = 0 → divide storage x y = .error (.RangeError "0 is an invalid divisor value.") ∧
      remainder storage' x y = .error (.RangeError "0 is an invalid divisor value.")) := by
  constructor
  · intro nonzero
    have some : y.isZero = false := Bool.eq_false_iff.mpr (fun zero => nonzero (toInt_of_isZero zero))
    have nonempty : y.digits ≠ [] := fun none => Bool.false_ne_true (some.symm.trans (isZero_iff.mpr none))
    have quotient := divide_gives storage hx hy some
    have rest := remainder_gives storage' hx hy some
    cases hq : divide storage x y with
    | error error =>
      rw [hq] at quotient
      exact .inl (congrArg Except.error quotient)
    | ok q =>
      cases hr : remainder storage' x y with
      | error error =>
        rw [hr] at rest
        exact .inr (.inl (congrArg Except.error rest))
      | ok r =>
        rw [hq] at quotient
        rw [hr] at rest
        obtain ⟨canonical, value⟩ := quotient
        obtain ⟨canonical', value'⟩ := rest
        have division := signed_division x.sign y.sign (Arithmetic.value x.digits) (hy.trimmed.value_pos nonempty)
        rw [← value, ← value'] at division
        exact .inr (.inr ⟨q, r, rfl, rfl, canonical, canonical', division⟩)
  · intro zero
    have none : y.isZero = true := by
      by_contra some
      have nonempty : y.digits ≠ [] := fun none => some (isZero_iff.mpr none)
      have positive := hy.trimmed.value_pos nonempty
      rw [toInt_eq_signed] at zero
      have magnitude := congrArg Int.natAbs zero
      rw [natAbs_signed] at magnitude
      omega
    rw [divide, remainder, if_pos none, if_pos none]
    exact ⟨rfl, rfl⟩

theorem division_exact_minus_seven_two : let x : JSBigInt ⟨false, false⟩ := ⟨[7], true⟩
    let y : JSBigInt ⟨false, false⟩ := ⟨[2], false⟩
    x.Canonical ∧ y.Canonical ∧
      (divide (fun _ => 9) x y = .error .OutOfMemoryError ∨ remainder (fun _ => 8) x y = .error .OutOfMemoryError ∨
        ∃ q r, divide (fun _ => 9) x y = .ok q ∧ remainder (fun _ => 8) x y = .ok r ∧ q.Canonical ∧ r.Canonical ∧
          -7 = q.toInt * 2 + r.toInt ∧ r.toInt.natAbs < 2 ∧ (r.toInt = 0 ∨ r.toInt.sign = -1)) := by
  have hx : (⟨[7], true⟩ : JSBigInt ⟨false, false⟩).Canonical := ⟨by decide, nofun⟩
  have hy : (⟨[2], false⟩ : JSBigInt ⟨false, false⟩).Canonical := ⟨by decide, nofun⟩
  exact ⟨hx, hy, (division_exact (fun _ => 9) (fun _ => 8) hx hy).1 (by decide)⟩

end JSBigInt

end Odyssey.BigInt
