import Odyssey.BigInt.JSBigInt

namespace Odyssey.BigInt

open Arithmetic List BitVec Nat

section Loops

variable {w : Nat} {xs ys : List (BitVec w)}

section

variable (room : 2 < 2^w)
include room

theorem addPairs_spec (size : xs.length = ys.length) (carry : BitVec w) :
    (addPairs xs ys carry).1.length = xs.length ∧
      value (addPairs xs ys carry).1 + (2^w)^xs.length * (addPairs xs ys carry).2.toNat =
        value xs + value ys + carry.toNat := by
  induction xs generalizing ys carry with
  | nil =>
    cases length_eq_zero_iff.mp size.symm
    simp [addPairs]
  | cons x xs ih =>
    cases ys with
    | nil => cases size
    | cons y ys =>
      have sum := digitAdd_digitAdd x y carry room
      obtain ⟨length, rest⟩ := ih (succ.inj size) (digitAdd (digitAdd x y 0).1 carry (digitAdd x y 0).2).2
      refine ⟨congrArg succ length, (value_carry sum rest).trans ?_⟩
      rw [value_cons, value_cons]
      ring

theorem addCarry_spec (xs : List (BitVec w)) (carry : BitVec w) : (addCarry xs carry).1.length = xs.length ∧
      value (addCarry xs carry).1 + (2^w)^xs.length * (addCarry xs carry).2.toNat = value xs + carry.toNat := by
  induction xs generalizing carry with
  | nil => simp [addCarry]
  | cons x xs ih =>
    have sum := digitAdd_spec x carry 0 (by rw [toNat_zero]; omega)
    rw [toNat_zero] at sum
    obtain ⟨length, rest⟩ := ih (digitAdd x carry 0).2
    refine ⟨congrArg succ length, (value_carry sum rest).trans ?_⟩
    rw [value_cons]
    ring

theorem subPairs_spec (size : xs.length = ys.length) (borrow : BitVec w) :
    (subPairs xs ys borrow).1.length = xs.length ∧ value (subPairs xs ys borrow).1 + value ys + borrow.toNat =
        value xs + (2^w)^xs.length * (subPairs xs ys borrow).2.toNat := by
  induction xs generalizing ys borrow with
  | nil =>
    cases length_eq_zero_iff.mp size.symm
    simp [subPairs]
  | cons x xs ih =>
    cases ys with
    | nil => cases size
    | cons y ys =>
      have difference := digitSub_digitSub x y borrow room
      obtain ⟨length, rest⟩ := ih (succ.inj size) (digitSub (digitSub x y 0).1 borrow (digitSub x y 0).2).2
      refine ⟨congrArg succ length, trans ?_ (value_carry difference.symm rest.symm).symm⟩
      rw [subPairs, value_cons, value_cons]
      ring

theorem subBorrow_spec (xs : List (BitVec w)) (borrow : BitVec w) :
    (subBorrow xs borrow).1.length = xs.length ∧ value (subBorrow xs borrow).1 + borrow.toNat =
        value xs + (2^w)^xs.length * (subBorrow xs borrow).2.toNat := by
  induction xs generalizing borrow with
  | nil => simp [subBorrow]
  | cons x xs ih =>
    have difference := digitSub_spec x borrow 0 (by rw [toNat_zero]; omega)
    rw [toNat_zero] at difference
    obtain ⟨length, rest⟩ := ih (digitSub x borrow 0).2
    refine ⟨congrArg succ length, trans ?_ (value_carry difference.symm rest.symm).symm⟩
    rw [subBorrow, value_cons]
    ring

theorem addDigits_spec (longer : ys.length ≤ xs.length) :
    (addDigits xs ys).length = xs.length + 1 ∧ value (addDigits xs ys) = value xs + value ys := by
  have size : (xs.take ys.length).length = ys.length := length_take_of_le longer
  have low := addPairs_spec room size 0
  have high := addCarry_spec room (xs.drop ys.length) (addPairs (xs.take ys.length) ys 0).2
  have whole := value_take_add_drop xs ys.length
  simp only [addDigits]
  rw [toNat_zero, size] at low
  rw [length_drop] at high
  constructor
  · rw [length_append, length_append, length_singleton]
    omega
  · rw [List.append_assoc, value_append, value_append, value_singleton, low.1, high.1, high.2, Nat.mul_add]
    omega

theorem subDigits_spec (longer : ys.length ≤ xs.length) (greater : value ys ≤ value xs) :
    (subDigits xs ys).1.length = xs.length ∧ value (subDigits xs ys).1 = value xs - value ys := by
  have size : (xs.take ys.length).length = ys.length := length_take_of_le longer
  have low := subPairs_spec room size 0
  have high := subBorrow_spec room (xs.drop ys.length) (subPairs (xs.take ys.length) ys 0).2
  have whole := value_take_add_drop xs ys.length
  simp only [subDigits]
  generalize subPairs (xs.take ys.length) ys 0 = lower at *
  generalize subBorrow (xs.drop ys.length) lower.2 = upper at *
  rw [toNat_zero, size] at low
  rw [length_drop] at high
  have length_eq : (lower.1 ++ upper.1).length = xs.length := by
    rw [length_append]
    omega
  have power : (2^w)^ys.length * (2^w)^(xs.length - ys.length) = (2^w)^xs.length := by
    rw [← pow_add]
    exact congrArg _ (Nat.add_sub_cancel' longer)
  have scaled := congrArg ((2^w)^ys.length * ·) high.2
  simp only [Nat.mul_add, ← mul_assoc, power] at scaled
  have digits : value (lower.1 ++ upper.1) + value ys = value xs + (2^w)^xs.length * upper.2.toNat := by
    rw [value_append, low.1]
    omega
  have bound := value_lt (lower.1 ++ upper.1)
  rw [length_eq] at bound
  have none : upper.2.toNat = 0 := by
    by_contra some
    have step : (2^w)^xs.length * 1 ≤ (2^w)^xs.length * upper.2.toNat := Nat.mul_le_mul_left _ (pos_of_ne_zero some)
    omega
  rw [none] at digits
  omega

end

def comparisonOf (x y : Nat) : ComparisonResult :=
  if x < y then .LessThan else if x = y then .Equal else .GreaterThan

theorem compareDigits_eq (size : xs.length = ys.length) :
    compareDigits xs ys = comparisonOf (value xs.reverse) (value ys.reverse) := by
  induction xs generalizing ys with
  | nil =>
    cases length_eq_zero_iff.mp size.symm
    rfl
  | cons x xs ih =>
    cases ys with
    | nil => cases size
    | cons y ys =>
      have lengths : xs.length = ys.length := succ.inj size
      have left := value_lt xs.reverse
      have right := value_lt ys.reverse
      rw [length_reverse] at left right
      rw [compareDigits, reverse_cons, reverse_cons, value_append, value_append, value_singleton,
        value_singleton, length_reverse, length_reverse, ih lengths, lengths]
      rw [lengths] at left
      rcases Nat.lt_trichotomy x.toNat y.toNat with less | same | more
      · have below := (add_mul_lt_add_mul_iff left right).mpr (.inl less)
        rw [if_neg (fun equal => by rw [equal] at less; omega), if_neg (by rw [gt_iff_lt, lt_def]; omega),
          comparisonOf, if_pos below]
      · rw [if_pos (eq_of_toNat_eq same), same, comparisonOf, comparisonOf]
        simp
      · have above := (add_mul_lt_add_mul_iff right left).mpr (.inl more)
        rw [if_neg (fun equal => by rw [equal] at more; omega), if_pos (by rw [gt_iff_lt]; omega),
          comparisonOf, if_neg (by omega), if_neg (by omega)]

end Loops

namespace JSBigInt

variable {build : Build} {x y : JSBigInt build}

theorem absoluteCompare_eq (hx : x.Canonical) (hy : y.Canonical) :
    absoluteCompare x y = comparisonOf (value x.digits) (value y.digits) := by
  rw [absoluteCompare, length, length]
  split
  · rename_i shorter
    rw [comparisonOf, if_pos (hy.trimmed.value_lt_of_length_lt shorter)]
  · split
    · rename_i longer
      have less := hx.trimmed.value_lt_of_length_lt longer
      rw [comparisonOf, if_neg (by omega), if_neg (by omega)]
    · rw [compareDigits_eq (by rw [length_reverse, length_reverse]; omega), reverse_reverse, reverse_reverse]

theorem isZero_iff : x.isZero = true ↔ x.digits = [] := by
  rw [isZero, length, beq_iff_eq, length_eq_zero_iff]

theorem toInt_of_isZero (zero : x.isZero = true) : x.toInt = 0 := by
  rw [toInt, isZero_iff.mp zero]
  split <;> rfl

theorem Canonical.zero : (createZero : JSBigInt build).Canonical := ⟨Trimmed.nil, fun _ => rfl⟩

theorem toInt_zero : (createZero : JSBigInt build).toInt = 0 := rfl

variable {digits : List (Digit build)}

theorem Canonical.of_digits {sign : Bool} (trimmed : Trimmed digits) (some : digits ≠ []) :
    (JSBigInt.mk digits sign).Canonical := ⟨trimmed, fun none => absurd none some⟩

theorem canonical_singleton {digit : Digit build} (some : digit.toNat ≠ 0) (sign : Bool) :
    (JSBigInt.mk [digit] sign).Canonical := by
  apply Canonical.of_digits _ (cons_ne_nil _ _)
  rw [← nil_append [digit], trimmed_concat]
  rintro rfl
  exact some toNat_zero

theorem canonical_rightTrim (signed : x.digits = [] → x.sign = false) : x.rightTrim.Canonical := by
  rw [rightTrim]
  split
  · rename_i zero
    have none := isZero_iff.mp zero
    refine ⟨?_, signed⟩
    rw [none]
    exact Trimmed.nil
  · split
    · exact Canonical.zero
    · rename_i some
      exact Canonical.of_digits (trimmed_trim _) some

theorem value_rightTrim (x : JSBigInt build) : value x.rightTrim.digits = value x.digits := by
  rw [rightTrim]
  split
  · rfl
  · split_ifs with none
    · exact (value_of_trim_eq_nil none).symm
    · exact value_trim _

theorem toInt_rightTrim (x : JSBigInt build) : x.rightTrim.toInt = x.toInt := by
  rw [rightTrim]
  split
  · rfl
  · split_ifs with none
    · rw [toInt_zero, toInt, value_of_trim_eq_nil none]
      split <;> rfl
    · rw [toInt, toInt, value_trim]

theorem createWithLengthUnchecked_eq {storage : Storage build} {size : Nat} (all : digits.length = size) :
    createWithLengthUnchecked storage size digits = { digits := digits } := by
  rw [createWithLengthUnchecked, drop_eq_nil_of_le, append_nil]
  rw [length_map, length_range, all]

theorem canonical_unaryMinus (hx : x.Canonical) : x.unaryMinus.Canonical := by
  rw [unaryMinus]
  split_ifs with some
  · exact hx
  · exact Canonical.of_digits hx.trimmed (fun none => some (isZero_iff.mpr none))

theorem toInt_unaryMinus (x : JSBigInt build) : x.unaryMinus.toInt = -x.toInt := by
  rw [unaryMinus]
  split_ifs with zero
  · rw [toInt_of_isZero zero, Int.neg_zero]
  · obtain ⟨digits, sign⟩ := x
    cases sign
    · rfl
    · exact (neg_neg _).symm

def signed (sign : Bool) (magnitude : Nat) : Int := if sign then -(magnitude : Int) else magnitude

theorem toInt_eq_signed (x : JSBigInt build) : x.toInt = signed x.sign (value x.digits) := rfl

theorem signed_or_unaryMinus (hx : x.Canonical) (sign : Bool) :
    (if sign = x.sign then x else x.unaryMinus).Canonical ∧
      (if sign = x.sign then x else x.unaryMinus).toInt = signed sign (value x.digits) := by
  split_ifs with same
  · exact ⟨hx, same ▸ toInt_eq_signed x⟩
  · refine ⟨canonical_unaryMinus hx, ?_⟩
    rw [toInt_unaryMinus, toInt_eq_signed]
    cases sign <;> cases sign' : x.sign
    · exact absurd sign'.symm same
    · exact neg_neg _
    · rfl
    · exact absurd sign'.symm same

/-- The canonical number for an integer, or an error for want of memory. -/
def Returns (result : Except BigIntError (JSBigInt build)) (integer : Int) (allocated : Nat) : Prop :=
  match result with
  | .ok returned => returned.Canonical ∧ returned.toInt = integer
  | .error error => error = .OutOfMemoryError ∧ allocated > build.maxLength

theorem trimmed_of_digits (some : digits ≠ []) (sign : Bool) : (JSBigInt.mk digits sign).rightTrim.Canonical ∧
      (JSBigInt.mk digits sign).rightTrim.toInt = signed sign (value digits) :=
  ⟨canonical_rightTrim (fun none => absurd none some), toInt_rightTrim _⟩

theorem returns_trimmed {storage : Storage build} {size : Nat} (sign : Bool)
    (all : digits.length = size) (positive : 0 < size) :
    Returns ((tryCreateWithLength storage size digits).map (fun result => (result.setSign sign).rightTrim))
      (signed sign (value digits)) size := by
  rw [tryCreateWithLength]
  split_ifs with long
  · exact ⟨rfl, long⟩
  · rw [createWithLengthUnchecked_eq all]
    have some : digits ≠ [] := ne_nil_of_length_pos (all ▸ positive)
    exact trimmed_of_digits some sign

variable (storage : Storage build)

theorem addLonger_returns (sign : Bool) (longer : y.length ≤ x.length) :
    Returns (addLonger storage x y sign) (signed sign (value x.digits + value y.digits)) (x.length + 1) := by
  have roomy := room build
  obtain ⟨all, digits⟩ := addDigits_spec (by omega) longer
  rw [← digits]
  exact returns_trimmed sign all (succ_pos _)

theorem signed_zero (sign : Bool) : signed sign 0 = 0 := by
  cases sign <;> rfl

theorem value_of_isZero (zero : x.isZero = true) : value x.digits = 0 := by
  rw [isZero_iff.mp zero, value_nil]

theorem addOrdered_returns (hx : x.Canonical) (sign : Bool) (longer : y.length ≤ x.length) :
    Returns (if x.isZero then .ok x else if y.isZero then .ok (if sign = x.sign then x else x.unaryMinus)
        else addLonger storage x y sign) (signed sign (value x.digits + value y.digits)) (x.length + 1) := by
  split
  · rename_i zero
    have none : y.isZero = true := by
      rw [isZero, beq_iff_eq] at zero ⊢
      omega
    rw [value_of_isZero zero, value_of_isZero none, signed_zero]
    exact ⟨hx, toInt_of_isZero zero⟩
  · split
    · rename_i zero
      rw [value_of_isZero zero]
      exact signed_or_unaryMinus hx sign
    · exact addLonger_returns storage sign longer

theorem absoluteAdd_returns (hx : x.Canonical) (hy : y.Canonical) (sign : Bool) :
    Returns (absoluteAdd storage x y sign) (signed sign (value x.digits + value y.digits))
      (max x.length y.length + 1) := by
  rw [absoluteAdd]
  by_cases shorter : x.length < y.length
  · simp only [if_pos shorter]
    rw [max_eq_right (by omega), add_comm (value x.digits)]
    exact addOrdered_returns storage hy sign (by omega)
  · simp only [if_neg shorter]
    rw [max_eq_left (by omega)]
    exact addOrdered_returns storage hx sign (by omega)

theorem comparisonOf_eq_equal {first second : Nat} : comparisonOf first second = .Equal ↔ first = second := by
  rw [comparisonOf]
  split
  · rename_i less
    exact ⟨nofun, fun same => absurd same (Nat.ne_of_lt less)⟩
  · split
    · rename_i same
      exact ⟨fun _ => same, fun _ => rfl⟩
    · rename_i other
      exact ⟨nofun, fun same => absurd same other⟩

theorem absoluteSub_spec (hx : x.Canonical) (hy : y.Canonical) (sign : Bool)
    (greater : value y.digits ≤ value x.digits) :
    (absoluteSub storage x y sign).Canonical ∧
      (absoluteSub storage x y sign).toInt = signed sign (value x.digits - value y.digits) := by
  have longer : y.length ≤ x.length := by
    by_contra shorter
    have less := hy.trimmed.value_lt_of_length_lt (Nat.lt_of_not_le shorter)
    omega
  have roomy := room build
  simp only [absoluteSub, absoluteCompare_eq hx hy, comparisonOf_eq_equal]
  split
  · rename_i zero
    rw [value_of_isZero zero, Nat.zero_sub, signed_zero]
    exact ⟨hx, toInt_of_isZero zero⟩
  · split
    · rename_i zero
      rw [value_of_isZero zero]
      exact signed_or_unaryMinus hx sign
    · split
      · rename_i same
        rw [same, Nat.sub_self, signed_zero]
        exact ⟨Canonical.zero, toInt_zero⟩
      · rename_i some _ _
        obtain ⟨all, digits⟩ := subDigits_spec (by omega) longer greater
        rw [length, createWithLengthUnchecked_eq all, ← digits]
        apply trimmed_of_digits
        apply ne_nil_of_length_pos
        rw [all]
        exact length_pos_iff.mpr (fun none => some (isZero_iff.mpr none))

theorem signed_not (sign : Bool) (magnitude : Nat) : signed (!sign) magnitude = -signed sign magnitude := by
  cases sign
  · rfl
  · exact (neg_neg _).symm

theorem signed_sub {sign : Bool} {first second : Nat} (greater : second ≤ first) :
    signed sign (first - second) = signed sign first - signed sign second := by
  cases sign
  · exact Int.ofNat_sub greater
  · simp only [signed, if_true]
    omega

theorem signed_add (sign : Bool) (first second : Nat) :
    signed sign (first + second) = signed sign first + signed sign second := by
  cases sign
  · exact Int.natCast_add _ _
  · simp only [signed, if_true]
    omega

variable (hx : x.Canonical) (hy : y.Canonical)
include storage hx hy

theorem subWithSign_spec : (subWithSign storage x y).Canonical ∧
      (subWithSign storage x y).toInt = signed x.sign (value x.digits) - signed x.sign (value y.digits) := by
  rw [subWithSign, absoluteCompare_eq hx hy, comparisonOf]
  by_cases less : value x.digits < value y.digits
  · obtain ⟨canonical, result⟩ := absoluteSub_spec storage hy hx (!x.sign) (le_of_lt less)
    rw [if_pos less]
    refine ⟨canonical, ?_⟩
    rw [result, signed_sub (le_of_lt less), signed_not, signed_not]
    omega
  · obtain ⟨canonical, result⟩ := absoluteSub_spec storage hx hy x.sign (Nat.le_of_not_lt less)
    split_ifs <;> exact ⟨canonical, result.trans (signed_sub (Nat.le_of_not_lt less))⟩

theorem add_returns : Returns (add storage x y) (x.toInt + y.toInt) (max x.length y.length + 1) := by
  rw [add, toInt_eq_signed, toInt_eq_signed]
  split_ifs with same
  · rw [← same, ← signed_add]
    exact absoluteAdd_returns storage hx hy x.sign
  · obtain ⟨canonical, result⟩ := subWithSign_spec storage hx hy
    refine ⟨canonical, ?_⟩
    have opposite : y.sign = !x.sign := Bool.eq_not.mpr (symm same)
    rw [result, opposite, signed_not, Int.sub_eq_add_neg]

theorem sub_returns : Returns (sub storage x y) (x.toInt - y.toInt) (max x.length y.length + 1) := by
  rw [sub, toInt_eq_signed, toInt_eq_signed]
  split_ifs with other
  · have opposite : y.sign = !x.sign := Bool.eq_not.mpr (symm other)
    rw [opposite, signed_not, Int.sub_neg, ← signed_add]
    exact absoluteAdd_returns storage hx hy x.sign
  · rw [← not_not.mp other]
    exact subWithSign_spec storage hx hy

end JSBigInt

end Odyssey.BigInt
