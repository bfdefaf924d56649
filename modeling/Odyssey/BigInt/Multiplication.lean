import Odyssey.BigInt.RingArithmetic

namespace Odyssey.BigInt

open Arithmetic List Nat

variable {build : Build}

theorem carry_lt {base acc carried factor other low carry : Nat} (hacc : acc < base) (hcarried : carried < base)
    (hfactor : factor < base) (hother : other < base)
    (total : low + base * carry = acc + carried + factor * other) : carry < base := by
  obtain ⟨top, rfl⟩ : ∃ top, base = top + 1 := ⟨base - 1, by omega⟩
  have product : factor * other ≤ top * top := Nat.mul_le_mul (by omega) (by omega)
  have bound : (top + 1) * carry < (top + 1) * (top + 1) := by
    rw [add_mul top 1 (top + 1), mul_add]
    omega
  exact Nat.lt_of_mul_lt_mul_left bound

/-- The carry and the high digit of a round are less than the base together, so that nothing is lost in
    the next one. -/
theorem accumulateProducts_spec (multiplier : Digit build) {multiplicands accs : List (Digit build)}
    (inside : multiplicands.length ≤ accs.length) (carry high : Digit build)
    (small : carry.toNat + high.toNat < 2^build.digitBits) :
    let result := accumulateProducts build multiplier multiplicands accs carry high
    result.1.length = multiplicands.length ∧
      value result.1 + (2^build.digitBits)^multiplicands.length * (result.2.1.toNat + result.2.2.toNat) =
        value (accs.take multiplicands.length) + multiplier.toNat * value multiplicands +
          (carry.toNat + high.toNat) := by
  induction multiplicands generalizing accs carry high with
  | nil => simp [accumulateProducts]
  | cons multiplicand multiplicands ih =>
    cases accs with
    | nil => cases inside
    | cons acc accs =>
      have roomy := room build
      have sum := digitAdd_digitAdd acc high carry (by omega)
      have carries := digitAdd_digitAdd_carry_le acc high carry (by omega)
      have product := digitMul_spec multiplier multiplicand
      simp only [accumulateProducts]
      generalize digitAdd acc high 0 = first at *
      generalize digitAdd first.1 carry first.2 = second at *
      generalize digitMul build multiplier multiplicand = digits at *
      have last := digitAdd_spec second.1 digits.1 second.2 (by omega)
      generalize digitAdd second.1 digits.1 second.2 = third at *
      have total : third.1.toNat + 2^build.digitBits * (third.2.toNat + digits.2.toNat) =
          acc.toNat + (carry.toNat + high.toNat) + multiplier.toNat * multiplicand.toNat := by
        rw [mul_add]
        omega
      have next := carry_lt acc.isLt small multiplier.isLt multiplicand.isLt total
      obtain ⟨size, rest⟩ := ih (le_of_succ_le_succ inside) third.2 digits.2 next
      refine ⟨congrArg succ size, (value_carry total rest).trans ?_⟩
      rw [length_cons, take_succ_cons, value_cons, value_cons]
      ring

theorem rippleCarries_spec (accs : List (Digit build)) (carry high : Digit build)
    (fits : value accs + (carry.toNat + high.toNat) < (2^build.digitBits)^accs.length) :
    (rippleCarries build accs carry high).length = accs.length ∧
      value (rippleCarries build accs carry high) = value accs + (carry.toNat + high.toNat) := by
  induction accs generalizing carry high with
  | nil =>
    rw [length_nil, pow_zero] at fits
    rw [rippleCarries]
    omega
  | cons acc accs ih =>
    rw [rippleCarries]
    split_ifs with none
    · have roomy := room build
      have sum := digitAdd_digitAdd acc high carry (by omega)
      simp only
      generalize digitAdd acc high 0 = first at *
      generalize digitAdd first.1 carry first.2 = second at *
      rw [value_cons, length_cons, pow_succ'] at fits
      have less : value accs + (second.2.toNat + (0 : Digit build).toNat) < (2^build.digitBits)^accs.length := by
        rw [toNat_zero, add_zero]
        apply Nat.lt_of_mul_lt_mul_left (a := 2^build.digitBits)
        rw [mul_add]
        omega
      obtain ⟨size, rest⟩ := ih second.2 0 less
      rw [toNat_zero, add_zero] at rest
      refine ⟨congrArg succ size, ?_⟩
      rw [value_cons, value_cons, rest, mul_add]
      omega
    · rw [not_or, not_not, not_not] at none
      rw [none.1, none.2]
      exact ⟨rfl, rfl⟩

theorem multiplyAccumulate_spec (multiplicand : List (Digit build)) (multiplier : Digit build)
    (accumulator : List (Digit build)) (index : Nat) (inside : index + multiplicand.length ≤ accumulator.length)
    (fits : value accumulator + (2^build.digitBits)^index * (multiplier.toNat * value multiplicand) <
      (2^build.digitBits)^accumulator.length) :
    (multiplyAccumulate build multiplicand multiplier accumulator index).length = accumulator.length ∧
      value (multiplyAccumulate build multiplicand multiplier accumulator index) =
        value accumulator + (2^build.digitBits)^index * (multiplier.toNat * value multiplicand) := by
  rw [multiplyAccumulate]
  split_ifs with zero
  · rw [zero, toNat_zero, zero_mul]
    exact ⟨rfl, rfl⟩
  · have low := value_take_add_drop accumulator index
    have room' : multiplicand.length ≤ (accumulator.drop index).length := by
      rw [length_drop]
      omega
    have high := value_take_add_drop (accumulator.drop index) multiplicand.length
    rw [drop_drop] at high
    obtain ⟨size, products⟩ := accumulateProducts_spec multiplier room' 0 0
      (by rw [toNat_zero]; exact Nat.two_pow_pos _)
    rw [toNat_zero, Nat.add_zero] at products
    simp only
    generalize accumulateProducts build multiplier multiplicand (accumulator.drop index) 0 0 = result at *
    have topLength := length_drop (i := index + multiplicand.length) (l := accumulator)
    generalize accumulator.drop (index + multiplicand.length) = top at *
    have power : (2^build.digitBits)^accumulator.length =
        (2^build.digitBits)^index * ((2^build.digitBits)^multiplicand.length * (2^build.digitBits)^top.length) := by
      rw [← pow_add, ← pow_add]
      congr 1
      omega
    have total : value accumulator + (2^build.digitBits)^index * (multiplier.toNat * value multiplicand) =
        value (accumulator.take index) + (2^build.digitBits)^index * (value result.1 +
          (2^build.digitBits)^multiplicand.length * (value top + (result.2.1.toNat + result.2.2.toNat))) := by
      calc _ = value (accumulator.take index) + (2^build.digitBits)^index *
            (value ((accumulator.drop index).take multiplicand.length) + multiplier.toNat * value multiplicand) +
            (2^build.digitBits)^index * ((2^build.digitBits)^multiplicand.length * value top) := by
              rw [low, high]
              ring
        _ = _ := by
              rw [← products]
              ring
    have place : value top + (result.2.1.toNat + result.2.2.toNat) < (2^build.digitBits)^top.length := by
      rw [total, power] at fits
      have inner := Nat.lt_of_mul_lt_mul_left (Nat.lt_of_le_of_lt (le_add_left _ _) fits)
      exact Nat.lt_of_mul_lt_mul_left (lt_of_le_of_lt (le_add_left _ _) inner)
    obtain ⟨length_eq, ripple⟩ := rippleCarries_spec top result.2.1 result.2.2 place
    have before : (accumulator.take index).length = index := length_take_of_le (by omega)
    constructor
    · rw [length_append, length_append, length_eq]
      omega
    · rw [total, append_assoc, value_append, value_append, before, size, ripple]

theorem accumulate_spec (y xs accumulator : List (Digit build)) (index : Nat)
    (inside : index + xs.length + y.length ≤ accumulator.length)
    (fits : value accumulator + (2^build.digitBits)^index * (value xs * value y) <
      (2^build.digitBits)^accumulator.length) :
    let result := (xs.zipIdx index).foldl
      (fun result (digit, i) => multiplyAccumulate build y digit result i) accumulator
    result.length = accumulator.length ∧
      value result = value accumulator + (2^build.digitBits)^index * (value xs * value y) := by
  induction xs generalizing accumulator index with
  | nil => simp
  | cons x xs ih =>
    have split : (2^build.digitBits)^index * (value (x :: xs) * value y) =
        (2^build.digitBits)^index * (x.toNat * value y) + (2^build.digitBits)^(index + 1) * (value xs * value y) := by
      rw [value_cons]
      ring
    rw [length_cons] at inside
    obtain ⟨size, first⟩ := multiplyAccumulate_spec y x accumulator index (by omega) (by omega)
    obtain ⟨size', rest⟩ := ih (multiplyAccumulate build y x accumulator index) (index + 1)
      (by rw [size]; omega) (by rw [size]; omega)
    rw [zipIdx_cons, foldl_cons]
    refine ⟨size'.trans size, ?_⟩
    rw [rest]
    omega

namespace JSBigInt

theorem productDigits_spec (x y : JSBigInt build) : (productDigits x y).length = x.length + y.length ∧
      value (productDigits x y) = value x.digits * value y.digits := by
  have start : value (List.replicate (x.length + y.length) (0 : Digit build)) = 0 := value_replicate_zero _
  have size : (List.replicate (x.length + y.length) (0 : Digit build)).length = x.length + y.length :=
    length_replicate
  have fits : value x.digits * value y.digits < (2^build.digitBits)^(x.length + y.length) := by
    rw [Nat.pow_add]
    exact Nat.mul_lt_mul'' (value_lt _) (value_lt _)
  obtain ⟨length_eq, digits⟩ := accumulate_spec y.digits x.digits
    (List.replicate (x.length + y.length) 0) 0 (by rw [size, Nat.zero_add]; exact Nat.le_refl _)
    (by rw [start, size, Nat.pow_zero, Nat.one_mul, Nat.zero_add]; exact fits)
  rw [start, Nat.pow_zero, Nat.one_mul, Nat.zero_add] at digits
  exact ⟨length_eq.trans size, digits⟩

theorem signed_mul (first second : Bool) (x y : Nat) :
    signed (first != second) (x * y) = signed first x * signed second y := by
  cases first <;> cases second <;> simp [signed]

theorem multiply_returns (storage : Storage build) {x y : JSBigInt build} (hx : x.Canonical) (hy : y.Canonical) :
    Returns (multiply storage x y) (x.toInt * y.toInt) (x.length + y.length) := by
  rw [multiply]
  split
  · rename_i zero
    rw [toInt_of_isZero zero, zero_mul]
    exact ⟨hx, toInt_of_isZero zero⟩
  · split
    · rename_i zero
      rw [toInt_of_isZero zero, mul_zero]
      exact ⟨hy, toInt_of_isZero zero⟩
    · rename_i some _
      obtain ⟨all, digits⟩ := productDigits_spec x y
      rw [toInt_eq_signed, toInt_eq_signed, ← signed_mul, ← digits]
      apply returns_trimmed _ all
      have positive : 0 < x.length := length_pos_iff.mpr (fun none => some (isZero_iff.mpr none))
      omega

theorem ring_arithmetic (storage : Storage build) {x y : JSBigInt build} (hx : x.Canonical) (hy : y.Canonical) :
    Returns (add storage x y) (x.toInt + y.toInt) (max x.length y.length + 1) ∧
      Returns (sub storage x y) (x.toInt - y.toInt) (max x.length y.length + 1) ∧
      Returns (multiply storage x y) (x.toInt * y.toInt) (x.length + y.length) ∧
      x.unaryMinus.Canonical ∧ x.unaryMinus.toInt = -x.toInt :=
  ⟨add_returns storage hx hy, sub_returns storage hx hy, multiply_returns storage hx hy, canonical_unaryMinus hx,
    toInt_unaryMinus x⟩

theorem ring_arithmetic_minus_five_three : let x : JSBigInt ⟨true, false⟩ := ⟨[5], true⟩
    let y : JSBigInt ⟨true, false⟩ := ⟨[3], false⟩
    x.Canonical ∧ y.Canonical ∧
      Returns (add (fun _ => 7) x y) (-5 + 3) 2 ∧ Returns (sub (fun _ => 7) x y) (-5 - 3) 2 ∧
      Returns (multiply (fun _ => 7) x y) (-5 * 3) 2 ∧ x.unaryMinus.Canonical ∧ x.unaryMinus.toInt = -(-5) := by
  have hx : (⟨[5], true⟩ : JSBigInt ⟨true, false⟩).Canonical := ⟨by decide, nofun⟩
  have hy : (⟨[3], false⟩ : JSBigInt ⟨true, false⟩).Canonical := ⟨by decide, nofun⟩
  exact ⟨hx, hy, ring_arithmetic (fun _ => 7) hx hy⟩

end JSBigInt

end Odyssey.BigInt
