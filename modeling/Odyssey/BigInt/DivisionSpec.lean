import Odyssey.BigInt.Division
import Odyssey.BigInt.Multiplication

namespace Odyssey.BigInt

open Arithmetic List Option Nat

variable {build : Build}

theorem value_take_succ {w : Nat} {digits : List (BitVec w)} {index : Nat} (inside : index < digits.length) :
    value (digits.take (index + 1)) = value (digits.take index) + (2^w)^index * (digits.getD index 0).toNat := by
  have digit : digits[index]? = some (digits.getD index 0) := by
    rw [getD_eq_getElem?_getD, getElem?_eq_getElem inside, getD_some]
  rw [take_add_one, digit, toList_some, value_append, value_singleton, length_take_of_le (le_of_lt inside)]

theorem toNat_top {w : Nat} {digits : List (BitVec w)} {index : Nat} (size : digits.length = index + 1) :
    (digits.getD index 0).toNat = value digits / (2^w)^index := by
  rw [← value_drop, drop_getD (by omega), drop_of_length_le (le_of_eq size), value_singleton]

theorem multiplyAddDigits_spec (factor : Digit build) (source : List (Digit build)) (carry high : Digit build)
    (small : carry.toNat + high.toNat < 2^build.digitBits) :
    let result := multiplyAddDigits build factor source carry high
    result.1.length = source.length ∧ result.2.1.toNat + result.2.2.toNat < 2^build.digitBits ∧
      value result.1 + (2^build.digitBits)^source.length * (result.2.1.toNat + result.2.2.toNat) =
        value source * factor.toNat + (carry.toNat + high.toNat) := by
  induction source generalizing carry high with
  | nil => simp [multiplyAddDigits, small]
  | cons current source ih =>
    have roomy := room build
    have product := digitMul_spec current factor
    simp only [multiplyAddDigits]
    generalize digitMul build current factor = digits at *
    have sum := digitAdd_digitAdd digits.1 high carry (by omega)
    generalize digitAdd digits.1 high 0 = first at *
    generalize digitAdd first.1 carry first.2 = second at *
    have total : second.1.toNat + 2^build.digitBits * (second.2.toNat + digits.2.toNat) =
        0 + (carry.toNat + high.toNat) + current.toNat * factor.toNat := by
      rw [mul_add]
      omega
    have next := carry_lt (Nat.two_pow_pos build.digitBits) small current.isLt factor.isLt total
    obtain ⟨size, less, rest⟩ := ih second.2 digits.2 next
    refine ⟨congrArg succ size, less, (value_carry total rest).trans ?_⟩
    rw [value_cons]
    ring

theorem internalMultiplyAdd_spec {source : List (Digit build)} (factor summand : Digit build) {n length : Nat}
    (inside : n ≤ source.length) (long : n ≤ length)
    (fits : value (source.take n) * factor.toNat + summand.toNat < (2^build.digitBits)^length) :
    (internalMultiplyAdd build source factor summand n length).length = length ∧
      value (internalMultiplyAdd build source factor summand n length) =
        value (source.take n) * factor.toNat + summand.toNat := by
  obtain ⟨size, less, total⟩ := multiplyAddDigits_spec factor (source.take n) summand 0
    (by rw [toNat_zero]; exact summand.isLt)
  rw [toNat_zero, add_zero] at total
  rw [length_take_of_le inside] at size total
  simp only [internalMultiplyAdd]
  generalize multiplyAddDigits build factor (source.take n) summand 0 = result at *
  split_ifs with more
  · constructor
    · rw [length_append, length_cons, length_replicate]
      omega
    · rw [value_append, value_cons, value_replicate_zero, size, BitVec.toNat_add, mod_eq_of_lt less,
        mul_zero, add_zero, total]
  · have same : length = n := by omega
    subst same
    refine ⟨size, ?_⟩
    have none : result.2.1.toNat + result.2.2.toNat = 0 := eq_zero_of_mul_lt ((2^build.digitBits)^length) (by omega)
    rw [none] at total
    exact total

theorem correctEstimate_eq (vn1 vn2 ujn2 : Digit build) (rounds : Nat) (qhat rhat : Digit build) :
    (correctEstimate build vn1 vn2 ujn2 rounds qhat rhat).toNat =
      lowered (2^build.digitBits) vn1.toNat vn2.toNat ujn2.toNat rounds qhat.toNat rhat.toNat := by
  induction rounds generalizing qhat rhat with
  | zero => rfl
  | succ rounds ih =>
    have test : productGreaterThan build qhat vn2 rhat ujn2 = true ↔ (2^build.digitBits ≤ qhat.toNat ∨
        rhat.toNat * 2^build.digitBits + ujn2.toNat < qhat.toNat * vn2.toNat) := by
      rw [productGreaterThan_iff, mul_comm (2^build.digitBits)]
      exact ⟨Or.inr, fun either => either.resolve_left (by omega)⟩
    rw [correctEstimate, lowered]
    simp only [test]
    split
    · rename_i large
      have positive : 0 < qhat.toNat := by
        rcases large with big | product
        · omega
        · exact Nat.pos_of_mul_pos_right (zero_lt_of_lt product)
      have less := toNat_sub_one (by omega) positive
      have sum := toNat_add_cases rhat vn1
      by_cases wraps : rhat + vn1 < rhat
      · rw [if_pos wraps] at sum
        rw [if_pos wraps, if_pos (by omega), less]
      · rw [if_neg wraps, mul_zero, add_zero] at sum
        rw [if_neg wraps, if_neg (by omega), ih, less, sum]
    · rfl

theorem correctEstimate_exact {vn1 vn2 ujn ujn1 ujn2 : Digit build} (lower : ujn.toNat < vn1.toNat)
    (normal : 2^build.digitBits ≤ 2 * vn1.toNat) {rounds : Nat} (enough : 2 ≤ rounds) :
    (correctEstimate build vn1 vn2 ujn2 rounds (digitDiv build ujn ujn1 vn1).1 (digitDiv build ujn ujn1 vn1).2).toNat =
      ((ujn.toNat * 2^build.digitBits + ujn1.toNat) * 2^build.digitBits + ujn2.toNat) /
        (vn1.toNat * 2^build.digitBits + vn2.toNat) := by
  have positive : 0 < vn1.toNat := by omega
  have digit : (ujn.toNat * 2^build.digitBits + ujn1.toNat) / vn1.toNat < 2^build.digitBits :=
    quotient_lt_base lower ujn1.isLt
  have mod := mod_lt (ujn.toNat * 2^build.digitBits + ujn1.toNat) positive
  have top : (((ujn.toNat * 2^build.digitBits + ujn1.toNat) * 2^build.digitBits + ujn2.toNat) /
      (vn1.toNat * 2^build.digitBits + vn2.toNat)) ≤ (ujn.toNat * 2^build.digitBits + ujn1.toNat) / vn1.toNat :=
    quotient_le_top positive ujn2.isLt
  have scaled : 2 * vn1.toNat ≤ rounds * vn1.toNat := mul_le_mul_right _ enough
  obtain ⟨quotient, rest⟩ := digitDiv_spec ujn1 lower
  rw [correctEstimate_eq, quotient, rest]
  exact lowered_eq positive vn2.isLt (div_add_mod' _ _) (lt_of_le_of_lt top digit) top (by omega)
    (lt_trans mod vn1.isLt) (by omega)

variable {divisor u : List (Digit build)} {j : Nat}

/-- What an iteration works on: the digits from an index on, one more than the divisor has. -/
def window (divisor u : List (Digit build)) (j : Nat) : List (Digit build) := (u.drop j).take (divisor.length + 1)

theorem top_two {digits : List (Digit build)} {k : Nat} (inside : k + 2 ≤ digits.length) :
    ∃ low, low < (2^build.digitBits)^k ∧ value (digits.take (k + 2)) =
      ((digits.getD (k + 1) 0).toNat * 2^build.digitBits + (digits.getD k 0).toNat) * (2^build.digitBits)^k + low := by
  have below := value_lt (digits.take k)
  rw [length_take_of_le (by omega)] at below
  refine ⟨_, below, ?_⟩
  rw [value_take_succ (show k + 1 < _ by omega), value_take_succ (by omega)]
  ring

theorem top_digits (two : 2 ≤ divisor.length) (inside : j + divisor.length < u.length) :
    ∃ low, low < (2^build.digitBits)^(divisor.length - 2) ∧
      value (window divisor u j) = (((u.getD (j + divisor.length) 0).toNat * 2^build.digitBits +
        (u.getD (j + divisor.length - 1) 0).toNat) * 2^build.digitBits +
        (u.getD (j + divisor.length - 2) 0).toNat) * (2^build.digitBits)^(divisor.length - 2) + low := by
  obtain ⟨k, hk⟩ : ∃ k, divisor.length = k + 2 := ⟨divisor.length - 2, by omega⟩
  have size : (u.drop j).length = u.length - j := length_drop
  have digit (index : Nat) : (u.drop j).getD index 0 = u.getD (j + index) 0 := by
    rw [getD_eq_getElem?_getD, getElem?_drop, getD_eq_getElem?_getD]
  have third : value ((u.drop j).take (k + 3)) = _ := value_take_succ (by omega)
  obtain ⟨low, below, whole⟩ := top_two (show k + 2 ≤ (u.drop j).length by omega)
  rw [whole, digit, digit, digit] at third
  rw [window, hk]
  refine ⟨low, below, third.trans ?_⟩
  simp only [Nat.add_sub_cancel, ← add_assoc, add_succ_sub_one]
  ring

theorem top_divisor_digits (two : 2 ≤ divisor.length) : ∃ low, low < (2^build.digitBits)^(divisor.length - 2) ∧
      value divisor = ((divisor.getD (divisor.length - 1) 0).toNat * 2^build.digitBits +
        (divisor.getD (divisor.length - 2) 0).toNat) * (2^build.digitBits)^(divisor.length - 2) + low := by
  obtain ⟨k, hk⟩ : ∃ k, divisor.length = k + 2 := ⟨divisor.length - 2, by omega⟩
  obtain ⟨low, below, whole⟩ := top_two hk.ge
  rw [take_of_length_le hk.le] at whole
  rw [hk]
  exact ⟨low, below, whole⟩

theorem top_digit_part (base scale u1 u2 u3 : Nat) :
    u1 * (base * base * scale) ≤ ((u1 * base + u2) * base + u3) * scale := by
  calc u1 * (base * base * scale) = u1 * base * base * scale := by ring
    _ ≤ ((u1 * base + u2) * base + u3) * scale := by
        apply Nat.mul_le_mul_right
        exact le_trans (mul_le_mul_right _ (le_add_right _ _)) (le_add_right _ _)

theorem top_digit_le {base scale v1 v2 u1 u2 u3 lowDivisor lowDividend : Nat} (digit : v2 < base)
    (low : lowDivisor < scale)
    (less : ((u1 * base + u2) * base + u3) * scale + lowDividend < base * ((v1 * base + v2) * scale + lowDivisor)) :
    u1 ≤ v1 := by
  by_contra above
  have least : (v1 + 1) * (base * base * scale) ≤ u1 * (base * base * scale) := mul_le_mul_right _ (by omega)
  have most : base * ((v1 * base + v2) * scale + lowDivisor) ≤ (v1 + 1) * (base * base * scale) := by
    calc base * ((v1 * base + v2) * scale + lowDivisor) ≤ base * ((v1 * base + v2) * scale + scale) :=
          mul_le_mul_left _ (by omega)
      _ = (v1 * base + (v2 + 1)) * (base * scale) := by ring
      _ ≤ (v1 * base + base) * (base * scale) := mul_le_mul_right _ (by omega)
      _ = _ := by ring
  have part := top_digit_part base scale u1 u2 u3
  omega

theorem estimate_spec (two : 2 ≤ divisor.length)
    (normal : 2^build.digitBits ≤ 2 * (divisor.getD (divisor.length - 1) 0).toNat)
    (inside : j + divisor.length < u.length) (less : value (window divisor u j) < 2^build.digitBits * value divisor) :
    value (window divisor u j) / value divisor ≤ (estimate build divisor u j).toNat ∧
      (estimate build divisor u j).toNat ≤ value (window divisor u j) / value divisor + 1 := by
  obtain ⟨lowDividend, dividend_lt, dividend⟩ := top_digits two inside
  obtain ⟨lowDivisor, divisor_lt, whole⟩ := top_divisor_digits two
  simp only [estimate]
  rw [dividend, whole] at less ⊢
  generalize u.getD (j + divisor.length) 0 = ujn at *
  generalize u.getD (j + divisor.length - 1) 0 = ujn1 at *
  generalize u.getD (j + divisor.length - 2) 0 = ujn2 at *
  generalize divisor.getD (divisor.length - 1) 0 = vn1 at *
  generalize divisor.getD (divisor.length - 2) 0 = vn2 at *
  generalize (2^build.digitBits)^(divisor.length - 2) = scale at *
  have digit2 := ujn2.isLt
  have digit1 := ujn1.isLt
  have vdigit2 := vn2.isLt
  split_ifs with differ
  · have lower : ujn.toNat < vn1.toNat := by
      have other : ujn.toNat ≠ vn1.toNat := fun same => differ (BitVec.eq_of_toNat_eq same)
      have below := top_digit_le vdigit2 divisor_lt less
      omega
    have top : (((ujn.toNat * 2^build.digitBits + ujn1.toNat) * 2^build.digitBits + ujn2.toNat) /
        (vn1.toNat * 2^build.digitBits + vn2.toNat)) < 2^build.digitBits :=
      lt_of_le_of_lt (quotient_le_top (by omega) digit2) (quotient_lt_base lower digit1)
    rw [correctEstimate_exact lower normal (le_refl 2)]
    apply quotient_of_top _ dividend_lt divisor_lt
    · have wide : 2^build.digitBits ≤ vn1.toNat * 2^build.digitBits := Nat.le_mul_of_pos_left _ (by omega)
      omega
    · exact lt_of_lt_of_le (mul_pos (by omega) (by omega)) (le_add_right _ _)
  · rw [not_not] at differ
    subst differ
    have small : vn2.toNat * scale + lowDivisor < 2^build.digitBits * scale := by
      have step : (vn2.toNat + 1) * scale ≤ 2^build.digitBits * scale := mul_le_mul_right _ vdigit2
      rw [add_mul] at step
      omega
    have regroup : (ujn.toNat * 2^build.digitBits + vn2.toNat) * scale + lowDivisor =
        ujn.toNat * (2^build.digitBits * scale) + (vn2.toNat * scale + lowDivisor) := by ring
    rw [regroup] at less ⊢
    apply quotient_of_same_top _ small normal (by omega) less
    rw [← mul_assoc (2^build.digitBits)]
    exact le_trans (top_digit_part _ _ _ _ _) (le_add_right _ _)

theorem borrow_cases {base dividend divisor qhat difference borrow : Nat} (positive : 0 < divisor)
    (digits : difference < base) (short : divisor < base) (least : dividend / divisor ≤ qhat)
    (most : qhat ≤ dividend / divisor + 1) (total : difference + divisor * qhat = dividend + base * borrow) :
    (borrow = 0 ∧ qhat = dividend / divisor ∧ difference = dividend % divisor) ∨
      (borrow ≠ 0 ∧ qhat = dividend / divisor + 1 ∧ difference + divisor = dividend % divisor + base) := by
  have whole := div_add_mod dividend divisor
  rcases eq_or_lt_of_le least with same | more
  · left
    rw [← same] at total
    have none : borrow = 0 := eq_zero_of_mul_lt base (by omega)
    rw [none] at total
    exact ⟨none, same.symm, by omega⟩
  · right
    have one : qhat = dividend / divisor + 1 := by omega
    rw [one, mul_add] at total
    have rest := mod_lt dividend positive
    have once : borrow = 1 := by
      have small : base * borrow < base * 2 := by omega
      have bound := lt_of_mul_lt_mul_left small
      have some : borrow ≠ 0 := by
        rintro rfl
        omega
      omega
    rw [once] at total
    exact ⟨by omega, one, by omega⟩

theorem add_back {base low sums carry top divisor rest scale : Nat} (digits : sums < scale) (small : rest < scale)
    (sum : sums + scale * carry = low + divisor)
    (total : low + scale * top + divisor = rest + scale * base) : sums = rest ∧ top + carry = base := by
  have joined : sums + scale * (top + carry) = rest + scale * base := by
    rw [mul_add]
    omega
  have lowest : sums = rest := by
    have same := congrArg (· % scale) joined
    simp only [add_mul_mod_self_left] at same
    rwa [mod_eq_of_lt digits, mod_eq_of_lt small] at same
  refine ⟨lowest, Nat.eq_of_mul_eq_mul_left (zero_lt_of_lt small) ?_⟩
  omega

theorem length_part {digits : List (Digit build)} {start count : Nat} (inside : start + count ≤ digits.length) :
    ((digits.drop start).take count).length = count := by
  rw [length_take, length_drop]
  omega

theorem absoluteInplaceSub_spec {digits subtrahend : List (Digit build)} (start : Nat)
    (inside : start + subtrahend.length ≤ digits.length) :
    ∃ differences, differences.length = subtrahend.length ∧ (absoluteInplaceSub build digits subtrahend start).1 =
        digits.take start ++ differences ++ digits.drop (start + subtrahend.length) ∧
      value differences + value subtrahend = value ((digits.drop start).take subtrahend.length) +
        (2^build.digitBits)^subtrahend.length * (absoluteInplaceSub build digits subtrahend start).2.toNat := by
  have roomy := room build
  have size := length_part inside
  obtain ⟨length_eq, total⟩ := subPairs_spec (by omega) size 0
  rw [size] at total
  exact ⟨_, length_eq.trans size, rfl, total⟩

theorem absoluteInplaceAdd_spec {digits summand : List (Digit build)} (start : Nat)
    (inside : start + summand.length ≤ digits.length) :
    ∃ sums, sums.length = summand.length ∧ (absoluteInplaceAdd build digits summand start).1 =
        digits.take start ++ sums ++ digits.drop (start + summand.length) ∧
      value sums + (2^build.digitBits)^summand.length * (absoluteInplaceAdd build digits summand start).2.toNat =
        value ((digits.drop start).take summand.length) + value summand := by
  have roomy := room build
  have size := length_part inside
  obtain ⟨length_eq, total⟩ := addPairs_spec (by omega) size 0
  rw [size] at total
  exact ⟨_, length_eq.trans size, rfl, total⟩

theorem addBack_spec (front back : List (Digit build)) {low : List (Digit build)} (top : Digit build)
    (size : low.length = divisor.length) :
    let after := absoluteInplaceAdd build (front ++ (low ++ [top]) ++ back) divisor front.length
    ∃ sums, sums.length = divisor.length ∧
      value sums + (2^build.digitBits)^divisor.length * after.2.toNat = value low + value divisor ∧
      after.1.set (front.length + divisor.length) (after.1.getD (front.length + divisor.length) 0 + after.2) =
        front ++ (sums ++ [top + after.2]) ++ back := by
  have inside : front.length + divisor.length ≤ (front ++ (low ++ [top]) ++ back).length := by
    rw [length_append, length_append, length_append]
    omega
  obtain ⟨sums, sums_size, digits, sum⟩ := absoluteInplaceAdd_spec front.length inside
  have kept : (front ++ (low ++ [top]) ++ back).take front.length = front := by
    rw [append_assoc, take_left]
  have lowest : ((front ++ (low ++ [top]) ++ back).drop front.length).take divisor.length = low := by
    rw [append_assoc, drop_left, append_assoc, take_left' size]
  have highest : (front ++ (low ++ [top]) ++ back).drop (front.length + divisor.length) = top :: back := by
    rw [← drop_drop, append_assoc, drop_left, append_assoc, drop_left' size, singleton_append]
  rw [kept, highest] at digits
  rw [lowest] at sum
  generalize absoluteInplaceAdd build (front ++ (low ++ [top]) ++ back) divisor front.length = after at *
  have place : (front ++ sums).length = front.length + divisor.length := by
    rw [length_append, sums_size]
  have digit : after.1.getD (front.length + divisor.length) 0 = top := by
    rw [getD_eq_getElem?_getD, digits, getElem?_append_right (by omega), place, Nat.sub_self,
      getElem?_cons_zero, getD_some]
  refine ⟨sums, sums_size, sum, ?_⟩
  rw [digit, digits, set_append_right _ _ (by omega), place]
  simp

variable (two : 2 ≤ divisor.length) (normal : 2^build.digitBits ≤ 2 * (divisor.getD (divisor.length - 1) 0).toNat)
include two normal

theorem divisionRound_spec (inside : j + divisor.length < u.length)
    (less : value (window divisor u j) < 2^build.digitBits * value divisor) :
    (divisionRound build divisor u j).1.toNat = value (window divisor u j) / value divisor ∧
      ∃ rest : List (Digit build), rest.length = divisor.length + 1 ∧
        value rest = value (window divisor u j) % value divisor ∧
        (divisionRound build divisor u j).2 = u.take j ++ rest ++ u.drop (j + (divisor.length + 1)) := by
  have positive : 0 < value divisor := Nat.pos_of_mul_pos_left (zero_lt_of_lt less)
  obtain ⟨least, most⟩ := estimate_spec two normal inside less
  have short : value divisor < (2^build.digitBits)^(divisor.length + 1) := by
    exact lt_of_lt_of_le (value_lt divisor) (Nat.le_mul_of_pos_right _ (by omega))
  simp only [divisionRound]
  generalize estimate build divisor u j = qhat at *
  obtain ⟨product_size, product⟩ := internalMultiplyAdd_spec qhat 0 (le_refl divisor.length)
    (le_succ divisor.length) (by
      rw [take_length]
      exact mul_lt_mul'' (value_lt divisor) qhat.isLt)
  rw [take_length] at product
  generalize internalMultiplyAdd build divisor qhat 0 divisor.length (divisor.length + 1) = qhatv at *
  obtain ⟨differences, size, after, difference⟩ := absoluteInplaceSub_spec j
    (show j + qhatv.length ≤ u.length by omega)
  rw [product_size] at size after difference
  rw [product] at difference
  generalize absoluteInplaceSub build u qhatv j = result at *
  have digits := value_lt differences
  rw [size] at digits
  rcases borrow_cases positive digits short least most difference with ⟨none, exact, rest⟩ | ⟨some, exact, rest⟩
  · rw [if_neg (not_not.mpr (BitVec.eq_of_toNat_eq none))]
    exact ⟨exact, differences, size, rest, after⟩
  · rw [if_pos (fun zero => some (congrArg BitVec.toNat zero))]
    rcases eq_nil_or_concat' differences with rfl | ⟨low, top, rfl⟩
    · cases size
    have low_size : low.length = divisor.length := by
      rw [length_append, length_singleton] at size
      omega
    have front : (u.take j).length = j := length_take_of_le (by omega)
    obtain ⟨sums, sums_size, sum, changed⟩ := addBack_spec (u.take j) (u.drop (j + (divisor.length + 1))) top low_size
    rw [← after, front] at sum changed
    generalize absoluteInplaceAdd build result.1 divisor j = back at *
    rw [value_append, value_singleton, low_size] at rest
    have below := value_lt sums
    rw [sums_size] at below
    obtain ⟨equal, carried⟩ := add_back below
      (lt_trans (mod_lt (value (window divisor u j)) positive) (value_lt divisor)) sum rest
    refine ⟨?_, sums ++ [top + back.2], ?_, ?_, changed⟩
    · rw [toNat_sub_one (by omega) (exact ▸ succ_pos _), exact, Nat.add_sub_cancel]
    · rw [length_append, sums_size, length_singleton]
    · rw [value_append, value_singleton, equal, BitVec.toNat_add, carried, mod_self, mul_zero, add_zero]

theorem divisionRounds_spec
    (inside : j + divisor.length ≤ u.length) (above : value (u.drop j) < value divisor) (q : List (Digit build)) :
    ∃ quotient, (divisionRounds build divisor j u q).1 = quotient ++ q ∧ quotient.length = j ∧
      (divisionRounds build divisor j u q).2.length = u.length ∧
      value (divisionRounds build divisor j u q).2 < value divisor ∧
      value u = value quotient * value divisor + value (divisionRounds build divisor j u q).2 := by
  induction j generalizing u q with
  | zero => exact ⟨[], rfl, rfl, rfl, above, by simp [divisionRounds]⟩
  | succ j ih =>
    have head : value (u.drop j) = (u.getD j 0).toNat + 2^build.digitBits * value (u.drop (j + 1)) := by
      rw [drop_getD (by omega), value_cons]
    have fits : value (u.drop j) < 2^build.digitBits * value divisor := by
      have step : 2^build.digitBits * (value (u.drop (j + 1)) + 1) ≤ 2^build.digitBits * value divisor :=
        mul_le_mul_left _ above
      rw [mul_add] at step
      omega
    have split := value_take_add_drop (u.drop j) (divisor.length + 1)
    rw [← window, drop_drop] at split
    -- nothing is above the window
    have zero : value (u.drop (j + (divisor.length + 1))) = 0 := by
      by_contra some
      have wide : (2^build.digitBits)^(divisor.length + 1) ≤
          (2^build.digitBits)^(divisor.length + 1) * value (u.drop (j + (divisor.length + 1))) :=
        Nat.le_mul_of_pos_right _ (by omega)
      have short : 2^build.digitBits * value divisor < (2^build.digitBits)^(divisor.length + 1) := by
        rw [Nat.pow_succ']
        exact mul_lt_mul_of_pos_left (value_lt divisor) (Nat.two_pow_pos _)
      omega
    rw [zero, mul_zero, add_zero] at split
    obtain ⟨digit, rest, rest_size, rest_value, after⟩ := divisionRound_spec two normal
      (show j + divisor.length < u.length by omega) (split ▸ fits)
    rw [← split] at digit rest_value
    simp only [divisionRounds]
    generalize divisionRound build divisor u j = round at *
    have front : (u.take j).length = j := length_take_of_le (by omega)
    have length_eq : round.2.length = u.length := by
      rw [after, length_append, length_append, length_drop]
      omega
    have lower : value (round.2.drop j) = value (u.drop j) % value divisor := by
      rw [after, append_assoc, drop_left' front, value_append, zero, mul_zero, add_zero, rest_value]
    have kept : round.2.take j = u.take j := by
      rw [after, append_assoc, take_left' front]
    have positive : 0 < value divisor := by omega
    obtain ⟨quotient, digits, quotient_size, final_size, less, whole⟩ := ih (u := round.2)
      (by omega) (lower ▸ mod_lt _ positive) (round.1 :: q)
    refine ⟨quotient ++ [round.1], ?_, ?_, final_size.trans length_eq, less, ?_⟩
    · rw [digits, append_assoc, singleton_append]
    · rw [length_append, length_singleton, quotient_size]
    · have before := value_take_add_drop u j
      have behind := value_take_add_drop round.2 j
      have division := div_add_mod (value (u.drop j)) (value divisor)
      rw [kept, lower] at behind
      rw [value_append, value_singleton, quotient_size, digit]
      calc value u = value (u.take j) + (2^build.digitBits)^j * (value divisor * (value (u.drop j) / value divisor) +
            value (u.drop j) % value divisor) := by rw [division, before]
        _ = (2^build.digitBits)^j * (value (u.drop j) / value divisor) * value divisor + value round.2 := by
            rw [behind]
            ring
        _ = _ := by
            rw [whole]
            ring

end Odyssey.BigInt
