import Mathlib.Data.Rat.Floor
import Mathlib.Tactic.LinearCombination
import Odyssey.Media.MediaTimeOrder

namespace Odyssey.Media

open Int

inductive RoundingFlags where
  | HalfAwayFromZero
  | TowardZero
  | AwayFromZero
  | TowardPositiveInfinity
  | TowardNegativeInfinity

namespace MediaTime

def MaximumTimeScale : UInt32 := 1000000000

def positiveInfiniteTime : MediaTime := ⟨0, 1, PositiveInfinite ||| Valid⟩
def negativeInfiniteTime : MediaTime := ⟨-1, 1, NegativeInfinite ||| Valid⟩

def safeAdd (lhs rhs : Int64) : Option Int64 :=
  let sum := lhs.toInt + rhs.toInt
  if -2^63 ≤ sum ∧ sum < 2^63 then some (Int64.ofInt sum) else none

/-- The new value and the remainder, or the infinity that the time becomes. The product has 128 bits. -/
def rescale128 (time : MediaTime) (timeScale : UInt32) : Except MediaTime (Int × Int) :=
  let product := time.value * timeScale.toNat
  let remainder := product.tmod time.scale
  let newValue := product.tdiv time.scale
  if newValue < -2^63 then .error negativeInfiniteTime
  else if newValue > 2^63 - 1 then .error positiveInfiniteTime
  else .ok (newValue, remainder)

/-- A checked operation that fails leaves the value of before. -/
def rescale64 (time : MediaTime) (timeScale : UInt32) : Except MediaTime (Int × Int) :=
  let infinite (newValue : Int64) := if newValue < 0 then negativeInfiniteTime else positiveInfiniteTime
  let newValue := time.timeValue / time.scale64
  let partialRemainder := time.timeValue % time.scale64 * Int64.ofNat timeScale.toNat
  let remainder := partialRemainder % time.scale64
  match safeMultiply newValue (Int64.ofNat timeScale.toNat) with
  | none => .error (infinite newValue)
  | some newValue =>
    match safeAdd newValue (partialRemainder / time.scale64) with
    | none => .error (infinite newValue)
    | some newValue => .ok (newValue.toInt, remainder.toInt)

def roundValue (timeValue remainder oldScale : Int) : RoundingFlags → Int
  | .HalfAwayFromZero =>
    if |remainder| * 2 ≥ oldScale then if remainder < 0 then timeValue - 1 else timeValue + 1
    else timeValue
  | .TowardZero => timeValue
  | .AwayFromZero => if remainder < 0 then timeValue - 1 else timeValue + 1
  | .TowardPositiveInfinity => if remainder > 0 then timeValue + 1 else timeValue
  | .TowardNegativeInfinity => if remainder < 0 then timeValue - 1 else timeValue

/-- The rounded value is stored in 64 bits without a check. -/
def setTimeScale (rescale : MediaTime → UInt32 → Except MediaTime (Int × Int))
    (createWithDouble : Float → UInt32 → MediaTime) (timeScale : UInt32) (flags : RoundingFlags)
    (time : MediaTime) : MediaTime :=
  if time.hasDoubleValue then createWithDouble time.timeValueAsDouble timeScale
  else if timeScale = 0 then if time.timeValue < 0 then negativeInfiniteTime else positiveInfiniteTime
  else if timeScale = time.timeScale then time
  else
    let timeScale := min MaximumTimeScale timeScale
    match rescale time timeScale with
    | .error infinite => infinite
    | .ok (newValue, remainder) =>
      if remainder = 0 then ⟨Int64.ofInt newValue, timeScale, time.timeFlags⟩
      else ⟨Int64.ofInt (roundValue newValue remainder time.scale flags), timeScale,
        time.timeFlags ||| HasBeenRounded⟩

end MediaTime

def RoundingFlags.round (q : ℚ) : RoundingFlags → ℤ
  | .HalfAwayFromZero => if 0 ≤ q then ⌊q + 1 / 2⌋ else ⌈q - 1 / 2⌉
  | .TowardZero => if 0 ≤ q then ⌊q⌋ else ⌈q⌉
  | .AwayFromZero => if 0 ≤ q then ⌈q⌉ else ⌊q⌋
  | .TowardPositiveInfinity => ⌈q⌉
  | .TowardNegativeInfinity => ⌊q⌋

section Quotient

variable {n d s v z : ℤ}

theorem tdiv_parts (positive : 0 < d) (natural : 0 ≤ s) :
    (v * s).tdiv d = v.tdiv d * s + (v.tmod d * s).tdiv d ∧ (v * s).tmod d = (v.tmod d * s).tmod d ∧
      (0 ≤ v.tdiv d ∧ 0 ≤ v.tdiv d * s ∧ 0 ≤ (v.tmod d * s).tdiv d ∨
        v.tdiv d ≤ 0 ∧ v.tdiv d * s ≤ 0 ∧ (v.tmod d * s).tdiv d ≤ 0) := by
  have whole := mul_tdiv_add_tmod v d
  have part := mul_tdiv_add_tmod (v.tmod d * s) d
  have same : (v.tmod d * s).tmod d + d * (v.tdiv d * s + (v.tmod d * s).tdiv d) = v * s := by
    linear_combination part + s * whole
  rw [← and_assoc]
  rcases le_total 0 v with sign | sign
  · have remains : 0 ≤ v.tmod d * s := mul_nonneg (tmod_nonneg d sign) natural
    have upper := tmod_lt_of_pos (v.tmod d * s) positive
    have nonneg := Int.tdiv_nonneg sign positive.le
    exact ⟨(Int.tdiv_tmod_unique (mul_nonneg sign natural) positive.ne').mpr ⟨same, tmod_nonneg d remains, by omega⟩,
      .inl ⟨nonneg, mul_nonneg nonneg natural, Int.tdiv_nonneg remains positive.le⟩⟩
  · have remains : v.tmod d * s ≤ 0 := mul_nonpos_of_nonpos_of_nonneg (tmod_nonpos d sign) natural
    have lower := lt_tmod_of_pos (v.tmod d * s) positive
    have nonpos := tdiv_nonpos sign positive.le
    exact ⟨(Int.tdiv_tmod_unique' (mul_nonpos_of_nonpos_of_nonneg sign natural) positive.ne').mpr
      ⟨same, by omega, tmod_nonpos d remains⟩,
      .inr ⟨nonpos, mul_nonpos_of_nonpos_of_nonneg nonpos natural, tdiv_nonpos remains positive.le⟩⟩

theorem floor_div (positive : 0 < d) (low : z * d ≤ n) (high : n < (z + 1) * d) : ⌊(n : ℚ) / d⌋ = z := by
  have real : (0 : ℚ) < d := by exact_mod_cast positive
  rw [floor_eq_iff, le_div_iff₀ real, div_lt_iff₀ real]
  exact ⟨by exact_mod_cast low, by exact_mod_cast high⟩

theorem ceil_div (positive : 0 < d) (low : (z - 1) * d < n) (high : n ≤ z * d) : ⌈(n : ℚ) / d⌉ = z := by
  have real : (0 : ℚ) < d := by exact_mod_cast positive
  rw [ceil_eq_iff, lt_div_iff₀ real, div_le_iff₀ real]
  exact ⟨by exact_mod_cast low, by exact_mod_cast high⟩

theorem roundValue_eq (positive : 0 < d) (flags : RoundingFlags) : flags.round ((n : ℚ) / d) =
      if n.tmod d = 0 then n.tdiv d else MediaTime.roundValue (n.tdiv d) (n.tmod d) d flags := by
  have real : (0 : ℚ) < d := by exact_mod_cast positive
  have whole := Int.mul_tdiv_add_tmod n d
  have upper := Int.tmod_lt_of_pos n positive
  have lower := Int.lt_tmod_of_pos n positive
  have shifted : (n : ℚ) / d + 1 / 2 = ((2 * n + d : ℤ) : ℚ) / ((2 * d : ℤ) : ℚ) ∧
      (n : ℚ) / d - 1 / 2 = ((2 * n - d : ℤ) : ℚ) / ((2 * d : ℤ) : ℚ) := by
    push_cast
    constructor <;> field_simp
  have sign : 0 ≤ (n : ℚ) / d ↔ 0 ≤ n := by
    rw [le_div_iff₀ real, zero_mul, Int.cast_nonneg_iff]
  -- the remainder has the sign of the product, so a step away from zero goes with that sign
  rcases lt_or_ge n 0 with negative | nonneg
  · have remains := tmod_nonpos d negative.le
    cases flags <;> simp only [RoundingFlags.round, MediaTime.roundValue, sign, negative.not_ge, if_false,
      shifted.2, abs_of_nonpos remains]
    all_goals split_ifs
    all_goals first
      | exact ceil_div (by omega) (by linarith) (by linarith)
      | exact floor_div (by omega) (by linarith) (by linarith)
      | omega
  · have remains := tmod_nonneg d nonneg
    have divides : n.tmod d = 0 ↔ n.tmod d ≤ 0 := by omega
    cases flags <;> simp only [RoundingFlags.round, MediaTime.roundValue, sign, shifted.1, abs_of_nonneg remains, divides]
    all_goals split_ifs
    all_goals first
      | exact ceil_div (by omega) (by linarith) (by linarith)
      | exact floor_div (by omega) (by linarith) (by linarith)

end Quotient

namespace MediaTime

variable {time : MediaTime} {timeScale : UInt32}

theorem rescale64_eq (positive : 0 < time.scale) (bounded : timeScale.toNat ≤ 10^9) :
    rescale64 time timeScale = rescale128 time timeScale := by
  have natural : (0 : ℤ) ≤ timeScale.toNat := natCast_nonneg _
  have scale_eq : (Int64.ofNat timeScale.toNat).toInt = timeScale.toNat := scale64_toInt ⟨0, timeScale, 0⟩
  have div (x : Int64) : (x / time.scale64).toInt = x.toInt.tdiv time.scale := whole_toInt ⟨x, time.timeScale, 0⟩
  have mod (x : Int64) : (x % time.scale64).toInt = x.toInt.tmod time.scale := by
    rw [Int64.toInt_mod, scale64_toInt]
  have part : (time.timeValue % time.scale64 * Int64.ofNat timeScale.toNat).toInt =
      time.value.tmod time.scale * timeScale.toNat := by
    have low := lt_tmod_of_pos time.value positive
    have high := tmod_lt_of_pos time.value positive
    have scale := time.scale_bounds
    rw [Int64.toInt_mul, mod, scale_eq]
    have inside : InRange (time.value.tmod time.scale * timeScale.toNat) := ⟨by nlinarith, by nlinarith⟩
    exact bmod_eq_of_le inside.1 (lt_of_lt_of_le inside.2 (by decide))
  have least := (time.timeValue % time.scale64 * Int64.ofNat timeScale.toNat / time.scale64).le_toInt
  rw [div, part] at least
  obtain ⟨quotient, remainder, sign⟩ := tdiv_parts positive natural (v := time.value)
  have none : time.value.tdiv time.scale = 0 → time.value.tdiv time.scale * timeScale.toNat = 0 :=
    fun zero => mul_eq_zero_of_left zero _
  have read : time.timeValue.toInt = time.value := rfl
  simp only [rescale64, rescale128, safeMultiply, safeAdd, div, mod, part, read, scale_eq,
    Int64.lt_iff_toInt_lt, Int64.toInt_zero, quotient, remainder]
  generalize time.value.tdiv time.scale * timeScale.toNat = value at *
  generalize (time.value.tmod time.scale * timeScale.toNat).tdiv time.scale = step at *
  by_cases fits : -2^63 ≤ value ∧ value < 2^63
  · simp only [fits, and_self, if_true, Int64.toInt_ofInt_of_le fits.1 fits.2]
    by_cases fits' : -2^63 ≤ value + step ∧ value + step < 2^63
    · simp only [fits', and_self, if_true, Int64.toInt_ofInt_of_le fits'.1 fits'.2]
      rw [if_neg (by omega), if_neg (by omega)]
    · split_ifs <;> first | rfl | omega
  · split_ifs <;> first | rfl | omega

def product (time : MediaTime) (timeScale : UInt32) : ℤ := time.value * (min MaximumTimeScale timeScale).toNat

def quotient (time : MediaTime) (timeScale : UInt32) : ℚ := (time.product timeScale : ℚ) / time.scale

/-- The quotient rounded, or the infinity of its sign where the truncated quotient does not fit. -/
def Rescaled (time : MediaTime) (timeScale : UInt32) (flags : RoundingFlags) (result : MediaTime) : Prop :=
  if InRange (RoundingFlags.TowardZero.round (time.quotient timeScale)) then
    result.value = flags.round (time.quotient timeScale) ∧
      result.timeScale = min MaximumTimeScale timeScale ∧
      result.timeFlags = if (time.quotient timeScale).den = 1 then time.timeFlags &&& ~~~HasBeenRounded
        else time.timeFlags ||| HasBeenRounded
  else
    result = if RoundingFlags.TowardZero.round (time.quotient timeScale) < 0 then negativeInfiniteTime
      else positiveInfiniteTime

theorem min_scale (timeScale : UInt32) : min MaximumTimeScale timeScale =
    if MaximumTimeScale ≤ timeScale then MaximumTimeScale else timeScale := rfl

theorem min_eq_of_le (small : timeScale ≤ MaximumTimeScale) : min MaximumTimeScale timeScale = timeScale := by
  rw [min_scale]
  split_ifs with equal
  · exact UInt32.le_antisymm equal small
  · rfl

theorem ofInt_toInt_iff {x : ℤ} : (Int64.ofInt x).toInt = x ↔ InRange x := by
  constructor
  · intro same
    rw [← same]
    exact ⟨Int64.le_toInt _, Int64.toInt_lt _⟩
  · exact fun fits => Int64.toInt_ofInt_of_le fits.1 fits.2

theorem setTimeScale_exact_iff (time : MediaTime) (timeScale : UInt32) (flags : RoundingFlags)
    (createWithDouble : Float → UInt32 → MediaTime)
    (finite : time.hasDoubleValue = false) (scaled : time.timeScale ≠ 0) (nonzero : timeScale ≠ 0) :
    setTimeScale rescale64 createWithDouble timeScale flags time =
        setTimeScale rescale128 createWithDouble timeScale flags time ∧
      (Rescaled time timeScale flags (setTimeScale rescale128 createWithDouble timeScale flags time) ↔
        ¬ (timeScale = time.timeScale ∧ MaximumTimeScale < timeScale) ∧
          (InRange (RoundingFlags.TowardZero.round (time.quotient timeScale)) →
            InRange (flags.round (time.quotient timeScale)) ∧
              ((time.quotient timeScale).den = 1 → time.timeFlags = time.timeFlags &&& ~~~HasBeenRounded))) := by
  have positive : 0 < time.scale := by
    have := UInt32.toNat_inj.not.mpr scaled
    unfold scale
    simp only [UInt32.toNat_zero] at this
    omega
  have rounded (flags : RoundingFlags) := roundValue_eq positive flags (n := time.product timeScale)
  rw [← quotient.eq_def] at rounded
  have truncated := rounded .TowardZero
  rw [roundValue, ite_self] at truncated
  have whole : (time.quotient timeScale).den = 1 ↔ (time.product timeScale).tmod time.scale = 0 := by
    rw [quotient, Rat.den_div_intCast_eq_one_iff _ _ positive.ne', dvd_iff_tmod_eq_zero]
  have bounded : (min MaximumTimeScale timeScale).toNat ≤ 10^9 := by
    rw [min_scale]
    split_ifs with large
    · exact le_rfl
    · exact (Nat.lt_of_not_le large).le
  simp only [Rescaled, truncated, whole, rounded, setTimeScale, finite, nonzero, if_false,
    Bool.false_eq_true, rescale64_eq positive bounded, true_and]
  obtain rfl | other := eq_or_ne timeScale time.timeScale
  · rw [if_pos rfl]
    by_cases large : MaximumTimeScale < time.timeScale
    · refine iff_of_false (fun rescaled => ?_) (fun holds => holds.1 ⟨rfl, large⟩)
      rw [min_scale, if_pos (UInt32.le_of_lt large)] at rescaled
      split at rescaled
      · exact UInt32.ne_of_lt large rescaled.2.1.symm
      split at rescaled
      all_goals
        rw [rescaled] at large
        exact absurd large (by decide)
    · have small := min_eq_of_le (UInt32.not_lt.mp large)
      have fits : InRange time.value := ⟨Int64.le_toInt _, Int64.toInt_lt _⟩
      have product : time.product time.timeScale = time.value * time.scale := by
        rw [product, small]
        rfl
      simp only [small, product, mul_tmod_left, mul_tdiv_cancel _ positive.ne', large, fits, and_false,
        not_false_eq_true, if_true, forall_const]
  · rw [if_neg other]
    simp only [other, false_and, not_false_eq_true, true_and, rescale128, ← product.eq_def]
    generalize (time.product timeScale).tdiv time.scale = newValue at *
    generalize (time.product timeScale).tmod time.scale = remainder at *
    by_cases low : newValue < -2^63
    · rw [if_pos low, if_neg fun fits => absurd fits.1 (by omega), if_pos (by omega)]
      exact iff_of_true rfl fun fits => absurd fits.1 (by omega)
    by_cases high : newValue > 2^63 - 1
    · rw [if_neg low, if_pos high, if_neg fun fits => absurd fits.2 (by omega), if_neg (by omega)]
      exact iff_of_true rfl fun fits => absurd fits.2 (by omega)
    have fits : InRange newValue := ⟨by omega, by omega⟩
    rw [if_neg low, if_neg high, if_pos fits]
    by_cases divides : remainder = 0
    · simp only [divides, if_true, value, ofInt_toInt_iff, fits, true_and, forall_const]
    · simp only [divides, if_false, value, ofInt_toInt_iff, and_true, fits, forall_const, false_implies]

theorem half_to_thirds : Rescaled ⟨1, 2, Valid⟩ 3 .HalfAwayFromZero ⟨2, 3, Valid ||| HasBeenRounded⟩ := by
  have rescaled := (setTimeScale_exact_iff ⟨1, 2, Valid⟩ 3 .HalfAwayFromZero (fun _ _ => positiveInfiniteTime)
    (by decide) (by decide) (by decide)).2
  have rounded : RoundingFlags.HalfAwayFromZero.round (quotient ⟨1, 2, Valid⟩ 3) = 2 := by decide +kernel
  exact rescaled.mpr ⟨by decide, fun _ => ⟨rounded ▸ by decide, fun _ => by decide⟩⟩

theorem rounding_wraps : ¬ Rescaled ⟨6148914691236517205, 2, Valid⟩ 3 .HalfAwayFromZero
      (setTimeScale rescale128 (fun _ _ => positiveInfiniteTime) 3 .HalfAwayFromZero
        ⟨6148914691236517205, 2, Valid⟩) := by
  intro rescaled
  rw [Rescaled, if_pos (by decide +kernel)] at rescaled
  exact absurd rescaled.1 (by decide +kernel)

end MediaTime

end Odyssey.Media
