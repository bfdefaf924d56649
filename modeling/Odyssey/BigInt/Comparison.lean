import Odyssey.BigInt.CanonicalForm

namespace Odyssey.BigInt

open Arithmetic

inductive ComparisonMode where
  | LessThan
  | LessThanOrEqual
  deriving DecidableEq

def bigIntCompareResult (comparisonResult : ComparisonResult) (comparisonMode : ComparisonMode) : Bool :=
  if comparisonMode = .LessThan then comparisonResult == .LessThan
  else comparisonResult == .LessThan || comparisonResult == .Equal

namespace JSBigInt

variable {build : Build} {x y : JSBigInt build}

theorem Canonical.value_pos (hx : x.Canonical) (negative : x.sign = true) : 0 < value x.digits :=
  hx.trimmed.value_pos (hx.filled negative)

/-- The sign and the digits of a canonical number order it as the integers are ordered. -/
theorem compare_eq (hx : x.Canonical) (hy : y.Canonical) : compare x y =
    if x.toInt < y.toInt then .LessThan else if x.toInt = y.toInt then .Equal else .GreaterThan := by
  have left := hx.value_pos
  have right := hy.value_pos
  rw [compare, absoluteCompare_eq hx hy, comparisonOf, toInt, toInt]
  generalize x.sign = negativeX, value x.digits = m at left ⊢
  generalize y.sign = negativeY, value y.digits = n at right ⊢
  cases negativeX <;> cases negativeY <;> grind

/-- The operators of the language order all numbers that programs can make. -/
theorem bigIntCompare_produced {isSpaceSeparator : UChar → Bool} (hx : Produced isSpaceSeparator (FillsDigits build) x)
    (hy : Produced isSpaceSeparator (FillsDigits build) y) :
    bigIntCompareResult (compare x y) .LessThan = decide (x.toInt < y.toInt) ∧
      bigIntCompareResult (compare x y) .LessThanOrEqual = decide (x.toInt ≤ y.toInt) := by
  rw [compare_eq hx.canonical hy.canonical]
  rcases lt_trichotomy x.toInt y.toInt with less | same | more
  · simp [bigIntCompareResult, less, less.le]
  · simp [bigIntCompareResult, same]
  · simp [bigIntCompareResult, more.not_gt, more.ne', more.not_ge]

theorem bigIntCompare_ones : let one : JSBigInt ⟨false, false⟩ := createFromInt32 (fun _ => 0) 1
    let large : JSBigInt ⟨false, false⟩ := createFromInt64 (fun _ => 0) (2^32)
    bigIntCompareResult (compare one large) .LessThan = decide (one.toInt < large.toInt) :=
  (@bigIntCompare_produced _ _ _ (fun _ => false) (.int32 _ 1) (.int64 _ (2^32) (by decide))).1

end JSBigInt

end Odyssey.BigInt
