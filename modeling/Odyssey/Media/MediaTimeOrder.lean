import Mathlib.Data.Prod.Lex
import Mathlib.Tactic.Linarith
import Mathlib.Tactic.Ring
import Odyssey.Media.MediaTime

namespace Odyssey.Media

def ComparisonFlags.of {α : Type*} [LinearOrder α] (x y : α) : ComparisonFlags :=
  if x < y then .LessThan else if x = y then .EqualTo else .GreaterThan

open ComparisonFlags Int

theorem of_eq_iff {α β : Type*} [LinearOrder α] [LinearOrder β] {x y : α} {x' y' : β} :
    of x y = of x' y' ↔ (x < y ↔ x' < y') ∧ (x = y ↔ x' = y') := by
  unfold of
  by_cases less : x < y
  · by_cases less' : x' < y'
    · simp [less', less.ne, less'.ne]
    · by_cases equal : x' = y' <;> simp [less, less', equal]
  · by_cases less' : x' < y'
    · by_cases equal : x = y <;> simp [less, less', equal]
    · by_cases equal : x = y <;> by_cases equal' : x' = y' <;> simp [less, less', equal']

theorem of_div {v w : Int} {s t : Nat} (positive : 0 < s) (positive' : 0 < t) :
    of ((v : ℚ) / s) ((w : ℚ) / t) = of (v * t) (w * s) := by
  have ps : (0 : ℚ) < s := by exact_mod_cast positive
  have pt : (0 : ℚ) < t := by exact_mod_cast positive'
  rw [of_eq_iff, div_lt_div_iff₀ ps pt, div_eq_div_iff ps.ne' pt.ne']
  constructor <;> exact_mod_cast Iff.rfl

section Shortcuts

variable {v w s t : Int}

theorem of_less {α : Type*} [LinearOrder α] {x y : α} (less : x < y) : of x y = .LessThan := if_pos less

theorem of_greater {α : Type*} [LinearOrder α] {x y : α} (greater : y < x) : of x y = .GreaterThan := by
  rw [of, if_neg greater.asymm, if_neg greater.ne']

theorem of_ite {α : Type*} [LinearOrder α] (x y : α) :
    (if x = y then EqualTo else if x < y then LessThan else GreaterThan) = of x y ∧
      (if x = y then EqualTo else if y < x then GreaterThan else LessThan) = of x y := by
  rcases lt_trichotomy x y with less | equal | greater
  · rw [of_less less, if_neg less.ne, if_pos less, if_neg less.ne, if_neg less.asymm]
    exact ⟨rfl, rfl⟩
  · rw [if_pos equal, if_pos equal, of, if_neg equal.not_lt, if_pos equal]
    exact ⟨rfl, rfl⟩
  · rw [of_greater greater, if_neg greater.ne', if_neg greater.asymm, if_neg greater.ne', if_pos greater]
    exact ⟨rfl, rfl⟩

def ComparisonFlags.swap : ComparisonFlags → ComparisonFlags
  | .LessThan => .GreaterThan
  | .EqualTo => .EqualTo
  | .GreaterThan => .LessThan

theorem of_swap {α : Type*} [LinearOrder α] (x y : α) : of y x = (of x y).swap := by
  rcases lt_trichotomy x y with less | rfl | greater
  · rw [of_less less, of_greater less]
    rfl
  · rw [of, if_neg (lt_irrefl _), if_pos rfl]
    rfl
  · rw [of_less greater, of_greater greater]
    rfl

theorem of_ne_greater {α : Type*} [LinearOrder α] {x y : α} : of x y ≠ .GreaterThan ↔ x ≤ y := by
  rcases lt_trichotomy x y with less | rfl | greater
  · rw [of_less less]
    exact iff_of_true nofun less.le
  · rw [of, if_neg (lt_irrefl _), if_pos rfl]
    exact iff_of_true nofun le_rfl
  · rw [of_greater greater]
    exact iff_of_false (fun wrong => wrong rfl) greater.not_ge

theorem of_same_scale (positive : 0 < s) : of v w = of (v * s) (w * s) := by
  rw [of_eq_iff, mul_lt_mul_iff_left₀ positive, mul_left_inj' positive.ne']
  exact ⟨Iff.rfl, Iff.rfl⟩

theorem less_of_signs (ps : 0 < s) (pt : 0 < t) (negative : v < 0) (other : 0 ≤ w) : v * t < w * s := by
  have left := mul_neg_of_neg_of_pos negative pt
  have right := mul_nonneg other ps.le
  omega

theorem less_of_value_scale (pt : 0 < t) (less : v < w) (larger : t ≤ s) (positive : 0 ≤ w) : v * t < w * s :=
  calc v * t < w * t := mul_lt_mul_of_pos_right less pt
    _ ≤ w * s := mul_le_mul_of_nonneg_left larger positive

theorem less_of_negative_value_scale (ps : 0 < s) (less : v < w) (smaller : s ≤ t) (negative : v ≤ 0) : v * t < w * s :=
  calc v * t ≤ v * s := mul_le_mul_of_nonpos_left smaller negative
    _ < w * s := mul_lt_mul_of_pos_right less ps

theorem tmod_nonpos (s : Int) (negative : v ≤ 0) : v.tmod s ≤ 0 := by
  have opposite := tmod_nonneg s (neg_nonneg.mpr negative)
  rw [neg_tmod] at opposite
  omega

theorem tdiv_nonpos (negative : v ≤ 0) (positive : 0 ≤ s) : v.tdiv s ≤ 0 := by
  have opposite := Int.tdiv_nonneg (neg_nonneg.mpr negative) positive
  rw [Int.neg_tdiv] at opposite
  omega

theorem less_of_natural_whole (ps : 0 < s) (pt : 0 < t) (natural : 0 ≤ w) (less : v.tdiv s < w.tdiv t) :
    v * t < w * s := by
  have low : v < s * (v.tdiv s + 1) := by
    have whole := mul_tdiv_add_tmod v s
    have bound := tmod_lt_of_pos v ps
    linarith
  have high : t * w.tdiv t ≤ w := by
    have whole := mul_tdiv_add_tmod w t
    have bound := tmod_nonneg t natural
    linarith
  calc v * t < s * (v.tdiv s + 1) * t := mul_lt_mul_of_pos_right low pt
    _ ≤ s * w.tdiv t * t := mul_le_mul_of_nonneg_right (mul_le_mul_of_nonneg_left less ps.le) pt.le
    _ = t * w.tdiv t * s := by ring
    _ ≤ w * s := mul_le_mul_of_nonneg_right high ps.le

theorem less_of_whole (ps : 0 < s) (pt : 0 < t) (sign : (0 ≤ v ∧ 0 ≤ w) ∨ (v < 0 ∧ w < 0))
    (less : v.tdiv s < w.tdiv t) : v * t < w * s := by
  rcases sign with natural | negative
  · exact less_of_natural_whole ps pt natural.2 less
  · have opposite := less_of_natural_whole (v := -w) (w := -v) pt ps (by omega)
      (by rw [Int.neg_tdiv, Int.neg_tdiv]; omega)
    linarith

end Shortcuts

section Parts

variable {v w s t : Int}

theorem of_remainders (same : v.tdiv s = w.tdiv t) : of (v * t) (w * s) = of (v.tmod s * t) (w.tmod t * s) := by
  have left := mul_tdiv_add_tmod v s
  have right := mul_tdiv_add_tmod w t
  have first : v * t = s * v.tdiv s * t + v.tmod s * t := by
    rw [← add_mul, left]
  have second : w * s = s * v.tdiv s * t + w.tmod t * s := by
    rw [same]
    calc w * s = (t * w.tdiv t + w.tmod t) * s := by rw [right]
      _ = s * w.tdiv t * t + w.tmod t * s := by ring
  rw [of_eq_iff, first, second]
  constructor
  · exact add_lt_add_iff_left _
  · exact add_right_inj _

def InRange (x : Int) : Prop := -2^63 ≤ x ∧ x < 2^63

instance (x : Int) : Decidable (InRange x) := inferInstanceAs (Decidable (_ ∧ _))

theorem bmod_cases {x : Int} (low : -2^64 < x) (high : x < 2^64) :
    x.bmod (2^64) = if x < -2^63 then x + 2^64 else if x < 2^63 then x else x - 2^64 := by
  rw [bmod_def]
  split_ifs <;> omega

theorem of_bmod {x y : Int} (left : -2^64 < x ∧ x < 2^64) (right : -2^64 < y ∧ y < 2^64)
    (sign : (0 ≤ x ∧ 0 ≤ y) ∨ (x ≤ 0 ∧ y ≤ 0)) :
    of (x.bmod (2^64)) (y.bmod (2^64)) = of x y ↔ (InRange x ↔ InRange y) := by
  rw [of_eq_iff, bmod_cases left.1 left.2, bmod_cases right.1 right.2]
  unfold InRange
  split_ifs <;> omega

end Parts

namespace MediaTime

variable (time : MediaTime)

def value : Int := time.timeValue.toInt

def scale : Int := time.timeScale.toNat

def rational : ℚ := (time.timeValue.toInt : ℚ) / time.timeScale.toNat

def SameNegativeValue (lhs rhs : MediaTime) : Prop :=
  lhs.value = rhs.value ∧ lhs.value < 0 ∧ lhs.timeScale ≠ rhs.timeScale

/-- Times of one sign and with the same whole part, where the one with the larger value has the larger scale,
    and one but not the other product of a remainder with a scale leaves the range. -/
def RemainderWraps (lhs rhs : MediaTime) : Prop :=
  (lhs.value < 0 ↔ rhs.value < 0) ∧
    (lhs.value.natAbs < rhs.value.natAbs ∧ lhs.scale < rhs.scale ∨
      rhs.value.natAbs < lhs.value.natAbs ∧ rhs.scale < lhs.scale) ∧
    lhs.value.tdiv lhs.scale = rhs.value.tdiv rhs.scale ∧
    ¬ (InRange (lhs.value.tmod lhs.scale * rhs.scale) ↔ InRange (rhs.value.tmod rhs.scale * lhs.scale))

instance (lhs rhs : MediaTime) : Decidable (SameNegativeValue lhs rhs) := inferInstanceAs (Decidable (_ ∧ _))

instance (lhs rhs : MediaTime) : Decidable (RemainderWraps lhs rhs) := inferInstanceAs (Decidable (_ ∧ _))

theorem scale_bounds : 0 ≤ time.scale ∧ time.scale < 2^32 := by
  have bound := time.timeScale.toNat_lt
  unfold scale
  omega

theorem scale64_toInt : time.scale64.toInt = time.scale := by
  have bound := time.timeScale.toNat_lt
  exact Int64.toInt_ofNat_of_lt (by omega)

theorem of_toInt (a b : Int64) :
    (if a = b then EqualTo else if a < b then LessThan else GreaterThan) = of a.toInt b.toInt ∧
      (if a = b then EqualTo else if a > b then GreaterThan else LessThan) = of a.toInt b.toInt := by
  simp only [Int64.lt_iff_toInt_lt, ← Int64.toInt_inj]
  exact of_ite a.toInt b.toInt

section Compared

variable {lhs rhs : MediaTime}

theorem whole_toInt (time : MediaTime) : (time.timeValue / time.scale64).toInt = time.value.tdiv time.scale := by
  rw [Int64.toInt_div_of_ne_right, scale64_toInt]
  · rfl
  · intro minus
    have same := congrArg Int64.toInt minus
    rw [scale64_toInt] at same
    have bounds := time.scale_bounds
    change time.scale = -1 at same
    omega

section

variable (lhs rhs)

theorem factor_toInt : (lhs.timeValue % lhs.scale64 * rhs.scale64).toInt =
      (lhs.value.tmod lhs.scale * rhs.scale).bmod (2^64) := by
  rw [Int64.toInt_mul, Int64.toInt_mod, scale64_toInt, scale64_toInt]
  rfl

theorem remain_bounds (positive : 0 < lhs.scale) :
    -2^64 < lhs.value.tmod lhs.scale * rhs.scale ∧ lhs.value.tmod lhs.scale * rhs.scale < 2^64 := by
  have low := lt_tmod_of_pos lhs.value positive
  have high := tmod_lt_of_pos lhs.value positive
  have left := lhs.scale_bounds
  have right := rhs.scale_bounds
  constructor <;> nlinarith

theorem remain_sign : (0 ≤ lhs.value → 0 ≤ lhs.value.tmod lhs.scale * rhs.scale) ∧
      (lhs.value ≤ 0 → lhs.value.tmod lhs.scale * rhs.scale ≤ 0) := by
  have right := rhs.scale_bounds.1
  constructor
  · intro positive
    exact mul_nonneg (tmod_nonneg _ positive) right
  · intro negative
    exact mul_nonpos_of_nonpos_of_nonneg (tmod_nonpos _ negative) right

end

theorem compareParts_exact_iff (pl : 0 < lhs.scale) (pr : 0 < rhs.scale) (sign : lhs.value < 0 ↔ rhs.value < 0) :
    compareParts lhs rhs = of (lhs.value * rhs.scale) (rhs.value * lhs.scale) ↔
      (lhs.value.tdiv lhs.scale = rhs.value.tdiv rhs.scale →
        (InRange (lhs.value.tmod lhs.scale * rhs.scale) ↔ InRange (rhs.value.tmod rhs.scale * lhs.scale))) := by
  have signs : (0 ≤ lhs.value ∧ 0 ≤ rhs.value) ∨ (lhs.value < 0 ∧ rhs.value < 0) := by omega
  unfold compareParts
  simp only [(of_toInt _ _).2, factor_toInt]
  simp only [Int64.lt_iff_toInt_lt, whole_toInt]
  rcases lt_trichotomy (lhs.value.tdiv lhs.scale) (rhs.value.tdiv rhs.scale) with less | equal | greater
  · rw [if_neg less.asymm, if_pos less, of_less (less_of_whole pl pr signs less)]
    exact iff_of_true rfl (fun equal => absurd equal less.ne)
  · rw [if_neg equal.not_gt, if_neg equal.not_lt, of_remainders equal]
    have left := remain_sign lhs rhs
    have right := remain_sign rhs lhs
    rw [of_bmod (remain_bounds lhs rhs pl) (remain_bounds rhs lhs pr) (by omega)]
    exact ⟨fun both _ => both, fun both => both equal⟩
  · have swapped : (0 ≤ rhs.value ∧ 0 ≤ lhs.value) ∨ (rhs.value < 0 ∧ lhs.value < 0) := by omega
    rw [if_pos greater, of_greater (less_of_whole pr pl swapped greater)]
    exact iff_of_true rfl (fun equal => absurd equal greater.ne')

theorem compareProducts_eq (lhs rhs : MediaTime) :
    compareProducts lhs rhs = if InRange (lhs.value * rhs.scale) ∧ InRange (rhs.value * lhs.scale)
      then of (lhs.value * rhs.scale) (rhs.value * lhs.scale) else compareParts lhs rhs := by
  have product (one other : MediaTime) : safeMultiply one.timeValue other.scale64 =
      if InRange (one.value * other.scale) then some (Int64.ofInt (one.value * other.scale)) else none := by
    unfold safeMultiply
    rw [scale64_toInt]
    rfl
  unfold compareProducts
  rw [product lhs rhs, product rhs lhs]
  by_cases left : InRange (lhs.value * rhs.scale)
  · by_cases right : InRange (rhs.value * lhs.scale)
    · rw [if_pos left, if_pos right, if_pos ⟨left, right⟩]
      simp only [(of_toInt _ _).1]
      rw [Int64.toInt_ofInt_of_le left.1 left.2, Int64.toInt_ofInt_of_le right.1 right.2]
    · rw [if_pos left, if_neg right, if_neg (fun both => right both.2)]
  · have neither : ¬ (InRange (lhs.value * rhs.scale) ∧ InRange (rhs.value * lhs.scale)) := fun both => left both.1
    rw [if_neg left, if_neg neither]

theorem remain_inRange (positive : 0 < lhs.scale) (fits : InRange (lhs.value * rhs.scale)) :
    InRange (lhs.value.tmod lhs.scale * rhs.scale) := by
  have parts := mul_tdiv_add_tmod lhs.value lhs.scale
  have sign := remain_sign lhs rhs
  have right := rhs.scale_bounds.1
  have product : lhs.value * rhs.scale =
      lhs.scale * lhs.value.tdiv lhs.scale * rhs.scale + lhs.value.tmod lhs.scale * rhs.scale := by
    rw [← add_mul, parts]
  unfold InRange at fits ⊢
  rcases le_total 0 lhs.value with natural | negative
  · have whole : 0 ≤ lhs.scale * lhs.value.tdiv lhs.scale * rhs.scale :=
      mul_nonneg (mul_nonneg positive.le (Int.tdiv_nonneg natural positive.le)) right
    omega
  · have whole : lhs.scale * lhs.value.tdiv lhs.scale * rhs.scale ≤ 0 :=
      mul_nonpos_of_nonpos_of_nonneg (mul_nonpos_of_nonneg_of_nonpos positive.le (tdiv_nonpos negative positive.le)) right
    omega

theorem compareProducts_exact_iff (pl : 0 < lhs.scale) (pr : 0 < rhs.scale) (sign : lhs.value < 0 ↔ rhs.value < 0) :
    compareProducts lhs rhs = of (lhs.value * rhs.scale) (rhs.value * lhs.scale) ↔
      (lhs.value.tdiv lhs.scale = rhs.value.tdiv rhs.scale →
        (InRange (lhs.value.tmod lhs.scale * rhs.scale) ↔ InRange (rhs.value.tmod rhs.scale * lhs.scale))) := by
  rw [compareProducts_eq]
  by_cases fit : InRange (lhs.value * rhs.scale) ∧ InRange (rhs.value * lhs.scale)
  · rw [if_pos fit]
    exact iff_of_true rfl (fun _ => iff_of_true (remain_inRange pl fit.1) (remain_inRange pr fit.2))
  · rw [if_neg fit]
    exact compareParts_exact_iff pl pr sign

theorem sameValue_exact_iff {v s t : Int} (nonzero : v ≠ 0) (unit : s ≠ t) :
    (if s < t then GreaterThan else LessThan) = of (v * t) (v * s) ↔ 0 < v := by
  rcases lt_or_gt_of_ne nonzero with negative | positive
  · refine iff_of_false ?_ negative.asymm
    rcases lt_or_gt_of_ne unit with less | greater
    · rw [if_pos less, of_less (mul_lt_mul_of_neg_left less negative)]
      exact nofun
    · rw [if_neg greater.asymm, of_greater (mul_lt_mul_of_neg_left greater negative)]
      exact nofun
  · refine iff_of_true ?_ positive
    rcases lt_or_gt_of_ne unit with less | greater
    · rw [if_pos less, of_greater (mul_lt_mul_of_pos_left less positive)]
    · rw [if_neg greater.asymm, of_less (mul_lt_mul_of_pos_left greater positive)]

theorem compareValues_exact_iff (pl : 0 < lhs.scale) (pr : 0 < rhs.scale) :
    compareValues lhs rhs = of (lhs.value * rhs.scale) (rhs.value * lhs.scale) ↔
      ¬ SameNegativeValue lhs rhs ∧ ¬ RemainderWraps lhs rhs := by
  have scales : lhs.timeScale = rhs.timeScale ↔ lhs.scale = rhs.scale := by
    unfold scale
    rw [← UInt32.toNat_inj]
    omega
  have smaller (one other : MediaTime) : one.timeScale < other.timeScale ↔ one.scale < other.scale := by
    unfold scale
    rw [UInt32.lt_iff_toNat_lt]
    omega
  have left : lhs.timeValue.toInt = lhs.value := rfl
  have right : rhs.timeValue.toInt = rhs.value := rfl
  unfold compareValues SameNegativeValue RemainderWraps
  simp only [ne_eq, decide_eq_decide, Int64.lt_iff_toInt_lt, Int64.le_iff_toInt_le,
    ← Int64.toInt_inj, Int64.toInt_zero, scales, smaller, left, right]
  by_cases sign : lhs.value < 0 ↔ rhs.value < 0
  swap
  · rw [if_pos sign]
    refine iff_of_true ?_ (by omega)
    by_cases negative : lhs.value < 0
    · rw [if_pos negative, of_less (less_of_signs pl pr negative (by omega))]
    · rw [if_neg negative, of_greater (less_of_signs pr pl (by omega) (by omega))]
  rw [if_neg (not_not.mpr sign)]
  by_cases zero : lhs.value = 0 ∧ rhs.value = 0
  · rw [zero.1, zero.2]
    refine iff_of_true ?_ (by omega)
    rw [zero_mul, zero_mul]
    rfl
  rw [if_neg zero]
  by_cases unit : lhs.scale = rhs.scale
  · rw [if_pos unit, unit, ← of_same_scale pr]
    exact iff_of_true (of_ite _ _).1 (by omega)
  rw [if_neg unit]
  by_cases same : lhs.value = rhs.value
  · rw [if_pos same, same, sameValue_exact_iff (by omega) unit]
    omega
  rw [if_neg same]
  by_cases first : 0 ≤ lhs.value ∧ lhs.value < rhs.value ∧ rhs.scale < lhs.scale
  · rw [if_pos first, of_less (less_of_value_scale pr first.2.1 first.2.2.le (by omega))]
    exact iff_of_true rfl (by omega)
  rw [if_neg first]
  by_cases second : 0 ≤ lhs.value ∧ rhs.value < lhs.value ∧ lhs.scale < rhs.scale
  · rw [if_pos second, of_greater (less_of_value_scale pl second.2.1 second.2.2.le second.1)]
    exact iff_of_true rfl (by omega)
  rw [if_neg second]
  by_cases third : lhs.value < 0 ∧ lhs.value < rhs.value ∧ lhs.scale < rhs.scale
  · rw [if_pos third, of_less (less_of_negative_value_scale pl third.2.1 third.2.2.le third.1.le)]
    exact iff_of_true rfl (by omega)
  rw [if_neg third]
  by_cases fourth : lhs.value < 0 ∧ rhs.value < lhs.value ∧ rhs.scale < lhs.scale
  · rw [if_pos fourth, of_greater (less_of_negative_value_scale pr fourth.2.1 fourth.2.2.le (by omega))]
    exact iff_of_true rfl (by omega)
  rw [if_neg fourth, compareProducts_exact_iff pl pr sign]
  have apart : lhs.value.natAbs < rhs.value.natAbs ∧ lhs.scale < rhs.scale ∨
      rhs.value.natAbs < lhs.value.natAbs ∧ rhs.scale < lhs.scale := by omega
  constructor
  · intro fits
    exact ⟨fun both => same both.1, fun wraps => wraps.2.2.2 (fits wraps.2.2.1)⟩
  · rintro ⟨_, keeps⟩ whole
    by_contra wrong
    exact keeps ⟨sign, apart, whole, wrong⟩

end Compared

inductive Kind where
  | negativeInfinite
  | finite
  | indefinite
  | positiveInfinite
  | invalid
  deriving DecidableEq

def Kind.flags : Kind → UInt8
  | .negativeInfinite => NegativeInfinite ||| Valid
  | .finite => Valid
  | .indefinite => Indefinite ||| Valid
  | .positiveInfinite => PositiveInfinite ||| Valid
  | .invalid => 0

def Kind.rank : Kind → Nat
  | .negativeInfinite => 0
  | .finite => 1
  | .indefinite => 2
  | .positiveInfinite => 3
  | .invalid => 4

structure IsA (kind : Kind) (time : MediaTime) : Prop where
  flags : time.timeFlags = kind.flags ∨ time.timeFlags = kind.flags ||| HasBeenRounded
  scale : kind = .finite → time.timeScale ≠ 0

theorem compareFlags_kinds (left right : Kind) (rounded rounded' : Bool) :
    compareFlags (if rounded then left.flags ||| HasBeenRounded else left.flags)
        (if rounded' then right.flags ||| HasBeenRounded else right.flags) =
      if left = .finite ∧ right = .finite then none else some (of left.rank right.rank) := by
  cases left <;> cases right <;> cases rounded <;> cases rounded' <;> decide

def position (kind : Kind) (time : MediaTime) : ℕ ×ₗ ℚ :=
  toLex (kind.rank, if kind = .finite then time.rational else 0)

def Comparable (lhs rhs : MediaTime) : Prop := ¬ SameNegativeValue lhs rhs ∧ ¬ RemainderWraps lhs rhs

instance (lhs rhs : MediaTime) : Decidable (Comparable lhs rhs) := inferInstanceAs (Decidable (_ ∧ _))

variable {lhs rhs : MediaTime} {left right : Kind}

theorem Comparable.symm (compared : Comparable lhs rhs) : Comparable rhs lhs := by
  rcases compared with ⟨values, wraps⟩
  constructor
  · rintro ⟨same, negative, units⟩
    exact values ⟨same.symm, same ▸ negative, units.symm⟩
  · rintro ⟨sign, apart, whole, one⟩
    exact wraps ⟨sign.symm, apart.symm, whole.symm, fun both => one both.symm⟩

theorem IsA.flags_eq {kind : Kind} {time : MediaTime} (known : IsA kind time) :
    ∃ rounded : Bool, time.timeFlags = if rounded then kind.flags ||| HasBeenRounded else kind.flags := by
  rcases known.flags with plain | rounded
  · exact ⟨false, plain⟩
  · exact ⟨true, rounded⟩

theorem IsA.scale_pos {time : MediaTime} (known : IsA .finite time) : 0 < time.timeScale.toNat := by
  have nonzero := known.scale rfl
  rw [ne_eq, ← UInt32.toNat_inj] at nonzero
  exact pos_of_ne_zero nonzero

theorem compare_finite (left : IsA .finite lhs) (right : IsA .finite rhs) :
    compare lhs rhs = compareValues lhs rhs := by
  rcases left.flags_eq with ⟨rounded, flags⟩
  rcases right.flags_eq with ⟨rounded', flags'⟩
  unfold compare
  rw [flags, flags']
  cases rounded <;> cases rounded' <;> rfl

theorem compare_exact_iff (left : IsA .finite lhs) (right : IsA .finite rhs) :
    compare lhs rhs = of lhs.rational rhs.rational ↔ Comparable lhs rhs := by
  have pl := left.scale_pos
  have pr := right.scale_pos
  have scales : 0 < lhs.scale ∧ 0 < rhs.scale := by
    unfold scale
    omega
  rw [compare_finite left right, rational, rational, of_div pl pr]
  exact compareValues_exact_iff scales.1 scales.2

theorem compare_kinds (known : IsA left lhs) (known' : IsA right rhs)
    (apart : ¬ (left = .finite ∧ right = .finite)) : compare lhs rhs = of left.rank right.rank := by
  rcases known.flags_eq with ⟨rounded, flags⟩
  rcases known'.flags_eq with ⟨rounded', flags'⟩
  unfold compare
  rw [flags, flags', compareFlags_kinds, if_neg apart]

theorem rank_injective (same : left.rank = right.rank) : left = right := by
  revert same
  cases left <;> cases right <;> decide

theorem compare_position (known : IsA left lhs) (known' : IsA right rhs)
    (compared : left = .finite → right = .finite → Comparable lhs rhs) :
    compare lhs rhs = of (position left lhs) (position right rhs) := by
  by_cases finite : left = .finite ∧ right = .finite
  · rcases finite with ⟨rfl, rfl⟩
    rw [(compare_exact_iff known known').mpr (compared rfl rfl), of_eq_iff]
    unfold position
    rw [Prod.Lex.toLex_lt_toLex]
    simp
  · rw [compare_kinds known known' finite, of_eq_iff]
    unfold position
    rw [Prod.Lex.toLex_lt_toLex]
    by_cases same : left.rank = right.rank
    · rcases rank_injective same with rfl
      have neither : left ≠ .finite := fun is => finite ⟨is, is⟩
      simp [neither]
    · simp [same]

/-- Finite times are compared exactly if and only if they are comparable, and the comparison of those is a
    total preorder. -/
theorem compare_total_preorder (lhs rhs : MediaTime) : (IsA .finite lhs → IsA .finite rhs →
      (compare lhs rhs = of lhs.rational rhs.rational ↔ Comparable lhs rhs)) ∧
    (∀ k l, IsA k lhs → IsA l rhs → (k = .finite → l = .finite → Comparable lhs rhs) →
      compare rhs lhs = (compare lhs rhs).swap) ∧
    (∀ k l m third, IsA k lhs → IsA l rhs → IsA m third → (k = .finite → l = .finite → Comparable lhs rhs) →
      (l = .finite → m = .finite → Comparable rhs third) →
      (k = .finite → m = .finite → Comparable lhs third) →
      compare lhs rhs ≠ .GreaterThan → compare rhs third ≠ .GreaterThan → compare lhs third ≠ .GreaterThan) ∧
    (∀ k, IsA .negativeInfinite lhs → IsA k rhs →
      compare lhs rhs = if k = .negativeInfinite then .EqualTo else .LessThan) ∧
    (∀ k, IsA .invalid lhs → IsA k rhs → compare lhs rhs = if k = .invalid then .EqualTo else .GreaterThan) := by
  refine ⟨compare_exact_iff, ?_, ?_, ?_, ?_⟩
  · intro k l left right compared
    rw [compare_position left right compared,
      compare_position right left (fun finite finite' => (compared finite' finite).symm), of_swap]
  · intro k l m third first second last ab bc ac
    rw [compare_position first second ab, compare_position second last bc, compare_position first last ac,
      of_ne_greater, of_ne_greater, of_ne_greater]
    exact le_trans
  all_goals
    intro k left right
    rw [compare_kinds left right nofun]
    cases k <;> decide

theorem compare_half_two_thirds :
    compare ⟨1, 2, Valid⟩ ⟨2, 3, Valid⟩ = of (rational ⟨1, 2, Valid⟩) (rational ⟨2, 3, Valid⟩) :=
  ((compare_total_preorder ⟨1, 2, Valid⟩ ⟨2, 3, Valid⟩).1 ⟨Or.inl rfl, fun _ => by decide⟩
    ⟨Or.inl rfl, fun _ => by decide⟩).mpr (by decide)

theorem compare_wrong : (compare ⟨-1, 1, Valid⟩ ⟨-1, 2, Valid⟩ = .GreaterThan ∧
      rational ⟨-1, 1, Valid⟩ < rational ⟨-1, 2, Valid⟩) ∧
    compare ⟨4294967294, 4294967295, Valid⟩ ⟨2147483648, 4294967294, Valid⟩ = .LessThan ∧
      rational ⟨2147483648, 4294967294, Valid⟩ < rational ⟨4294967294, 4294967295, Valid⟩ := by
  refine ⟨⟨by decide, ?_⟩, by decide, ?_⟩
  · decide +kernel
  · decide +kernel

end MediaTime

end Odyssey.Media
