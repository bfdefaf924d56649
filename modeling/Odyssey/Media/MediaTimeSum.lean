import Odyssey.Media.MediaTimeScale

namespace Odyssey.Media

open Nat

def greatestCommonDivisor (a b : UInt32) : UInt32 :=
  if b = 0 then a else greatestCommonDivisor b (a % b)
termination_by b.toNat
decreasing_by
  rename_i nonzero
  rw [UInt32.toNat_mod]
  exact Nat.mod_lt _ (UInt32.pos_iff_ne_zero.mpr nonzero)

/-- There is none when the checked product overflows. -/
def leastCommonMultiple (a b : UInt32) : Option UInt32 :=
  let product := a.toNat * (b / greatestCommonDivisor a b).toNat
  if product < 2^32 then some (UInt32.ofNat product) else none

namespace MediaTime

def invalidTime : MediaTime := ⟨-1, 1, 0⟩
def indefiniteTime : MediaTime := ⟨0, 1, Indefinite ||| Valid⟩

def safeSub (lhs rhs : Int64) : Option Int64 :=
  let difference := lhs.toInt - rhs.toInt
  if -2^63 ≤ difference ∧ difference < 2^63 then some (Int64.ofInt difference) else none

variable (setTimeScale : UInt32 → MediaTime → MediaTime) (createWithDouble : Float → MediaTime)
  (operation : Int64 → Int64 → Option Int64)

/-- The loop for sums that overflow, which goes on while there is fuel. -/
def combineScaled : Nat → MediaTime → MediaTime → UInt32 → Option MediaTime
  | 0, _, _, _ => none
  | fuel + 1, a, b, commonTimeScale =>
    match operation a.timeValue b.timeValue with
    | some timeValue => some { a with timeValue }
    | none =>
      if commonTimeScale = 1 then
        some (if a.timeValue > 0 then positiveInfiniteTime else negativeInfiniteTime)
      else
        let commonTimeScale := commonTimeScale / 2
        combineScaled fuel (setTimeScale commonTimeScale a) (setTimeScale commonTimeScale b) commonTimeScale

def combine (fuel : Nat) (a b : MediaTime) : Option MediaTime :=
  let commonTimeScale :=
    match leastCommonMultiple a.timeScale b.timeScale with
    | some commonTimeScale => if commonTimeScale > MaximumTimeScale then MaximumTimeScale else commonTimeScale
    | none => MaximumTimeScale
  combineScaled setTimeScale operation fuel (setTimeScale commonTimeScale a) (setTimeScale commonTimeScale b)
    commonTimeScale

/-- Both operators. The infinities are those that the right operand adds. -/
def operate (onDoubles : Float → Float → Float) (addsPositive addsNegative : Bool) (fuel : Nat)
    (lhs rhs : MediaTime) : Option MediaTime :=
  if rhs.isInvalid || lhs.isInvalid then some invalidTime
  else if rhs.isIndefinite || lhs.isIndefinite then some indefiniteTime
  else if lhs.isPositiveInfinite && addsNegative then some invalidTime
  else if lhs.isNegativeInfinite && addsPositive then some invalidTime
  else if lhs.isPositiveInfinite || addsPositive then some positiveInfiniteTime
  else if lhs.isNegativeInfinite || addsNegative then some negativeInfiniteTime
  else if lhs.hasDoubleValue && rhs.hasDoubleValue then
    some (createWithDouble (onDoubles lhs.timeValueAsDouble rhs.timeValueAsDouble))
  else if lhs.hasDoubleValue || rhs.hasDoubleValue then
    some (createWithDouble (onDoubles lhs.toDouble rhs.toDouble))
  else combine setTimeScale operation fuel lhs rhs

def add (fuel : Nat) (lhs rhs : MediaTime) : Option MediaTime :=
  operate setTimeScale createWithDouble safeAdd (· + ·) rhs.isPositiveInfinite rhs.isNegativeInfinite fuel lhs
    rhs

def sub (fuel : Nat) (lhs rhs : MediaTime) : Option MediaTime :=
  operate setTimeScale createWithDouble safeSub (· - ·) rhs.isNegativeInfinite rhs.isPositiveInfinite fuel lhs
    rhs

end MediaTime

theorem greatestCommonDivisor_toNat (a b : UInt32) : (greatestCommonDivisor a b).toNat = a.toNat.gcd b.toNat := by
  induction a, b using greatestCommonDivisor.induct with
  | case1 a => simp [greatestCommonDivisor]
  | case2 a b nonzero ih =>
    rw [greatestCommonDivisor, if_neg nonzero, ih, UInt32.toNat_mod, Nat.gcd_comm a.toNat,
      gcd_rec b.toNat a.toNat, Nat.gcd_comm]

theorem leastCommonMultiple_eq (a b : UInt32) : leastCommonMultiple a b =
      if a.toNat.lcm b.toNat < 2^32 then some (UInt32.ofNat (a.toNat.lcm b.toNat)) else none := by
  have product : a.toNat * (b / greatestCommonDivisor a b).toNat = a.toNat.lcm b.toNat := by
    rw [UInt32.toNat_div, greatestCommonDivisor_toNat, lcm_eq_mul_div, Nat.mul_div_assoc _ (Nat.gcd_dvd_right _ _)]
  rw [leastCommonMultiple, product]

namespace MediaTime

/-- The value at another scale, of which the scale of the time is a divisor. -/
def valueAt (time : MediaTime) (timeScale : Nat) : ℤ := time.value * (timeScale / time.timeScale.toNat : Nat)

def commonScale (a b : MediaTime) : Nat := a.timeScale.toNat.lcm b.timeScale.toNat

def rescaled (hasInt128 : Bool) (createWithDouble : Float → UInt32 → MediaTime) (timeScale : UInt32) :
    MediaTime → MediaTime :=
  setTimeScale (if hasInt128 then rescale128 else rescale64) createWithDouble timeScale .HalfAwayFromZero

/-- The times and the result of the operation can be represented at a common scale. -/
structure Fits (operation : ℤ → ℤ → ℤ) (a b : MediaTime) : Prop where
  left : IsA .finite a
  right : IsA .finite b
  small : commonScale a b ≤ 10^9
  leftFits : InRange (a.valueAt (commonScale a b))
  rightFits : InRange (b.valueAt (commonScale a b))
  fits : InRange (operation (a.valueAt (commonScale a b)) (b.valueAt (commonScale a b)))

def Checks (checked : Int64 → Int64 → Option Int64) (operation : ℤ → ℤ → ℤ) : Prop :=
  ∀ x y, InRange (operation x.toInt y.toInt) → checked x y = some (Int64.ofInt (operation x.toInt y.toInt))

def exact (operation : ℤ → ℤ → ℤ) (a b : MediaTime) : MediaTime :=
  ⟨Int64.ofInt (operation (a.valueAt (commonScale a b)) (b.valueAt (commonScale a b))),
    UInt32.ofNat (commonScale a b), a.timeFlags⟩

theorem IsA.plain {time : MediaTime} (finite : IsA .finite time) : time.isInvalid = false ∧
    time.isIndefinite = false ∧ time.isPositiveInfinite = false ∧ time.isNegativeInfinite = false ∧
    time.hasDoubleValue = false := by
  obtain ⟨rounded, known⟩ := finite.flags_eq
  simp only [isInvalid, isIndefinite, isPositiveInfinite, isNegativeInfinite, hasDoubleValue, known]
  cases rounded <;> decide

section Exact

variable {hasInt128 : Bool} {createWithDouble : Float → UInt32 → MediaTime} {time a b : MediaTime}
  {timeScale : UInt32} {operation : ℤ → ℤ → ℤ} {checked : Int64 → Int64 → Option Int64}

theorem rescaled_eq (finite : IsA .finite time) (divides : time.timeScale.toNat ∣ timeScale.toNat)
    (positive : 0 < timeScale.toNat) (small : timeScale ≤ MaximumTimeScale)
    (fits : InRange (time.valueAt timeScale.toNat)) :
    rescaled hasInt128 createWithDouble timeScale time =
      ⟨Int64.ofInt (time.valueAt timeScale.toNat), timeScale, time.timeFlags⟩ := by
  have scaled := finite.scale_pos
  have nonzero : timeScale ≠ 0 := UInt32.pos_iff_ne_zero.mp positive
  have product : time.value * timeScale.toNat = time.valueAt timeScale.toNat * time.scale := by
    rw [valueAt, scale, mul_assoc, ← cast_mul, Nat.div_mul_cancel divides]
  have unit : time.scale ≠ 0 := Int.natCast_ne_zero.mpr scaled.ne'
  have same : (if hasInt128 then rescale128 else rescale64) time timeScale = rescale128 time timeScale := by
    cases hasInt128
    · exact rescale64_eq (Int.natCast_pos.mpr scaled) small
    · rfl
  simp only [rescaled, setTimeScale, finite.plain, nonzero, if_false, Bool.false_eq_true]
  split
  · rename_i equal
    rw [equal, valueAt, Nat.div_self scaled, cast_one, mul_one, value, Int64.ofInt_toInt]
  · rw [min_eq_of_le small, same, rescale128, product, Int.mul_tmod_left, Int.mul_tdiv_cancel _ unit,
      if_neg (not_lt.mpr fits.1), if_neg (by have := fits.2; omega)]
    rfl

section Fits

variable (fit : Fits operation a b)
include fit

theorem Fits.scale_toNat : (UInt32.ofNat (commonScale a b)).toNat = commonScale a b :=
  UInt32.toNat_ofNat_of_lt' (lt_of_le_of_lt fit.small (by decide))

theorem Fits.scale_pos : 0 < commonScale a b := lcm_pos fit.left.scale_pos fit.right.scale_pos

theorem Fits.combine_eq (spec : Checks checked operation) (fuel : Nat) :
    combine (rescaled hasInt128 createWithDouble) checked (fuel + 1) a b = some (exact operation a b) := by
  have read := fit.scale_toNat
  have bound : UInt32.ofNat (commonScale a b) ≤ MaximumTimeScale := by
    rw [UInt32.le_iff_toNat_le, read]
    exact fit.small
  have left := @rescaled_eq hasInt128 createWithDouble a (UInt32.ofNat (commonScale a b)) fit.left
  have right := @rescaled_eq hasInt128 createWithDouble b (UInt32.ofNat (commonScale a b)) fit.right
  rw [read] at left right
  have result := spec (Int64.ofInt (a.valueAt (commonScale a b))) (Int64.ofInt (b.valueAt (commonScale a b)))
  rw [ofInt_toInt_iff.mpr fit.leftFits, ofInt_toInt_iff.mpr fit.rightFits] at result
  rw [combine, leastCommonMultiple_eq, ← commonScale, if_pos (lt_of_le_of_lt fit.small (by decide))]
  simp only [if_neg (UInt32.not_lt.mpr bound), combineScaled,
    left (Nat.dvd_lcm_left _ _) fit.scale_pos bound fit.leftFits,
    right (Nat.dvd_lcm_right _ _) fit.scale_pos bound fit.rightFits, result fit.fits, exact]

theorem Fits.finite : IsA .finite (exact operation a b) := by
  refine ⟨fit.left.flags, fun _ => UInt32.pos_iff_ne_zero.mp ?_⟩
  rw [UInt32.lt_iff_toNat_lt, exact, fit.scale_toNat]
  exact fit.scale_pos

theorem Fits.rational : (exact operation a b).rational =
    (operation (a.valueAt (commonScale a b)) (b.valueAt (commonScale a b)) : ℚ) / commonScale a b := by
  rw [MediaTime.rational, exact, fit.scale_toNat, ofInt_toInt_iff.mpr fit.fits]

end Fits

theorem valueAt_div (finite : IsA .finite time) {common : Nat} (positive : 0 < common)
    (divides : time.timeScale.toNat ∣ common) : (time.valueAt common : ℚ) / common = time.rational := by
  obtain ⟨factor, rfl⟩ := divides
  have scaled := finite.scale_pos
  rw [valueAt, Nat.mul_div_cancel_left _ scaled, rational, value]
  have other : (factor : ℚ) ≠ 0 := cast_ne_zero.mpr (Nat.pos_of_mul_pos_left positive).ne'
  push_cast
  field_simp

variable {fromDouble : Float → MediaTime} {fuel : Nat}

theorem Fits.operate_eq (fit : Fits operation a b) (spec : Checks checked operation)
    {onDoubles : Float → Float → Float} :
    operate (rescaled hasInt128 createWithDouble) fromDouble checked onDoubles false false (fuel + 1) a b =
      some (exact operation a b) := by
  simp only [operate, fit.left.plain, fit.right.plain, Bool.and_self]
  exact fit.combine_eq spec fuel

theorem add_eq (fit : Fits (· + ·) a b) :
    add (rescaled hasInt128 createWithDouble) fromDouble (fuel + 1) a b = some (exact (· + ·) a b) := by
  simp only [add, fit.right.plain]
  exact fit.operate_eq fun x y fits => if_pos fits

theorem sub_eq (fit : Fits (· - ·) a b) :
    sub (rescaled hasInt128 createWithDouble) fromDouble (fuel + 1) a b = some (exact (· - ·) a b) := by
  simp only [sub, fit.right.plain]
  exact fit.operate_eq fun x y fits => if_pos fits

theorem commonScale_comm (a b : MediaTime) : commonScale b a = commonScale a b := Nat.lcm_comm _ _

theorem Fits.symm (fit : Fits (· + ·) a b) : Fits (· + ·) b a := by
  obtain ⟨left, right, small, leftFits, rightFits, fits⟩ := fit
  rw [← commonScale_comm] at small leftFits rightFits fits
  exact ⟨right, left, small, rightFits, leftFits, by rwa [add_comm]⟩

theorem commonScale_exact (fit : Fits operation a b) : commonScale (exact operation a b) b = commonScale a b := by
  rw [commonScale, exact, fit.scale_toNat]
  exact lcm_eq_left (Nat.dvd_lcm_right _ _)

theorem valueAt_exact (fit : Fits operation a b) : (exact operation a b).valueAt (commonScale a b) =
    operation (a.valueAt (commonScale a b)) (b.valueAt (commonScale a b)) := by
  rw [valueAt, exact, value, ofInt_toInt_iff.mpr fit.fits, fit.scale_toNat, Nat.div_self fit.scale_pos,
    cast_one, mul_one]

theorem Fits.back (fit : Fits (· + ·) a b) : Fits (· - ·) (exact (· + ·) a b) b := by
  have same := commonScale_exact fit
  have value := valueAt_exact fit
  refine ⟨fit.finite, fit.right, same ▸ fit.small, ?_, same ▸ fit.rightFits, ?_⟩
  · rw [same, value]
    exact fit.fits
  · rw [same, value, add_sub_cancel_right]
    exact fit.leftFits

end Exact

def KeepsSmall (checked : Int64 → Int64 → Option Int64) : Prop :=
  ∀ x y, (x = 0 ∨ x = -1) → (y = 0 ∨ y = -1) → (checked x y).isSome = true

section Termination

variable {setTimeScale : UInt32 → MediaTime → MediaTime} {checked : Int64 → Int64 → Option Int64}

theorem combineScaled_total (fuel : Nat) (a b : MediaTime) {common : UInt32} (nonzero : common ≠ 0)
    (enough : common.toNat < 2^fuel) :
    ∃ result, ∀ more, combineScaled setTimeScale checked (fuel + more) a b common = some result := by
  induction fuel generalizing a b common with
  | zero => exact absurd (UInt32.toNat_inj.mp (lt_one_iff.mp enough)) nonzero
  | succ fuel ih =>
    simp only [succ_add, combineScaled]
    cases checked a.timeValue b.timeValue with
    | some value => exact ⟨_, fun _ => rfl⟩
    | none =>
      dsimp only
      split
      · exact ⟨_, fun _ => rfl⟩
      · rename_i several
        have half : (common / 2).toNat = common.toNat / 2 := UInt32.toNat_div _ _
        have nonzero' : common.toNat ≠ 0 := fun zero => nonzero (UInt32.toNat_inj.mp zero)
        have several' : common.toNat ≠ 1 := fun one => several (UInt32.toNat_inj.mp one)
        apply ih
        · intro zero
          rw [zero] at half
          have : (0 : UInt32).toNat = 0 := rfl
          omega
        · omega

variable {hasInt128 : Bool} {createWithDouble : Float → UInt32 → MediaTime} {fromDouble : Float → MediaTime}
  {a b : MediaTime}

theorem rescaled_zero {time : MediaTime} (single : time.hasDoubleValue = false) :
    (rescaled hasInt128 createWithDouble 0 time).timeValue = 0 ∨
      (rescaled hasInt128 createWithDouble 0 time).timeValue = -1 := by
  simp only [rescaled, setTimeScale, single, if_true, Bool.false_eq_true, if_false]
  split
  · exact .inr rfl
  · exact .inl rfl

theorem combine_total (left : a.hasDoubleValue = false) (right : b.hasDoubleValue = false)
    (small : KeepsSmall checked) :
    ∃ result, ∀ more, combine (rescaled hasInt128 createWithDouble) checked (32 + more) a b = some result := by
  simp only [combine]
  generalize (match leastCommonMultiple a.timeScale b.timeScale with
    | some common => if common > MaximumTimeScale then MaximumTimeScale else common
    | none => MaximumTimeScale) = common
  by_cases zero : common = 0
  · obtain ⟨value, found⟩ := Option.isSome_iff_exists.mp (small _ _
      (@rescaled_zero hasInt128 createWithDouble _ left) (@rescaled_zero hasInt128 createWithDouble _ right))
    refine ⟨{ rescaled hasInt128 createWithDouble 0 a with timeValue := value }, fun more => ?_⟩
    rw [zero, add_comm, combineScaled, found]
  · exact combineScaled_total 32 _ _ zero common.toNat_lt

theorem operate_total {onDoubles : Float → Float → Float} {addsPositive addsNegative : Bool} (a b : MediaTime)
    (small : KeepsSmall checked) :
    ∃ result, ∀ more, operate (rescaled hasInt128 createWithDouble) fromDouble checked onDoubles addsPositive
      addsNegative (32 + more) a b = some result := by
  unfold operate
  split_ifs
  all_goals try exact ⟨_, fun _ => rfl⟩
  rename_i either
  rw [Bool.not_eq_true, Bool.or_eq_false_iff] at either
  exact combine_total either.1 either.2 small

end Termination

theorem sums_exact (hasInt128 : Bool) (createWithDouble : Float → UInt32 → MediaTime)
    (fromDouble : Float → MediaTime) :
    (∀ a b, Fits (· + ·) a b → ∀ fuel, ∃ sum,
      add (rescaled hasInt128 createWithDouble) fromDouble (fuel + 1) a b = some sum ∧
      IsA .finite sum ∧ sum.rational = a.rational + b.rational ∧ sum.timeFlags = a.timeFlags ∧
      add (rescaled hasInt128 createWithDouble) fromDouble (fuel + 1) b a =
        some { sum with timeFlags := b.timeFlags } ∧
      ∃ back, sub (rescaled hasInt128 createWithDouble) fromDouble (fuel + 1) sum b = some back ∧
        IsA .finite back ∧ back.rational = a.rational ∧ back.timeFlags = a.timeFlags) ∧
    (∀ a b, Fits (· - ·) a b → ∀ fuel, ∃ difference,
      sub (rescaled hasInt128 createWithDouble) fromDouble (fuel + 1) a b = some difference ∧
      IsA .finite difference ∧ difference.rational = a.rational - b.rational ∧
      difference.timeFlags = a.timeFlags) ∧
    ∀ a b, ∃ sum difference, ∀ more,
      add (rescaled hasInt128 createWithDouble) fromDouble (32 + more) a b = some sum ∧
      sub (rescaled hasInt128 createWithDouble) fromDouble (32 + more) a b = some difference := by
  have read {operation : ℤ → ℤ → ℤ} {a b : MediaTime} (fit : Fits operation a b) :
      (a.valueAt (commonScale a b) : ℚ) / commonScale a b = a.rational ∧
        (b.valueAt (commonScale a b) : ℚ) / commonScale a b = b.rational :=
    ⟨valueAt_div fit.left fit.scale_pos (Nat.dvd_lcm_left _ _),
      valueAt_div fit.right fit.scale_pos (Nat.dvd_lcm_right _ _)⟩
  refine ⟨fun a b fit fuel => ?_, fun a b fit fuel => ?_, fun a b => ?_⟩
  · refine ⟨_, add_eq fit, fit.finite, ?_, rfl, (add_eq fit.symm).trans ?_, _, sub_eq fit.back,
      fit.back.finite, ?_, rfl⟩
    · rw [fit.rational, Int.cast_add, add_div, (read fit).1, (read fit).2]
    · simp only [exact, commonScale_comm b a, add_comm (b.valueAt _)]
    · rw [fit.back.rational, commonScale_exact fit, valueAt_exact fit, add_sub_cancel_right, (read fit).1]
  · refine ⟨_, sub_eq fit, fit.finite, ?_, rfl⟩
    rw [fit.rational, Int.cast_sub, sub_div, (read fit).1, (read fit).2]
  · have sums : KeepsSmall safeAdd := by
      rintro x y (rfl | rfl) (rfl | rfl) <;> rfl
    have differences : KeepsSmall safeSub := by
      rintro x y (rfl | rfl) (rfl | rfl) <;> rfl
    obtain ⟨sum, summed⟩ := operate_total a b sums
    obtain ⟨difference, taken⟩ := operate_total a b differences
    exact ⟨sum, difference, fun more => ⟨summed more, taken more⟩⟩

theorem half_and_third_sum :
    ∃ sum, add (rescaled true (fun _ _ => positiveInfiniteTime)) (fun _ => positiveInfiniteTime) 1
        ⟨1, 2, Valid⟩ ⟨1, 3, Valid⟩ = some sum ∧ sum.rational = 5 / 6 ∧ sum.timeFlags = Valid := by
  have fit : Fits (· + ·) ⟨1, 2, Valid⟩ ⟨1, 3, Valid⟩ :=
    ⟨⟨.inl rfl, by decide⟩, ⟨.inl rfl, by decide⟩, by decide, by decide, by decide, by decide⟩
  have exact_sum := (sums_exact true (fun _ _ => positiveInfiniteTime) (fun _ => positiveInfiniteTime)).1 _ _ fit 0
  obtain ⟨sum, summed, _, value, flags, _⟩ := exact_sum
  refine ⟨sum, summed, value.trans ?_, flags⟩
  have half : (⟨1, 2, Valid⟩ : MediaTime).rational = ((1 : ℤ) : ℚ) / (2 : ℕ) := rfl
  have third : (⟨1, 3, Valid⟩ : MediaTime).rational = ((1 : ℤ) : ℚ) / (3 : ℕ) := rfl
  rw [half, third]
  norm_num

/-- A sum is marked as rounded for its left operand, even where it is exact. -/
theorem rounded_operand_marks_sum :
    add (rescaled true (fun _ _ => positiveInfiniteTime)) (fun _ => positiveInfiniteTime) 1
      ⟨1, 1, Valid ||| HasBeenRounded⟩ ⟨1, 1, Valid⟩ = some ⟨2, 1, Valid ||| HasBeenRounded⟩ := by
  have fit : Fits (· + ·) ⟨1, 1, Valid ||| HasBeenRounded⟩ ⟨1, 1, Valid⟩ :=
    ⟨⟨.inr rfl, by decide⟩, ⟨.inl rfl, by decide⟩, by decide, by decide, by decide, by decide⟩
  exact (add_eq fit).trans rfl

end MediaTime

end Odyssey.Media
