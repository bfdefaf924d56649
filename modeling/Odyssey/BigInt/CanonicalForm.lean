import Mathlib.Data.BitVec
import Odyssey.BigInt.Parsing
import Odyssey.BigInt.ShiftSpec

namespace Odyssey.BigInt

open Arithmetic List Nat

inductive Operation where
  | add
  | sub
  | multiply
  | divide
  | remainder
  | bitwiseAnd
  | bitwiseOr
  | bitwiseXor
  | leftShift
  | signedRightShift
  deriving DecidableEq, Repr

namespace JSBigInt

variable {build : Build}

def apply : Operation → Storage build → JSBigInt build → JSBigInt build → Except BigIntError (JSBigInt build)
  | .add => add
  | .sub => sub
  | .multiply => multiply
  | .divide => divide
  | .remainder => remainder
  | .bitwiseAnd => bitwiseAnd
  | .bitwiseOr => bitwiseOr
  | .bitwiseXor => bitwiseXor
  | .leftShift => leftShift
  | .signedRightShift => signedRightShift

/-- The numbers that the functions return, if 64-bit values are only taken where some condition holds. -/
inductive Produced (isSpaceSeparator : UChar → Bool) (condition : BitVec 64 → Prop) : JSBigInt build → Prop
  | int32 (storage : Storage build) (value : BitVec 32) : Produced isSpaceSeparator condition (createFromInt32 storage value)
  | uint32 (storage : Storage build) (value : BitVec 32) :
    Produced isSpaceSeparator condition (createFromUInt32 storage value)
  | int64 (storage : Storage build) (value : BitVec 64) (holds : condition value) :
    Produced isSpaceSeparator condition (createFromInt64 storage value)
  | bool (storage : Storage build) (value : Bool) : Produced isSpaceSeparator condition (createFromBool storage value)
  | parseInt {data : List UChar} {mode : ErrorParseMode} {x : JSBigInt build}
    (parsed : parseInt isSpaceSeparator data mode = .ok (some x)) : Produced isSpaceSeparator condition x
  | parseIntRadix {data : List UChar} {radix : Nat} {mode : ErrorParseMode} {sign : ParseIntSign} {x : JSBigInt build}
    (least : 2 ≤ radix) (most : radix ≤ 36) (parsed : parseIntRadix isSpaceSeparator data radix mode sign = .ok (some x)) :
    Produced isSpaceSeparator condition x
  | unaryMinus {x : JSBigInt build} (hx : Produced isSpaceSeparator condition x) :
    Produced isSpaceSeparator condition x.unaryMinus
  | operation (operation : Operation) (storage : Storage build) {x y result : JSBigInt build}
    (hx : Produced isSpaceSeparator condition x) (hy : Produced isSpaceSeparator condition y)
    (returned : apply operation storage x y = .ok result) : Produced isSpaceSeparator condition result

def FillsDigits (build : Build) (value : BitVec 64) : Prop :=
  build.wide = true ∨ value = 0 ∨ 2^32 ≤ value.toInt.natAbs

instance (build : Build) (value : BitVec 64) : Decidable (FillsDigits build value) :=
  inferInstanceAs (Decidable (_ ∨ _))

theorem canonical_pair {low high : Digit build} (sign : Bool) :
    (JSBigInt.mk [low, high] sign).Canonical ↔ high.toNat ≠ 0 := by
  have top : Trimmed [high] ↔ high ≠ 0 := by
    show Trimmed ([low] ++ [high]) ↔ _
    exact trimmed_concat
  constructor
  · rintro ⟨trimmed, _⟩ none
    exact top.mp trimmed (BitVec.eq_of_toNat_eq none)
  · intro some
    exact Canonical.of_digits (top.mpr (fun none => some (congrArg BitVec.toNat none))) (cons_ne_nil _ _)

theorem thirtyTwo_le : 2^32 ≤ 2^build.digitBits := by
  obtain ⟨wide, two⟩ := build
  cases wide <;> cases two <;> decide

variable (storage : Storage build)

theorem canonical_createFromInt32 (value : BitVec 32) : (createFromInt32 storage value).Canonical := by
  have wide : 2^32 ≤ 2^build.digitBits := thirtyTwo_le
  have least := BitVec.le_toInt value
  have most := BitVec.toInt_lt (x := value)
  have digit (i : Int) (positive : 0 < i) (small : i < 2^32) : (BitVec.ofInt build.digitBits i).toNat ≠ 0 := by
    rw [BitVec.toNat_ofInt, Int.emod_eq_of_lt (by omega) (by omega)]
    omega
  rw [createFromInt32]
  split
  · exact Canonical.zero
  · rename_i some
    have nonzero : value.toInt ≠ 0 := fun zero => some (BitVec.eq_of_toInt_eq zero)
    split
    · exact canonical_singleton (digit _ (by omega) (by omega)) true
    · exact canonical_singleton (digit _ (by omega) (by omega)) false

theorem canonical_createFromUInt32 (value : BitVec 32) : (createFromUInt32 storage value).Canonical := by
  have wide : 2^32 ≤ 2^build.digitBits := thirtyTwo_le
  rw [createFromUInt32]
  split_ifs with some
  · exact Canonical.zero
  · apply canonical_singleton _ false
    rw [BitVec.toNat_setWidth, mod_eq_of_lt (by omega)]
    exact fun zero => some (BitVec.eq_of_toNat_eq zero)

theorem canonical_createFromBool (value : Bool) : (createFromBool storage value).Canonical := by
  have roomy := room build
  rw [createFromBool]
  split
  · apply canonical_singleton _ false
    rw [toNat_one (by omega)]
    omega
  · exact Canonical.zero

theorem toNat_magnitude (value : BitVec 64) :
    (if decide (value.toInt < 0) then -(value + 1) + 1 else value).toNat = value.toInt.natAbs := by
  have integer := BitVec.toInt_eq_toNat_cond value
  simp only [decide_eq_true_eq]
  split_ifs with negative
  · simp only [BitVec.toNat_add, BitVec.toNat_neg]
    omega
  · split at integer <;> omega

theorem canonical_createFromInt64_iff (value : BitVec 64) :
    (createFromInt64 storage value).Canonical ↔ FillsDigits build value := by
  have magnitude := toNat_magnitude value
  rw [createFromInt64, FillsDigits]
  by_cases zero : value = 0
  · rw [if_pos zero]
    exact ⟨fun _ => Or.inr (Or.inl zero), fun _ => Canonical.zero⟩
  · have nonzero : value.toInt ≠ 0 := fun none => zero (BitVec.eq_of_toInt_eq none)
    simp only [if_neg zero]
    generalize (if decide (value.toInt < 0) = true then -(value + 1) + 1 else value) = tempValue at *
    obtain ⟨wide, two⟩ := build
    cases wide with
    | true =>
      refine ⟨fun _ => Or.inl rfl, fun _ => canonical_singleton ?_ _⟩
      show (tempValue.setWidth 64).toNat ≠ 0
      rw [BitVec.setWidth_eq]
      omega
    | false =>
      have high : (((tempValue >>> 32) &&& 0xffffffff).setWidth 32).toNat = tempValue.toNat / 2^32 := by
        have top : tempValue.toNat / 2^32 < 2^32 := by omega
        rw [BitVec.toNat_setWidth, BitVec.toNat_and, BitVec.toNat_ushiftRight, shiftRight_eq_div_pow]
        show (tempValue.toNat / 2^32 &&& 2^32 - 1) % 2^32 = _
        rw [and_two_pow_sub_one_eq_mod, mod_mod, mod_eq_of_lt top]
      have fills : 2^32 ≤ value.toInt.natAbs ↔ tempValue.toNat / 2^32 ≠ 0 := by omega
      simp only [Bool.false_eq_true, false_or, zero]
      rw [fills, ← high]
      exact canonical_pair _

theorem equals_iff {x y : JSBigInt build} : equals x y = true ↔ x = y := by
  obtain ⟨xs, first⟩ := x
  obtain ⟨ys, second⟩ := y
  simp only [equals, length, Bool.and_eq_true, beq_iff_eq, all_eq_true]
  constructor
  · rintro ⟨⟨sign, size⟩, pairs⟩
    have digits : xs = ys := by
      apply ext_getElem size
      intro i left right
      have inside : i < (xs.zip ys).length := by
        rw [length_zip]
        omega
      have pair := pairs _ (getElem_mem inside)
      rwa [getElem_zip] at pair
    rw [sign, digits]
  · rintro ⟨rfl, rfl⟩
    refine ⟨⟨rfl, rfl⟩, ?_⟩
    intro pair member
    obtain ⟨i, inside, found⟩ := getElem_of_mem member
    rw [getElem_zip] at found
    rw [← found]

theorem eq_of_toInt_eq {x y : JSBigInt build} (hx : x.Canonical) (hy : y.Canonical) (same : x.toInt = y.toInt) : x = y := by
  rw [toInt_eq_signed, toInt_eq_signed] at same
  have magnitude := congrArg Int.natAbs same
  rw [natAbs_signed, natAbs_signed] at magnitude
  have digits := hx.trimmed.eq_of_value_eq hy.trimmed magnitude
  have sign : x.sign = y.sign := by
    by_cases none : x.digits = []
    · rw [hx.positive none, hy.positive (digits ▸ none)]
    · have positive := hx.trimmed.value_pos none
      cases first : x.sign <;> cases second : y.sign <;> simp only [first, second, signed] at same ⊢ <;>
        simp at same <;> omega
  exact congr (congrArg mk digits) sign

section Parsing

variable {isSpaceSeparator : UChar → Bool}

theorem length_inplaceMultiplyAdd (digits : List (Digit build)) (factor summand : Digit build) :
    (inplaceMultiplyAdd build digits factor summand).length = digits.length := by
  have size := (multiplyAddDigits_spec factor (digits.take digits.length) summand 0
    (by rw [toNat_zero]; exact summand.isLt)).1
  simp only [inplaceMultiplyAdd, internalMultiplyAdd, lt_irrefl, if_false]
  rw [size, take_length]

theorem length_parseDigits {radix : Nat} {data : List UChar} {digits result : List (Digit build)}
    (parsed : parseDigits build radix data digits = some result) : result.length = digits.length := by
  induction data generalizing digits with
  | nil =>
    cases parsed
    rfl
  | cons ch data ih =>
    rw [parseDigits] at parsed
    split at parsed
    · rw [ih parsed, length_inplaceMultiplyAdd]
    · cases parsed

theorem allocateFor_spec {radix charcount size : Nat} (least : 2 ≤ radix) (most : radix ≤ 36) (some : 0 < charcount)
    (allocated : allocateFor build radix charcount = .ok size) : 0 < size := by
  have positive : 0 < build.digitBits := digitBits_pos
  have bits : 32 ≤ maxBitsPerCharTable.getD radix 0 := by
    have table : ∀ r ≤ 36, 2 ≤ r → 32 ≤ maxBitsPerCharTable.getD r 0 := by decide
    exact table radix most least
  simp only [allocateFor] at allocated
  split_ifs at allocated
  cases allocated
  refine Nat.div_pos ?_ positive
  have product : 32 * charcount ≤ maxBitsPerCharTable.getD radix 0 * charcount := mul_le_mul_right _ bits
  rw [bitsPerCharTableShift]
  omega

theorem canonical_parseIntFrom {data : List UChar} {startIndex radix : Nat} {mode : ErrorParseMode}
    {sign : ParseIntSign} {parseMode : ParseIntMode} {x : JSBigInt build} (least : 2 ≤ radix) (most : radix ≤ 36)
    (parsed : parseIntFrom isSpaceSeparator data startIndex radix mode sign parseMode = .ok (some x)) :
    x.Canonical := by
  have failure : parseFailure mode ≠ (.ok (some x) : Except BigIntError (Option (JSBigInt build))) := by
    rw [parseFailure]
    split <;> nofun
  rw [parseIntFrom] at parsed
  split at parsed
  · exact absurd parsed failure
  · simp only at parsed
    split_ifs at parsed with characters
    · cases parsed
      exact Canonical.zero
    · cases allocated : allocateFor build radix _ with
      | error error =>
        rw [allocated] at parsed
        cases parsed
      | ok size =>
        rw [allocated] at parsed
        have positive := allocateFor_spec least most (length_pos_iff.mpr characters) allocated
        simp only [bind, Except.bind] at parsed
        split at parsed
        · rename_i digits found
          cases parsed
          apply canonical_rightTrim
          intro none
          have size_eq := length_parseDigits found
          rw [show digits = [] from none, length_replicate, length_nil] at size_eq
          omega
        · exact absurd parsed failure

theorem canonical_signed {inner : Except BigIntError (Option (JSBigInt build))} {x : JSBigInt build} (sign : Bool)
    (parsed : (do
      let result ← inner
      pure (result.map (fun result : JSBigInt build => if result.isZero then result else result.setSign sign))) =
        .ok (some x))
    (canonical : ∀ magnitude, inner = .ok (some magnitude) → magnitude.Canonical) : x.Canonical := by
  cases inner with
  | error error => cases parsed
  | ok returned =>
    cases returned with
    | none => cases parsed
    | some magnitude =>
      cases parsed
      show (if magnitude.isZero then magnitude else magnitude.setSign sign).Canonical
      split_ifs with some
      · exact canonical magnitude rfl
      · exact Canonical.of_digits (canonical magnitude rfl).trimmed (fun none => some (isZero_iff.mpr none))

theorem canonical_parseInt {data : List UChar} {mode : ErrorParseMode} {x : JSBigInt build}
    (parsed : parseInt isSpaceSeparator data mode = .ok (some x)) : x.Canonical := by
  simp only [parseInt] at parsed
  split at parsed
  · rename_i radix found
    have bounds : 2 ≤ radix ∧ radix ≤ 36 := by
      split_ifs at found <;> cases found <;> omega
    exact canonical_parseIntFrom bounds.1 bounds.2 parsed
  · exact canonical_signed _ parsed (fun _ => canonical_parseIntFrom (show 2 ≤ 10 by decide) (show 10 ≤ 36 by decide))

end Parsing

section Operations

variable {x y result : JSBigInt build} {returned : Except BigIntError (JSBigInt build)} {integer : Int}

theorem Returns.canonical {allocated : Nat} (returns : Returns returned integer allocated)
    (ok : returned = .ok result) : result.Canonical := by
  subst ok
  exact returns.1

theorem Gives.canonical (gives : Gives returned integer) (ok : returned = .ok result) : result.Canonical := by
  subst ok
  exact gives.1

theorem HasBits.canonical {bit : Bool → Bool → Bool} (bits : HasBits returned bit x y)
    (ok : returned = .ok result) : result.Canonical := by
  subst ok
  rcases bits with failed | ⟨_, made, canonical, _⟩
  · cases failed
  · cases made
    exact canonical

theorem Shifted.canonical (shifted : Shifted build returned integer) (ok : returned = .ok result) :
    result.Canonical := by
  subst ok
  exact shifted.1

theorem canonical_rightShiftByMaximum (storage : Storage build) (sign : Bool) :
    (rightShiftByMaximum storage sign).Canonical := by
  rw [rightShiftByMaximum]
  split
  · exact canonical_createFromInt32 storage _
  · exact Canonical.zero

theorem canonical_rightShiftByAbsolute {storage : Storage build}
    (returned : rightShiftByAbsolute storage x y = .ok result) : result.Canonical := by
  rw [rightShiftByAbsolute] at returned
  split at returned
  · cases returned
    exact canonical_rightShiftByMaximum storage x.sign
  · simp only at returned
    split at returned
    · cases returned
      exact canonical_rightShiftByMaximum storage x.sign
    · rename_i shift _ short
      split at returned
      · exact (absoluteAddOne_returns storage _ .Signed).canonical returned
      · cases returned
        apply canonical_rightTrim
        intro none
        have inside := Nat.lt_of_not_le short
        have size := (keptDigits_spec x.digits shift.toNat).1
        rw [keptDigits, (append_eq_nil_iff.mp none).1] at size
        exact absurd size (Nat.ne_of_lt (Nat.sub_pos_of_lt inside))

theorem canonical_apply {operation : Operation} {storage : Storage build} (hx : x.Canonical) (hy : y.Canonical)
    (returned : apply operation storage x y = .ok result) : result.Canonical := by
  have nonzero {first : Except BigIntError (JSBigInt build)} (message : String)
      (ok : (if y.isZero then .error (.RangeError message) else first) = .ok result) : y.isZero = false := by
    cases zero : y.isZero
    · rfl
    · rw [zero] at ok
      cases ok
  cases operation with
  | add => exact (add_returns storage hx hy).canonical returned
  | sub => exact (sub_returns storage hx hy).canonical returned
  | multiply => exact (multiply_returns storage hx hy).canonical returned
  | divide => exact (divide_gives storage hx hy (nonzero _ returned)).canonical returned
  | remainder => exact (remainder_gives storage hx hy (nonzero _ returned)).canonical returned
  | bitwiseAnd => exact (bitwiseAnd_hasBits storage hx hy).canonical returned
  | bitwiseOr => exact (bitwiseOr_hasBits storage hx hy).canonical returned
  | bitwiseXor => exact (bitwiseXor_hasBits storage hx hy).canonical returned
  | leftShift =>
    rw [apply, leftShift] at returned
    split at returned
    · cases returned
      exact hx
    · rename_i some
      rw [Bool.or_eq_true, not_or, isZero_iff, isZero_iff] at some
      split at returned
      · exact canonical_rightShiftByAbsolute returned
      · exact (leftShiftByAbsolute_shifted storage hx some.2 hy some.1).canonical returned
  | signedRightShift =>
    rw [apply, signedRightShift] at returned
    split at returned
    · cases returned
      exact hx
    · rename_i some
      rw [Bool.or_eq_true, not_or, isZero_iff, isZero_iff] at some
      split at returned
      · exact (leftShiftByAbsolute_shifted storage hx some.2 hy some.1).canonical returned
      · exact canonical_rightShiftByAbsolute returned

end Operations

theorem Produced.canonical {isSpaceSeparator : UChar → Bool} {x : JSBigInt build}
    (produced : Produced isSpaceSeparator (FillsDigits build) x) : x.Canonical := by
  induction produced with
  | int32 storage value => exact canonical_createFromInt32 storage value
  | uint32 storage value => exact canonical_createFromUInt32 storage value
  | int64 storage value holds => exact (canonical_createFromInt64_iff storage value).mpr holds
  | bool storage value => exact canonical_createFromBool storage value
  | parseInt parsed => exact canonical_parseInt parsed
  | parseIntRadix least most parsed => exact canonical_parseIntFrom least most parsed
  | unaryMinus _ ih => exact canonical_unaryMinus ih
  | operation operation storage _ _ returned first second => exact canonical_apply first second returned

/-- No function returns a zero at the top or a negative zero, if 64-bit values are only taken where they fill
    their digits; so the numbers are equal exactly if the integers are. -/
theorem canonical_form (build : Build) (isSpaceSeparator : UChar → Bool) :
    (∀ (storage : Storage build) (value : BitVec 64),
      (createFromInt64 storage value).Canonical ↔ FillsDigits build value) ∧
    ∀ x y : JSBigInt build, Produced isSpaceSeparator (FillsDigits build) x →
      Produced isSpaceSeparator (FillsDigits build) y → x.Canonical ∧ (equals x y = true ↔ x.toInt = y.toInt) := by
  refine ⟨canonical_createFromInt64_iff, fun x y hx hy => ⟨hx.canonical, ?_⟩⟩
  rw [equals_iff]
  exact ⟨congrArg toInt, eq_of_toInt_eq hx.canonical hy.canonical⟩

theorem canonical_form_of_ones : let build : Build := ⟨false, false⟩
    let first : JSBigInt build := createFromInt64 (fun _ => 0) (2^32)
    let second : JSBigInt build := createFromInt32 (fun _ => 0) 1
    Produced (fun _ => false) (FillsDigits build) first ∧ Produced (fun _ => false) (FillsDigits build) second ∧
      first.Canonical ∧ (equals first second = true ↔ first.toInt = second.toInt) := by
  have first : Produced (fun _ => false) (FillsDigits ⟨false, false⟩)
      (createFromInt64 (fun _ => 0) (2^32) : JSBigInt ⟨false, false⟩) := .int64 _ _ (by decide)
  have second : Produced (fun _ => false) (FillsDigits ⟨false, false⟩)
      (createFromInt32 (fun _ => 0) 1 : JSBigInt ⟨false, false⟩) := .int32 _ _
  exact ⟨first, second, (canonical_form ⟨false, false⟩ (fun _ => false)).2 _ _ first second⟩

theorem createFromInt64_untrimmed : let build : Build := ⟨false, false⟩
    let first : JSBigInt build := createFromInt64 (fun _ => 0) (-3000000000)
    let second : JSBigInt build := ⟨[3000000000], true⟩
    Produced (fun _ => false) (fun _ => True) first ∧ Produced (fun _ => false) (fun _ => True) second ∧
      first = ⟨[3000000000, 0], true⟩ ∧ ¬first.Canonical ∧ first.toInt = second.toInt ∧ equals first second = false := by
  have digits : (createFromInt64 (fun _ => 0) (-3000000000) : JSBigInt ⟨false, false⟩) = ⟨[3000000000, 0], true⟩ := by
    decide
  have parsed : parseInt (fun _ => false) [0x2D, 0x33, 0x30, 0x30, 0x30, 0x30, 0x30, 0x30, 0x30, 0x30, 0x30]
      .ThrowExceptions = .ok (some (⟨[3000000000], true⟩ : JSBigInt ⟨false, false⟩)) := by decide +kernel
  refine ⟨.int64 _ _ trivial, .parseInt parsed, digits, ?_, by decide, by decide⟩
  exact fun canonical => canonical.trimmed rfl

end JSBigInt

end Odyssey.BigInt
