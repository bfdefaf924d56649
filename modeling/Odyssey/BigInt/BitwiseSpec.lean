import Odyssey.BigInt.Bitwise

namespace Odyssey.BigInt

open Arithmetic List Nat

namespace JSBigInt

variable {build : Build} {x y : JSBigInt build}

structure Natural (x : JSBigInt build) (magnitude : Nat) : Prop where
  canonical : x.Canonical
  positive : x.sign = false
  magnitude : value x.digits = magnitude

theorem natural_rightTrim (digits : List (Digit build)) : (JSBigInt.mk digits false).rightTrim.Natural (value digits) := by
  refine ⟨canonical_rightTrim (fun _ => rfl), ?_, value_rightTrim _⟩
  rw [rightTrim]
  split
  · rfl
  · split <;> rfl

theorem digitBits_pos : 0 < build.digitBits := by
  have positive : 0 < build.halfDigitBits := halfDigitBits_pos
  rw [Build.digitBits]
  omega

theorem handled (op : Digit build → Digit build → Digit build) {first second : List (Digit build)} {numPairs : Nat}
    (extraDigits : ExtraDigitsHandling) (left : numPairs ≤ first.length) (right : numPairs ≤ second.length)
    (missing : ∀ index, numPairs ≤ index →
      op (first.getD index 0) (second.getD index 0) = if extraDigits = .Copy then first.getD index 0 else 0) :
    let digits := List.zipWith op (first.take numPairs) (second.take numPairs) ++
      if extraDigits = .Copy then first.drop numPairs else []
    digits.length = (if extraDigits = .Copy then first.length else numPairs) ∧
      ∀ index, digits.getD index 0 = op (first.getD index 0) (second.getD index 0) := by
  have pairs : (zipWith op (first.take numPairs) (second.take numPairs)).length = numPairs := by
    rw [length_zipWith, length_take_of_le left, length_take_of_le right, min_self]
  refine ⟨?_, ?_⟩
  · rw [length_append, pairs]
    split
    · rw [length_drop, Nat.add_sub_cancel' left]
    · rfl
  · intro index
    rw [getD_pairs left right]
    split
    · rfl
    · rename_i outside
      rw [missing index (Nat.le_of_not_lt outside)]
      split
      · rw [getD_eq_getElem?_getD, getElem?_drop, Nat.add_sub_cancel' (Nat.le_of_not_lt outside),
          getD_eq_getElem?_getD]
      · rfl

theorem bitwise_digits {extraDigits : ExtraDigitsHandling} {symmetric : SymmetricOp}
    {op : Digit build → Digit build → Digit build} (suits : Suits extraDigits symmetric op) (storage : Storage build)
    (x y : JSBigInt build) :
    ∃ digits, absoluteBitwiseOp storage x y extraDigits symmetric op = (JSBigInt.mk digits false).rightTrim ∧
      ∀ index, digits.getD index 0 = op (x.digits.getD index 0) (y.digits.getD index 0) := by
  have created (digits : List (Digit build)) {size : Nat} (all : digits.length = size) :
      createWithLengthUnchecked storage size (digits ++ replicate (size - digits.length) 0) = mk digits false := by
    rw [all, Nat.sub_self, replicate_zero, append_nil, createWithLengthUnchecked_eq all]
  simp only [absoluteBitwiseOp, Bool.and_eq_true, decide_eq_true_eq]
  by_cases shorter : x.length < y.length
  · cases symmetric with
    | Symmetric =>
      simp only [shorter, if_true, and_self]
      obtain ⟨size, each⟩ := handled op extraDigits (le_of_lt shorter) (le_refl x.length)
        (fun index outside => by rw [getD_of_le outside, suits.right])
      refine ⟨_, congrArg rightTrim (created _ size), fun index => ?_⟩
      rw [each]
      exact suits.left _ _
    | NotSymmetric =>
      simp only [shorter, reduceCtorEq]
      obtain ⟨size, each⟩ := handled op extraDigits (le_refl x.length) (le_of_lt shorter)
        (fun index outside => by rw [getD_of_le outside, suits.left, ite_self])
      exact ⟨_, congrArg rightTrim (created _ size), each⟩
  · simp only [shorter]
    obtain ⟨size, each⟩ := handled op extraDigits (Nat.le_of_not_lt shorter) (le_refl y.length)
      (fun index outside => by rw [getD_of_le outside, suits.right])
    exact ⟨_, congrArg rightTrim (created _ size), each⟩

variable {magnitude : Nat} {bit : Bool → Bool → Bool} {z : JSBigInt build}

theorem bitwise_natural {extraDigits : ExtraDigitsHandling} {symmetric : SymmetricOp}
    {op : Digit build → Digit build → Digit build} (suits : Suits extraDigits symmetric op) (bit : Bool → Bool → Bool)
    (bits : ∀ a b i, i < build.digitBits → (op a b).getLsbD i = bit (a.getLsbD i) (b.getLsbD i))
    (storage : Storage build) (x y : JSBigInt build)
    (exact : ∀ i, magnitude.testBit i = bit ((value x.digits).testBit i) ((value y.digits).testBit i)) :
    (absoluteBitwiseOp storage x y extraDigits symmetric op).Natural magnitude := by
  obtain ⟨digits, made, each⟩ := bitwise_digits suits storage x y
  have positive : 0 < build.digitBits := digitBits_pos
  have same : value digits = magnitude := by
    apply eq_of_testBit_eq
    intro i
    rw [exact, testBit_value positive, testBit_value positive, testBit_value positive, each,
      bits _ _ _ (mod_lt _ positive)]
  rw [made, ← same]
  exact natural_rightTrim digits

theorem suits_and : Suits .Skip .Symmetric (fun a b : Digit build => a &&& b) :=
  ⟨fun _ => BitVec.and_zero, BitVec.and_comm⟩

theorem suits_or : Suits .Copy .Symmetric (fun a b : Digit build => a ||| b) :=
  ⟨fun _ => BitVec.or_zero, BitVec.or_comm⟩

theorem suits_xor : Suits .Copy .Symmetric (fun a b : Digit build => a ^^^ b) :=
  ⟨fun _ => BitVec.xor_zero, BitVec.xor_comm⟩

theorem suits_andNot : Suits .Copy .NotSymmetric (fun a b : Digit build => a &&& ~~~b) := by
  constructor
  · simp
  · intro b
    exact BitVec.zero_and

variable (storage : Storage build)

section

variable (x y : JSBigInt build)

theorem absoluteAnd_natural : (absoluteAnd storage x y).Natural (value x.digits &&& value y.digits) :=
  bitwise_natural suits_and and (fun _ _ _ _ => BitVec.getLsbD_and) storage x y (fun i => testBit_and _ _ i)

theorem absoluteOr_natural : (absoluteOr storage x y).Natural (value x.digits ||| value y.digits) :=
  bitwise_natural suits_or or (fun _ _ _ _ => BitVec.getLsbD_or) storage x y (fun i => testBit_or _ _ i)

theorem absoluteXor_natural : (absoluteXor storage x y).Natural (value x.digits ^^^ value y.digits) :=
  bitwise_natural suits_xor xor (fun _ _ _ _ => BitVec.getLsbD_xor) storage x y (fun i => testBit_xor _ _ i)

theorem absoluteAndNot_natural :
    (absoluteAndNot storage x y).Natural (Nat.ldiff (value x.digits) (value y.digits)) := by
  have bits (a b : Digit build) (i : Nat) (inside : i < build.digitBits) :
      (a &&& ~~~b).getLsbD i = (a.getLsbD i && !b.getLsbD i) := by
    rw [BitVec.getLsbD_and, BitVec.getLsbD_not, decide_eq_true inside, Bool.true_and]
  exact bitwise_natural suits_andNot (fun a b => a && !b) bits storage x y (fun i => testBit_ldiff _ _ i)

end

theorem absoluteSubOne_natural {resultLength : Nat} (hx : x.Canonical) (some : x.digits ≠ [])
    (longer : x.length ≤ resultLength) :
    absoluteSubOne storage x resultLength = .error .OutOfMemoryError ∨
      ∃ result, absoluteSubOne storage x resultLength = .ok result ∧ result.Natural (value x.digits - 1) := by
  have roomy := room build
  have positive := hx.trimmed.value_pos some
  obtain ⟨size, total⟩ := subBorrow_spec (by omega) x.digits 1
  rw [toNat_one (by omega)] at total
  have none : (subBorrow x.digits 1).2 = 0 := by
    have bound := value_lt (subBorrow x.digits 1).1
    rw [size] at bound
    apply BitVec.eq_of_toNat_eq
    exact eq_zero_of_mul_lt ((2^build.digitBits)^x.digits.length) (by omega)
  rw [none] at total
  simp only [absoluteSubOne, none]
  have all : ((subBorrow x.digits 1).1 ++ replicate (resultLength - x.length) 0).length = resultLength := by
    rw [length_append, size, length_replicate, ← length]
    omega
  rcases tryCreateWithLength_cases storage all with failed | made
  · rw [failed]
    exact .inl rfl
  · rw [made]
    have trimmed := natural_rightTrim ((subBorrow x.digits 1).1 ++ replicate (resultLength - x.length) 0)
    rw [value_append, value_replicate_zero, Nat.eq_sub_of_add_eq total] at trimmed
    exact .inr ⟨_, rfl, trimmed⟩

theorem willOverflow_iff (digits : List (Digit build)) : digits.all (BitVec.allOnes _ == ·) = true ↔
      value digits + 1 = (2^build.digitBits)^digits.length := by
  rw [value_add_one_eq_iff, all_eq_true]
  exact forall₂_congr (fun digit _ => beq_iff_eq.trans eq_comm)

theorem absoluteAddOne_returns (x : JSBigInt build) (signOption : SignOption) :
    Returns (absoluteAddOne storage x signOption) (signed (signOption == .Signed) (value x.digits + 1))
      (x.digits.length + if value x.digits + 1 = (2^build.digitBits)^x.digits.length then 1 else 0) := by
  have roomy := room build
  obtain ⟨size, total⟩ := addCarry_spec (by omega) x.digits 1
  have bound := value_lt x.digits
  rw [toNat_one (by omega)] at total
  simp only [absoluteAddOne, willOverflow_iff]
  generalize addCarry x.digits 1 = result at *
  by_cases full : value x.digits + 1 = (2^build.digitBits)^x.digits.length
  · simp only [if_pos full, if_pos (lt_succ_self _)]
    have exact : value (result.1 ++ [result.2]) = value x.digits + 1 := by
      rw [value_append, value_singleton, size, total]
    have all : (result.1 ++ [result.2]).length = x.digits.length + 1 := by
      rw [length_append, length_singleton, size]
    rw [← exact]
    exact returns_trimmed _ all (succ_pos _)
  · have none : result.2.toNat = 0 := eq_zero_of_mul_lt ((2^build.digitBits)^x.digits.length) (by omega)
    have filled : 0 < x.digits.length := by
      by_contra empty
      rw [length_eq_zero_iff.mp (Nat.eq_zero_of_not_pos empty)] at full
      exact full rfl
    rw [none] at total
    simp only [if_neg full, add_zero, lt_irrefl]
    rw [← total]
    exact returns_trimmed _ size filled

theorem Canonical.filled (hx : x.Canonical) (negative : x.sign = true) : x.digits ≠ [] :=
  fun none => Bool.false_ne_true ((hx.positive none).symm.trans negative)

theorem testBit_toInt (hx : x.Canonical) (i : Nat) :
    x.toInt.testBit i = if x.sign then !(value x.digits - 1).testBit i else (value x.digits).testBit i := by
  rw [toInt]
  split_ifs with negative
  · obtain ⟨rest, whole⟩ : ∃ rest, value x.digits = rest + 1 :=
      exists_eq_succ_of_ne_zero (ne_of_gt (hx.trimmed.value_pos (hx.filled negative)))
    rw [whole]
    rfl
  · rfl

/-- A result whose bits, in two's complement of any width, are an operation on the bits of two numbers. -/
def HasBits (result : Except BigIntError (JSBigInt build)) (bit : Bool → Bool → Bool) (x y : JSBigInt build) : Prop :=
  result = .error .OutOfMemoryError ∨
    ∃ returned, result = .ok returned ∧ returned.Canonical ∧
      ∀ i, returned.toInt.testBit i = bit (x.toInt.testBit i) (y.toInt.testBit i)

theorem testBit_positive (hx : x.Canonical) (positive : x.sign = false) (i : Nat) :
    x.toInt.testBit i = (value x.digits).testBit i := by
  rw [testBit_toInt hx, positive]
  rfl

theorem Natural.testBit (hx : x.Natural magnitude) (i : Nat) : x.toInt.testBit i = magnitude.testBit i := by
  rw [testBit_positive hx.canonical hx.positive, hx.magnitude]

theorem hasBits_of_subOne {storage : Storage build} {resultLength : Nat}
    {next : JSBigInt build → Except BigIntError (JSBigInt build)} (hz : z.Canonical)
    (negative : z.sign = true) (longer : z.length ≤ resultLength)
    (rest : ∀ less : JSBigInt build, (∀ i, z.toInt.testBit i = !(value less.digits).testBit i) →
      HasBits (next less) bit x y) : HasBits ((absoluteSubOne storage z resultLength).bind next) bit x y := by
  rcases absoluteSubOne_natural storage hz (hz.filled negative) longer with failed | ⟨less, made, natural⟩
  · rw [failed]
    exact .inl rfl
  · rw [made]
    refine rest less fun i => ?_
    rw [testBit_toInt hz, if_pos negative, natural.magnitude]

theorem hasBits_of_addOne {storage : Storage build} (hz : z.Natural magnitude)
    (exact : ∀ i, (!magnitude.testBit i) = bit (x.toInt.testBit i) (y.toInt.testBit i)) :
    HasBits (absoluteAddOne storage z .Signed) bit x y := by
  have returned := absoluteAddOne_returns storage z .Signed
  rw [hz.magnitude] at returned
  cases outcome : absoluteAddOne storage z .Signed with
  | error error =>
    rw [outcome] at returned
    exact .inl (congrArg Except.error returned.1)
  | ok result =>
    rw [outcome] at returned
    refine .inr ⟨result, rfl, returned.1, fun i => ?_⟩
    rw [returned.2, ← exact]
    rfl

theorem hasBits_of_natural (hz : z.Natural magnitude)
    (exact : ∀ i, magnitude.testBit i = bit (x.toInt.testBit i) (y.toInt.testBit i)) : HasBits (.ok z) bit x y :=
  .inr ⟨z, rfl, hz.canonical, fun i => (hz.testBit i).trans (exact i)⟩

section Operations

variable (storage : Storage build) (hx : x.Canonical) (hy : y.Canonical)
include hx hy

theorem bitwiseAnd_hasBits : HasBits (bitwiseAnd storage x y) and x y := by
  rw [bitwiseAnd]
  cases sx : x.sign <;> cases sy : y.sign
  · apply hasBits_of_natural (absoluteAnd_natural storage x y)
    intro i
    rw [testBit_and, testBit_positive hx sx, testBit_positive hy sy]
  · apply hasBits_of_subOne hy sy (le_refl _)
    intro y1 hy1
    apply hasBits_of_natural (absoluteAndNot_natural storage x y1)
    intro i
    rw [testBit_ldiff, testBit_positive hx sx, hy1]
  · apply hasBits_of_subOne hx sx (le_refl _)
    intro y1 hy1
    apply hasBits_of_natural (absoluteAndNot_natural storage y y1)
    intro i
    rw [testBit_ldiff, testBit_positive hy sy, hy1, Bool.and_comm]
  · apply hasBits_of_subOne hx sx (by omega)
    intro result hresult
    apply hasBits_of_subOne hy sy (le_refl _)
    intro y1 hy1
    apply hasBits_of_addOne (absoluteOr_natural storage result y1)
    intro i
    rw [testBit_or, hresult, hy1, Bool.not_or]

theorem bitwiseOr_hasBits : HasBits (bitwiseOr storage x y) or x y := by
  rw [bitwiseOr]
  cases sx : x.sign <;> cases sy : y.sign
  · apply hasBits_of_natural (absoluteOr_natural storage x y)
    intro i
    rw [testBit_or, testBit_positive hx sx, testBit_positive hy sy]
  · apply hasBits_of_subOne hy sy (by omega)
    intro result hresult
    apply hasBits_of_addOne (absoluteAndNot_natural storage result x)
    intro i
    rw [testBit_ldiff, testBit_positive hx sx, hresult, Bool.not_and, Bool.not_not, Bool.or_comm]
  · apply hasBits_of_subOne hx sx (by omega)
    intro result hresult
    apply hasBits_of_addOne (absoluteAndNot_natural storage result y)
    intro i
    rw [testBit_ldiff, testBit_positive hy sy, hresult, Bool.not_and, Bool.not_not]
  · apply hasBits_of_subOne hx sx (by omega)
    intro result hresult
    apply hasBits_of_subOne hy sy (le_refl _)
    intro y1 hy1
    apply hasBits_of_addOne (absoluteAnd_natural storage result y1)
    intro i
    rw [testBit_and, hresult, hy1, Bool.not_and]

theorem bitwiseXor_hasBits : HasBits (bitwiseXor storage x y) xor x y := by
  rw [bitwiseXor]
  cases sx : x.sign <;> cases sy : y.sign
  · apply hasBits_of_natural (absoluteXor_natural storage x y)
    intro i
    rw [Nat.testBit_xor, testBit_positive hx sx, testBit_positive hy sy]
  · apply hasBits_of_subOne hy sy (by omega)
    intro result hresult
    apply hasBits_of_addOne (absoluteXor_natural storage result x)
    intro i
    rw [Nat.testBit_xor, testBit_positive hx sx, hresult, Bool.xor_not, Bool.xor_comm]
  · apply hasBits_of_subOne hx sx (by omega)
    intro result hresult
    apply hasBits_of_addOne (absoluteXor_natural storage result y)
    intro i
    rw [testBit_xor, testBit_positive hy sy, hresult, Bool.not_xor]
  · apply hasBits_of_subOne hx sx (by omega)
    intro result hresult
    apply hasBits_of_subOne hy sy (Nat.le_refl _)
    intro y1 hy1
    apply hasBits_of_natural (absoluteXor_natural storage result y1)
    intro i
    rw [testBit_xor, hresult, hy1, Bool.not_xor_not]

theorem bitwise_exact : HasBits (bitwiseAnd storage x y) and x y ∧ HasBits (bitwiseOr storage x y) or x y ∧
      HasBits (bitwiseXor storage x y) xor x y :=
  ⟨bitwiseAnd_hasBits storage hx hy, bitwiseOr_hasBits storage hx hy, bitwiseXor_hasBits storage hx hy⟩

end Operations

theorem bitwise_exact_minus_five_three : let x : JSBigInt ⟨true, true⟩ := ⟨[5], true⟩
    let y : JSBigInt ⟨true, true⟩ := ⟨[3], false⟩
    x.Canonical ∧ y.Canonical ∧
      HasBits (bitwiseAnd (fun _ => 1) x y) and x y ∧ HasBits (bitwiseOr (fun _ => 1) x y) or x y ∧
      HasBits (bitwiseXor (fun _ => 1) x y) xor x y := by
  have hx : (⟨[5], true⟩ : JSBigInt ⟨true, true⟩).Canonical := ⟨by decide, nofun⟩
  have hy : (⟨[3], false⟩ : JSBigInt ⟨true, true⟩).Canonical := ⟨by decide, nofun⟩
  exact ⟨hx, hy, bitwise_exact (fun _ => 1) hx hy⟩

end JSBigInt

end Odyssey.BigInt
