import Odyssey.BigInt.CanonicalForm
import Odyssey.Collections.HashMapImpl
import Odyssey.IndexedDB.KeyOrderLaws

namespace Odyssey.Collections

open BigInt IndexedDB Nat

/-- What the functions of keys see of a cell. A rope is a string that is not put together yet. -/
inductive JSCell (build : Build) where
  | string (units : List UInt16) (isRope : Bool)
  | bigInt (value : JSBigInt build) (canonical : value.Canonical)
  | symbol
  | object

/-- Doubles are kept as their bits. -/
inductive JSValue where
  | int32 (value : Int32)
  | double (bits : UInt64)
  | cell (address : UInt64)
  | boolean (value : Bool)
  | null
  | undefined
  deriving DecidableEq

/-- The conversion of an integer to a double is exact. -/
def toDouble (value : Int32) : UInt64 :=
  let magnitude := value.toInt.natAbs
  if magnitude = 0 then 0
  else UInt64.ofNat ((if value.toInt < 0 then 2^63 else 0) + (1022 + magnitude.log2) * 2^52 +
    magnitude * 2^(52 - magnitude.log2))

/-- The conversion of a double drops the fraction. If the integer is not in the range the machine gives
    some other one. -/
def castToInt (undefinedCast : UInt64 → Int32) (bits : UInt64) : Int32 :=
  let magnitude := bits.toNat % 2^63
  let exponent := magnitude / 2^52
  let whole : Nat := if exponent < 1023 then 0 else (2^52 + magnitude % 2^52) / 2^(1075 - exponent)
  let integer : Int := if bits.toNat < 2^63 then whole else -whole
  if -2^31 ≤ integer ∧ integer < 2^31 then Int32.ofInt integer else undefinedCast bits

namespace JSValue

def asNumber : JSValue → Option UInt64
  | int32 value => some (toDouble value)
  | double bits => some bits
  | _ => none

variable {build : Build} (heap : UInt64 → JSCell build)

def strictEqualSlowCase (v1 v2 : UInt64) : Bool :=
  match heap v1, heap v2 with
  | .string first _, .string second _ => first == second
  | .bigInt first _, .bigInt second _ => first.equals second
  | _, _ => v1 == v2

def strictEqual (v1 v2 : JSValue) : Bool :=
  match v1, v2 with
  | int32 value1, int32 value2 => value1 == value2
  | cell address1, cell address2 => strictEqualSlowCase heap address1 address2
  | _, _ =>
    match v1.asNumber, v2.asNumber with
    | some number1, some number2 => doubleEqual number1 number2
    | _, _ => v1 == v2

def sameValue (a b : JSValue) : Bool :=
  match a.asNumber, b.asNumber with
  | none, _ => strictEqual heap a b
  | some _, none => false
  | some x, some y => if isNaN x || isNaN y then isNaN x && isNaN y else x == y

end JSValue

def wangsInt64Hash (key : UInt64) : UInt32 :=
  let key := key + ~~~(key <<< 32)
  let key := key ^^^ (key >>> 22)
  let key := key + ~~~(key <<< 13)
  let key := key ^^^ (key >>> 8)
  let key := key + (key <<< 3)
  let key := key ^^^ (key >>> 15)
  let key := key + ~~~(key <<< 27)
  let key := key ^^^ (key >>> 31)
  key.toUInt32

/-- The hashes of an encoded value and of a string. -/
structure KeyHasher where
  ofBits : UInt64 → UInt32
  ofString : List UInt16 → UInt32

def keyHasher : KeyHasher := ⟨wangsInt64Hash, StringHasher.computeHashAndMaskTop8Bits⟩

/-- `JSValue::encode`, which keeps the address of a cell and the bits of a double. -/
structure ValueEncoding where
  encode : JSValue → UInt64
  cell_inj : ∀ first second, encode (.cell first) = encode (.cell second) → first = second
  double_inj : ∀ x y, encode (.double x) = encode (.double y) → x = y

/-- The encoding of builds with 64 bits. -/
def encoding64 : ValueEncoding where
  encode
    | .int32 value => 0xffff000000000000 ||| value.toUInt32.toUInt64
    | .double bits => bits + 0x1000000000000
    | .cell address => address
    | .boolean value => if value then 0x07 else 0x06
    | .null => 0x02
    | .undefined => 0x0a
  cell_inj := fun _ _ same => same
  double_inj := fun _ _ same => UInt64.add_left_inj _ |>.mp same

section Keys

variable {build : Build} (heap : UInt64 → JSCell build) (undefinedCast : UInt64 → Int32)
  (encoding : ValueEncoding) (hasher : KeyHasher)

def areKeysEqual (a b : JSValue) : Bool := JSValue.sameValue heap a b

def normalizeMapKey (key : JSValue) : JSValue :=
  match key with
  | .double d =>
    if isNaN d then key
    else
      let i := castToInt undefinedCast d
      if doubleEqual (toDouble i) d then .int32 i else key
  | _ => key

def asString : JSValue → Option (List UInt16 × Bool)
  | .cell address =>
    match heap address with
    | .string units isRope => some (units, isRope)
    | _ => none
  | _ => none

/-- A rope is put together first, which does not fail here. -/
def jsMapHash (value : JSValue) : UInt32 :=
  match asString heap value with
  | some (units, _) => hasher.ofString units
  | none => hasher.ofBits (encoding.encode value)

def concurrentJSMapHash (key : JSValue) : Option UInt32 :=
  let key := normalizeMapKey undefinedCast key
  match asString heap key with
  | some (units, isRope) =>
    if units.length > 10 * 1024 then none
    else if isRope then none
    else some (hasher.ofString units)
  | none => some (hasher.ofBits (encoding.encode key))

def SameContent (first second : UInt64) : Prop :=
  match heap first, heap second with
  | .string units _, .string units' _ => units = units'
  | .bigInt value _, .bigInt value' _ => value.toInt = value'.toInt
  | _, _ => False

/-- The equality of the language: numbers by value, with one zero and one NaN, strings and BigInts by
    value, and everything else by identity. -/
def SameValueZero (a b : JSValue) : Prop :=
  match a.asNumber, b.asNumber with
  | some x, some y => isNaN x ∧ isNaN y ∨ doubleEqual x y
  | none, none => a = b ∨ ∃ first second, a = .cell first ∧ b = .cell second ∧ SameContent heap first second
  | _, _ => False

/-- Two NaNs with different bits, or two cells with one BigInt. -/
def DifferInBits (a b : JSValue) : Prop :=
  match a, b with
  | .double x, .double y => isNaN x ∧ isNaN y ∧ x ≠ y
  | .cell first, .cell second =>
    match heap first, heap second with
    | .bigInt value _, .bigInt value' _ => first ≠ second ∧ value.toInt = value'.toInt
    | _, _ => False
  | _, _ => False

end Keys

theorem toDouble_fields {value : Int32} (nonzero : value.toInt ≠ 0) : ∃ exponent fraction, exponent ≤ 31 ∧
    fraction < 2^52 ∧ 2^52 + fraction = value.toInt.natAbs * 2^(52 - exponent) ∧
    (toDouble value).toNat = (if value.toInt < 0 then 2^63 else 0) + ((1023 + exponent) * 2^52 + fraction) := by
  have low := value.le_toInt
  have high := value.toInt_lt
  have some : value.toInt.natAbs ≠ 0 := by omega
  have bounds : 2^value.toInt.natAbs.log2 ≤ value.toInt.natAbs ∧
      value.toInt.natAbs < 2^(value.toInt.natAbs.log2 + 1) :=
    ⟨Nat.log2_self_le some, Nat.lt_log2_self⟩
  have small : value.toInt.natAbs.log2 ≤ 31 := by
    apply Nat.lt_succ_iff.mp
    rw [log2_lt some]
    omega
  rw [toDouble, if_neg some]
  generalize value.toInt.natAbs.log2 = exponent at *
  have scale : 2^(52 - exponent) * 2^exponent = 2^52 := by rw [← pow_add, Nat.sub_add_cancel (by omega)]
  have least := mul_le_mul_left (2^(52 - exponent)) bounds.1
  have most := mul_lt_mul_of_pos_left bounds.2 (Nat.two_pow_pos (52 - exponent))
  rw [pow_succ, ← mul_assoc] at most
  rw [scale, mul_comm] at least most
  refine ⟨exponent, value.toInt.natAbs * 2^(52 - exponent) - 2^52, small, by omega, by omega, ?_⟩
  rw [UInt64.toNat_ofNat', mod_eq_of_lt (by split <;> omega)]
  omega

theorem toDouble_zero {value : Int32} (zero : value.toInt = 0) : value = 0 := Int32.toInt_inj.mp zero

theorem castToInt_toDouble (undefinedCast : UInt64 → Int32) (value : Int32) :
    castToInt undefinedCast (toDouble value) = value := by
  by_cases zero : value.toInt = 0
  · rw [toDouble_zero zero]
    rfl
  · obtain ⟨exponent, fraction, small, below, significand, fields⟩ := toDouble_fields zero
    have low := value.le_toInt
    have high := value.toInt_lt
    have magnitude : (toDouble value).toNat % 2^63 = (1023 + exponent) * 2^52 + fraction := by
      rw [fields]
      split <;> omega
    have exponentIs : ((1023 + exponent) * 2^52 + fraction) / 2^52 = 1023 + exponent := by omega
    have fractionIs : ((1023 + exponent) * 2^52 + fraction) % 2^52 = fraction := by omega
    have whole : (if 1023 + exponent < 1023 then 0 else (2^52 + fraction) / 2^(1075 - (1023 + exponent))) =
        value.toInt.natAbs := by
      have places : 1075 - (1023 + exponent) = 52 - exponent := by omega
      rw [if_neg (by omega), places, significand, Nat.mul_div_cancel _ (Nat.two_pow_pos _)]
    have integer : (if (toDouble value).toNat < 2^63 then (value.toInt.natAbs : Int)
        else -value.toInt.natAbs) = value.toInt := by
      split <;> split at * <;> omega
    simp only [castToInt, magnitude, exponentIs, fractionIs, whole, integer]
    rw [if_pos (by omega), Int32.ofInt_toInt]

theorem toDouble_bits (value : Int32) :
    isNaN (toDouble value) = false ∧ positiveZero (toDouble value) = toDouble value := by
  by_cases zero : value.toInt = 0
  · rw [toDouble_zero zero]
    decide
  · obtain ⟨exponent, fraction, small, below, -, fields⟩ := toDouble_fields zero
    have negative : toDouble value ≠ 0x8000000000000000 := by
      intro same
      have bits : (0x8000000000000000 : UInt64).toNat = 2^63 := rfl
      rw [same] at fields
      split at fields <;> omega
    rw [positiveZero, if_neg negative, isNaN, fields]
    refine ⟨decide_eq_false ?_, rfl⟩
    split <;> omega

variable {build : Build} {heap : UInt64 → JSCell build} {undefinedCast : UInt64 → Int32} {x y : UInt64}

theorem doubleEqual_iff : doubleEqual x y = true ↔
    isNaN x = false ∧ isNaN y = false ∧ positiveZero x = positiveZero y := by
  simp [doubleEqual, doubleRank_eq_iff, and_assoc]

theorem normalizeMapKey_int {value : Int32} (cast : castToInt undefinedCast x = value)
    (equal : doubleEqual (toDouble value) x = true) : normalizeMapKey undefinedCast (.double x) = .int32 value := by
  simp [normalizeMapKey, cast, equal, (doubleEqual_iff.mp equal).2.1]

theorem normalizeMapKey_number {key : JSValue} (number : key.asNumber = some x) :
    normalizeMapKey undefinedCast key = normalizeMapKey undefinedCast (.double x) := by
  cases key with
  | int32 value =>
    cases number
    have real := (toDouble_bits value).1
    exact (normalizeMapKey_int (castToInt_toDouble _ value) (doubleEqual_iff.mpr ⟨real, real, rfl⟩)).symm
  | double bits =>
    cases number
    rfl
  | _ => cases number

theorem normalizeMapKey_other {key : JSValue} (other : key.asNumber = none) :
    normalizeMapKey undefinedCast key = key := by
  cases key with
  | double bits => cases other
  | _ => rfl

theorem normalizeMapKey_positiveZero (real : isNaN x = false) :
    normalizeMapKey undefinedCast (.double x) = normalizeMapKey undefinedCast (.double (positiveZero x)) ∧
      (normalizeMapKey undefinedCast (.double x)).asNumber = some (positiveZero x) := by
  by_cases zero : x = 0x8000000000000000
  · have minus := @normalizeMapKey_int undefinedCast 0x8000000000000000 0 rfl (by decide)
    have plus := @normalizeMapKey_int undefinedCast 0 0 rfl (by decide)
    rw [zero, minus]
    exact ⟨plus.symm, rfl⟩
  · have same : positiveZero x = x := if_neg zero
    rw [same]
    refine ⟨rfl, ?_⟩
    by_cases whole : doubleEqual (toDouble (castToInt undefinedCast x)) x = true
    · have equal := (doubleEqual_iff.mp whole).2.2
      rw [(toDouble_bits _).2, same] at equal
      rw [normalizeMapKey_int rfl whole, JSValue.asNumber, equal]
    · simp [normalizeMapKey, real, whole, JSValue.asNumber]

theorem asNumber_normalizeMapKey {key : JSValue} (number : key.asNumber = some x) :
    (normalizeMapKey undefinedCast key).asNumber = some (if isNaN x then x else positiveZero x) := by
  rw [normalizeMapKey_number number]
  split_ifs with nan
  · simp [normalizeMapKey, nan, JSValue.asNumber]
  · exact (normalizeMapKey_positiveZero (Bool.not_eq_true _ ▸ nan)).2

theorem areKeysEqual_numbers {a b : JSValue} (first : a.asNumber = some x) (second : b.asNumber = some y) :
    areKeysEqual heap (normalizeMapKey undefinedCast a) (normalizeMapKey undefinedCast b) = true ↔
      isNaN x = true ∧ isNaN y = true ∨ doubleEqual x y = true := by
  rw [areKeysEqual, JSValue.sameValue, asNumber_normalizeMapKey first, asNumber_normalizeMapKey second,
    doubleEqual_iff]
  cases nanX : isNaN x <;> cases nanY : isNaN y <;> simp [isNaN_positiveZero, nanX, nanY]

theorem strictEqualSlowCase_iff {first second : UInt64} :
    JSValue.strictEqualSlowCase heap first second = true ↔ first = second ∨ SameContent heap first second := by
  rw [JSValue.strictEqualSlowCase, SameContent]
  by_cases same : first = second
  · rw [same]
    cases heap second <;> simp [JSBigInt.equals_iff]
  · rw [or_iff_right same]
    cases heap first with
    | bigInt value canonical =>
      cases heap second with
      | bigInt value' canonical' =>
        exact JSBigInt.equals_iff.trans ⟨congrArg _, JSBigInt.eq_of_toInt_eq canonical canonical'⟩
      | _ => simp [same]
    | _ => cases heap second <;> simp [same]

theorem strictEqual_others {a b : JSValue} (first : a.asNumber = none) :
    JSValue.strictEqual heap a b = true ↔ SameValueZero heap a b := by
  cases a with
  | int32 | double => cases first
  | cell address =>
    cases b with
    | cell other => simp [JSValue.strictEqual, strictEqualSlowCase_iff, SameValueZero, JSValue.asNumber]
    | _ => simp [JSValue.strictEqual, SameValueZero, JSValue.asNumber]
  | _ => cases b <;> simp [JSValue.strictEqual, SameValueZero, JSValue.asNumber]

theorem eq_double_of_isNaN {key : JSValue} (number : key.asNumber = some x) (nan : isNaN x = true) :
    key = .double x := by
  cases key with
  | int32 value =>
    cases number
    rw [(toDouble_bits value).1] at nan
    cases nan
  | double bits =>
    cases number
    rfl
  | _ => cases number

section Equality

variable {a b c : JSValue}

theorem areKeysEqual_iff :
    areKeysEqual heap (normalizeMapKey undefinedCast a) (normalizeMapKey undefinedCast b) = true ↔
      SameValueZero heap a b := by
  cases first : a.asNumber with
  | none =>
    rw [normalizeMapKey_other first, areKeysEqual, JSValue.sameValue, first]
    refine (strictEqual_others first).trans ?_
    cases second : b.asNumber with
    | none => rw [normalizeMapKey_other second]
    | some y => simp [SameValueZero, first, second, asNumber_normalizeMapKey second]
  | some x =>
    cases second : b.asNumber with
    | none => simp [areKeysEqual, JSValue.sameValue, asNumber_normalizeMapKey first,
        normalizeMapKey_other second, second, SameValueZero, first]
    | some y => rw [areKeysEqual_numbers first second, SameValueZero, first, second]

theorem SameContent.symm {first second : UInt64} (same : SameContent heap first second) :
    SameContent heap second first := by
  unfold SameContent at *
  generalize heap first = one at *
  generalize heap second = two at *
  cases one <;> cases two <;> simp_all

theorem SameContent.trans {first second third : UInt64} (left : SameContent heap first second)
    (right : SameContent heap second third) : SameContent heap first third := by
  unfold SameContent at *
  generalize heap first = one at *
  generalize heap second = two at *
  generalize heap third = three at *
  cases one <;> cases two <;> cases three <;> simp_all

theorem SameValueZero.refl (a : JSValue) : SameValueZero heap a a := by
  unfold SameValueZero
  cases a.asNumber with
  | none => exact .inl rfl
  | some x => cases nan : isNaN x <;> simp [doubleEqual_iff, nan]

theorem SameValueZero.symm (same : SameValueZero heap a b) : SameValueZero heap b a := by
  unfold SameValueZero at *
  cases first : a.asNumber <;> cases second : b.asNumber <;> simp only [first, second, doubleEqual_iff] at same ⊢
  · rcases same with rfl | ⟨one, two, rfl, rfl, content⟩
    · exact .inl rfl
    · exact .inr ⟨two, one, rfl, rfl, content.symm⟩
  · rcases same with nan | ⟨realX, realY, zeros⟩
    · exact .inl nan.symm
    · exact .inr ⟨realY, realX, zeros.symm⟩

theorem SameValueZero.trans (left : SameValueZero heap a b) (right : SameValueZero heap b c) :
    SameValueZero heap a c := by
  unfold SameValueZero at *
  cases first : a.asNumber <;> cases second : b.asNumber <;> cases third : c.asNumber <;>
    simp only [first, second, third, doubleEqual_iff] at left right ⊢
  · rcases left with rfl | ⟨one, two, rfl, rfl, content⟩
    · exact right
    · rcases right with rfl | ⟨two', three, same, rfl, content'⟩
      · exact .inr ⟨one, two, rfl, rfl, content⟩
      · cases same
        exact .inr ⟨one, three, rfl, rfl, content.trans content'⟩
  · rcases left with nan | ⟨realX, realY, zeros⟩
    · exact .inl ⟨nan.1, right.elim And.right (fun real => absurd nan.2 (by simp [real.1]))⟩
    · rcases right with nan | ⟨_, realZ, zeros'⟩
      · exact absurd nan.1 (by simp [realY])
      · exact .inr ⟨realX, realZ, zeros.trans zeros'⟩

end Equality

/-- The keys of the maps and sets of the source. -/
def jsKeys (heap : UInt64 → JSCell build) (undefinedCast : UInt64 → Int32) (encoding : ValueEncoding)
    (hasher : KeyHasher) : KeyTraits JSValue where
  normalizeMapKey := normalizeMapKey undefinedCast
  jsMapHash := fun key => (jsMapHash heap encoding hasher key).toBitVec
  areKeysEqual := areKeysEqual heap
  refl := fun key => areKeysEqual_iff.mpr (.refl key)
  symm := fun _ _ equal => areKeysEqual_iff.mpr (areKeysEqual_iff.mp equal).symm
  trans := fun _ _ _ left right =>
    areKeysEqual_iff.mpr ((areKeysEqual_iff.mp left).trans (areKeysEqual_iff.mp right))

section Hashes

variable {encoding : ValueEncoding} {a b : JSValue}

theorem sameValueZero_of_differInBits (differ : DifferInBits heap a b) : SameValueZero heap a b := by
  unfold DifferInBits at differ
  split at differ
  · exact .inl ⟨differ.1, differ.2.1⟩
  · rename_i first second
    split at differ
    · rename_i one two
      refine .inr ⟨first, second, rfl, rfl, ?_⟩
      rw [SameContent, one, two]
      exact differ.2
    · cases differ
  · cases differ

theorem encode_ne_of_differInBits (differ : DifferInBits heap a b) :
    encoding.encode a ≠ encoding.encode b ∧ ∀ key ∈ [a, b], normalizeMapKey undefinedCast key = key ∧
      asString heap key = none := by
  unfold DifferInBits at differ
  split at differ
  · obtain ⟨nanX, nanY, apart⟩ := differ
    exact ⟨fun same => apart (encoding.double_inj _ _ same), by simp [normalizeMapKey, nanX, nanY, asString]⟩
  · split at differ
    · rename_i one two
      exact ⟨fun same => differ.1 (encoding.cell_inj _ _ same), by simp [normalizeMapKey, asString, one, two]⟩
    · cases differ
  · cases differ

theorem jsMapHash_sameContent {first second : UInt64} {hasher : KeyHasher}
    (alike : ¬DifferInBits heap (.cell first) (.cell second)) (same : SameContent heap first second) :
    jsMapHash heap encoding hasher (.cell first) = jsMapHash heap encoding hasher (.cell second) := by
  rw [SameContent] at same
  split at same
  · rename_i one two
    simp [jsMapHash, asString, one, two, same]
  · rename_i one two
    simp only [DifferInBits, one, two, not_and] at alike
    rw [of_not_not (fun apart => alike apart same)]
  · cases same

theorem jsMapHash_sameValueZero {hasher : KeyHasher} (alike : ¬DifferInBits heap a b)
    (same : SameValueZero heap a b) : jsMapHash heap encoding hasher (normalizeMapKey undefinedCast a) =
      jsMapHash heap encoding hasher (normalizeMapKey undefinedCast b) := by
  cases first : a.asNumber with
  | none =>
    cases second : b.asNumber with
    | none =>
      simp only [SameValueZero, first, second] at same
      rcases same with rfl | ⟨one, two, rfl, rfl, content⟩
      · rfl
      · exact jsMapHash_sameContent alike content
    | some y => simp [SameValueZero, first, second] at same
  | some x =>
    cases second : b.asNumber with
    | none => simp [SameValueZero, first, second] at same
    | some y =>
      simp only [SameValueZero, first, second] at same
      rcases same with nan | equal
      · rw [eq_double_of_isNaN first nan.1, eq_double_of_isNaN second nan.2] at alike ⊢
        simp only [DifferInBits, nan.1, nan.2, true_and, not_not] at alike
        rw [alike]
      · obtain ⟨realX, realY, zeros⟩ := doubleEqual_iff.mp equal
        rw [normalizeMapKey_number first, normalizeMapKey_number second,
          (normalizeMapKey_positiveZero realX).1, (normalizeMapKey_positiveZero realY).1, zeros]

end Hashes

def sameLetters (address : UInt64) : JSCell ⟨true, false⟩ :=
  .string [0x61, 0x62] (address == 16)

end Odyssey.Collections
