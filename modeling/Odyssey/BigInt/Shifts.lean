import Odyssey.BigInt.Bitwise

namespace Odyssey.BigInt

open Arithmetic

namespace JSBigInt

variable {build : Build}

section Creation

variable (storage : Storage build)

def createFromInt32 (value : BitVec 32) : JSBigInt build :=
  if value = 0 then createZero
  else if value.toInt < 0 then
    (createWithLengthUnchecked storage 1 [BitVec.ofInt build.digitBits (-1 * value.toInt)]).setSign true
  else createWithLengthUnchecked storage 1 [BitVec.ofInt build.digitBits value.toInt]

def createFromUInt32 (value : BitVec 32) : JSBigInt build :=
  if value = 0 then createZero
  else createWithLengthUnchecked storage 1 [value.setWidth build.digitBits]

/-- The magnitude of a negative value is taken from one more than it, which does not overflow. -/
def createFromInt64 (value : BitVec 64) : JSBigInt build :=
  if value = 0 then createZero
  else
    let sign := decide (value.toInt < 0)
    let tempValue := if sign then -(value + 1) + 1 else value
    if build.wide then
      (createWithLengthUnchecked storage 1 [tempValue.setWidth build.digitBits]).setSign sign
    else
      let lowBits := (tempValue &&& 0xffffffff).setWidth build.digitBits
      let highBits := ((tempValue >>> 32) &&& 0xffffffff).setWidth build.digitBits
      (createWithLengthUnchecked storage 2 [lowBits, highBits]).setSign sign

def createFromBool (value : Bool) : JSBigInt build :=
  if value then createWithLengthUnchecked storage 1 [1] else createZero

end Creation

def toShiftAmount (x : JSBigInt build) : Option (Digit build) :=
  if x.length > 1 then none
  else
    let value := x.digits.getD 0 0
    if value.toNat > build.maxLengthBits then none else some value

def tooBig : BigIntError := .RangeError "BigInt generated from this operation is too big"

variable (storage : Storage build) (x y : JSBigInt build)

def leftShiftByAbsolute : Except BigIntError (JSBigInt build) :=
  match toShiftAmount y with
  | none => .error tooBig
  | some shift =>
    let digitShift := shift.toNat / build.digitBits
    let bitsShift := shift.toNat % build.digitBits
    let length := x.length
    let grow := bitsShift != 0 && x.digits.getD (length - 1) 0 >>> (build.digitBits - bitsShift) != 0
    let resultLength := length + digitShift + if grow then 1 else 0
    if resultLength > build.maxLength then .error tooBig
    else
      let (shifted, carry) := if bitsShift = 0 then (x.digits, 0) else shiftLeftDigits bitsShift x.digits 0
      let digits := List.replicate digitShift 0 ++ shifted ++ if grow then [carry] else []
      (tryCreateWithLength storage resultLength digits).map (fun result => (result.setSign x.sign).rightTrim)

def rightShiftByMaximum (sign : Bool) : JSBigInt build :=
  if sign then createFromInt32 storage (-1) else createZero

def rightShiftByAbsolute : Except BigIntError (JSBigInt build) :=
  match toShiftAmount y with
  | none => .ok (rightShiftByMaximum storage x.sign)
  | some shift =>
    let digitalShift := shift.toNat / build.digitBits
    let bitsShift := shift.toNat % build.digitBits
    let length := x.length
    if length ≤ digitalShift then .ok (rightShiftByMaximum storage x.sign)
    else
      let mask := (1 : Digit build) <<< bitsShift - 1
      let mustRoundDown := x.sign &&
        (x.digits.getD digitalShift 0 &&& mask != 0 || (x.digits.take digitalShift).any (· != 0))
      let msd := x.digits.getD (length - 1) 0
      let roundingCanOverflow := ~~~msd == 0
      -- the digit that is added for an overflow is not set below
      let resultLength := length - digitalShift +
        if mustRoundDown && bitsShift == 0 && roundingCanOverflow then 1 else 0
      let digits :=
        if bitsShift = 0 then x.digits.drop digitalShift else rightShifted bitsShift (x.digits.drop digitalShift)
      let result := (createWithLengthUnchecked storage resultLength digits).setSign x.sign
      if mustRoundDown then absoluteAddOne storage result.rightTrim .Signed else .ok result.rightTrim

def leftShift : Except BigIntError (JSBigInt build) :=
  if y.isZero || x.isZero then .ok x
  else if y.sign then rightShiftByAbsolute storage x y
  else leftShiftByAbsolute storage x y

def signedRightShift : Except BigIntError (JSBigInt build) :=
  if y.isZero || x.isZero then .ok x
  else if y.sign then leftShiftByAbsolute storage x y
  else rightShiftByAbsolute storage x y

end JSBigInt

end Odyssey.BigInt
