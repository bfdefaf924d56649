import Odyssey.BigInt.RingArithmetic
import Odyssey.BigInt.ShiftLoops

namespace Odyssey.BigInt

open Arithmetic

inductive LeftShiftMode where
  | SameSizeResult
  | AlwaysAddOneDigit
  deriving DecidableEq, Repr

section Rounds

variable (build : Build)

/-- The loop of `internalMultiplyAdd`: what it sets, the carry and the high digit behind it. -/
def multiplyAddDigits (factor : Digit build) :
    List (Digit build) → Digit build → Digit build → List (Digit build) × Digit build × Digit build
  | current :: source, carry, high =>
    let (current, newHigh) := digitMul build current factor
    let (current, newCarry) := digitAdd current high 0
    let (current, newCarry) := digitAdd current carry newCarry
    let (set, carry, high) := multiplyAddDigits factor source newCarry newHigh
    (current :: set, carry, high)
  | [], carry, high => ([], carry, high)

def internalMultiplyAdd (source : List (Digit build)) (factor summand : Digit build) (n length : Nat) :
    List (Digit build) :=
  let (set, carry, high) := multiplyAddDigits build factor (source.take n) summand 0
  if length > n then set ++ (carry + high) :: List.replicate (length - n - 1) 0 else set

def absoluteInplaceAdd (digits summand : List (Digit build)) (startIndex : Nat) : List (Digit build) × Digit build :=
  let (sums, carry) := addPairs ((digits.drop startIndex).take summand.length) summand 0
  (digits.take startIndex ++ sums ++ digits.drop (startIndex + summand.length), carry)

def absoluteInplaceSub (digits subtrahend : List (Digit build)) (startIndex : Nat) :
    List (Digit build) × Digit build :=
  let (differences, borrow) := subPairs ((digits.drop startIndex).take subtrahend.length) subtrahend 0
  (digits.take startIndex ++ differences ++ digits.drop (startIndex + subtrahend.length), borrow)

def inplaceRightShift (shift : Nat) (digits : List (Digit build)) : List (Digit build) :=
  if shift = 0 then digits else rightShifted shift digits

def correctEstimate (vn1 vn2 ujn2 : Digit build) : Nat → Digit build → Digit build → Digit build
  | 0, qhat, _ => qhat
  | rounds + 1, qhat, rhat =>
    if productGreaterThan build qhat vn2 rhat ujn2 then
      let qhat := qhat - 1
      let prevRhat := rhat
      let rhat := rhat + vn1
      if rhat < prevRhat then qhat else correctEstimate vn1 vn2 ujn2 rounds qhat rhat
    else qhat

/-- The estimate of a digit of the quotient; no more than two rounds of corrections are needed. -/
def estimate (divisor u : List (Digit build)) (j : Nat) : Digit build :=
  let n := divisor.length
  let vn1 := divisor.getD (n - 1) 0
  let ujn := u.getD (j + n) 0
  if ujn ≠ vn1 then
    let (qhat, rhat) := digitDiv build ujn (u.getD (j + n - 1) 0) vn1
    let vn2 := divisor.getD (n - 2) 0
    let ujn2 := u.getD (j + n - 2) 0
    correctEstimate build vn1 vn2 ujn2 2 qhat rhat
  else BitVec.allOnes _

def divisionRound (divisor u : List (Digit build)) (j : Nat) : Digit build × List (Digit build) :=
  let n := divisor.length
  let qhat := estimate build divisor u j
  let qhatv := internalMultiplyAdd build divisor qhat 0 n (n + 1)
  let (u, c) := absoluteInplaceSub build u qhatv j
  if c ≠ 0 then
    let (u, c) := absoluteInplaceAdd build u divisor j
    (qhat - 1, u.set (j + n) (u.getD (j + n) 0 + c))
  else (qhat, u)

/-- The iterations below some index: the digits of the quotient before the given ones, and the rest. -/
def divisionRounds (divisor : List (Digit build)) :
    Nat → List (Digit build) → List (Digit build) → List (Digit build) × List (Digit build)
  | 0, u, q => (q, u)
  | j + 1, u, q =>
    let (qhat, u) := divisionRound build divisor u j
    divisionRounds divisor j u (qhat :: q)

/-- The digits from the highest one on, which comes first here: the digits of the quotient, the lowest
    one first, and the remainder. -/
def divideDigits (divisor : Digit build) :
    List (Digit build) → Digit build → List (Digit build) → List (Digit build) × Digit build
  | digit :: digits, remainder, quotient =>
    let (q, remainder) := digitDiv build remainder digit divisor
    divideDigits divisor digits remainder (q :: quotient)
  | [], remainder, quotient => (quotient, remainder)

end Rounds

namespace JSBigInt

variable {build : Build} (storage : Storage build)

def absoluteLeftShiftAlwaysCopy (x : JSBigInt build) (shift : Nat) (mode : LeftShiftMode) :
    Except BigIntError (JSBigInt build) :=
  let n := x.length
  let resultLength := if mode = .AlwaysAddOneDigit then n + 1 else n
  let (shifted, carry) := if shift = 0 then (x.digits, 0) else shiftLeftDigits shift x.digits 0
  tryCreateWithLength storage resultLength (if mode = .AlwaysAddOneDigit then shifted ++ [carry] else shifted)

def absoluteDivWithDigitDivisor (x : JSBigInt build) (divisor : Digit build) : JSBigInt build × Digit build :=
  if divisor = 1 then (x, 0)
  else
    let (quotient, remainder) := divideDigits build divisor x.digits.reverse 0 []
    (createWithLengthUnchecked storage x.length quotient, remainder)

def normalizedDivisor (divisor : JSBigInt build) (shift : Nat) : Except BigIntError (JSBigInt build) :=
  if shift > 0 then absoluteLeftShiftAlwaysCopy storage divisor shift .SameSizeResult else .ok divisor

/-- The quotient and the remainder. A caller that has no use for one of them gives no place for it. -/
def absoluteDivWithBigIntDivisor (dividend divisor : JSBigInt build) :
    Except BigIntError (JSBigInt build × JSBigInt build) := do
  let n := divisor.length
  let m := dividend.length - n
  let _qhatv ← tryCreateWithLength storage (n + 1) []
  let shift := clz build (divisor.digits.getD (n - 1) 0)
  let divisor ← normalizedDivisor storage divisor shift
  let u ← absoluteLeftShiftAlwaysCopy storage dividend shift .AlwaysAddOneDigit
  let (q, u) := divisionRounds build divisor.digits (m + 1) u.digits []
  pure (createWithLengthUnchecked storage (m + 1) q, { digits := inplaceRightShift build shift u })

def divide (x y : JSBigInt build) : Except BigIntError (JSBigInt build) :=
  if y.isZero then .error (.RangeError "0 is an invalid divisor value.")
  else if absoluteCompare x y = .LessThan then .ok createZero
  else
    let resultSign := x.sign != y.sign
    if y.length = 1 then
      let divisor := y.digits.getD 0 0
      if divisor = 1 then .ok (if resultSign = x.sign then x else x.unaryMinus)
      else .ok ((absoluteDivWithDigitDivisor storage x divisor).1.setSign resultSign).rightTrim
    else (absoluteDivWithBigIntDivisor storage x y).map (fun result => (result.1.setSign resultSign).rightTrim)

def remainder (x y : JSBigInt build) : Except BigIntError (JSBigInt build) :=
  if y.isZero then .error (.RangeError "0 is an invalid divisor value.")
  else if absoluteCompare x y = .LessThan then .ok x
  else if y.length = 1 then
    let divisor := y.digits.getD 0 0
    if divisor = 1 then .ok createZero
    else
      let remainderDigit := (absoluteDivWithDigitDivisor storage x divisor).2
      if remainderDigit = 0 then .ok createZero
      else .ok ((createWithLengthUnchecked storage 1 [remainderDigit]).setSign x.sign).rightTrim
  else (absoluteDivWithBigIntDivisor storage x y).map (fun result => (result.2.setSign x.sign).rightTrim)

end JSBigInt

end Odyssey.BigInt
