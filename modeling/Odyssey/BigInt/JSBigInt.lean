import Odyssey.BigInt.Digits

namespace Odyssey.BigInt

open Arithmetic

structure JSBigInt (build : Build) where
  digits : List (Digit build)
  sign : Bool := false
  deriving DecidableEq, Repr

inductive BigIntError where
  | OutOfMemoryError
  | RangeError (message : String)
  | SyntaxError (message : String)
  deriving DecidableEq, Repr

/-- What the digits of a cell hold before they are set. -/
abbrev Storage (build : Build) := Nat → Digit build

inductive ComparisonResult where
  | Equal
  | Undefined
  | GreaterThan
  | LessThan
  deriving DecidableEq, Repr

section Loops

variable {w : Nat}

/-- The loop over the pairs of digits: the sums, and the carry behind them. -/
def addPairs : List (BitVec w) → List (BitVec w) → BitVec w → List (BitVec w) × BitVec w
  | x :: xs, y :: ys, carry =>
    let (sum, newCarry) := digitAdd x y 0
    let (sum, newCarry) := digitAdd sum carry newCarry
    let (sums, carry) := addPairs xs ys newCarry
    (sum :: sums, carry)
  | _, _, carry => ([], carry)

def addCarry : List (BitVec w) → BitVec w → List (BitVec w) × BitVec w
  | x :: xs, carry =>
    let (sum, newCarry) := digitAdd x carry 0
    let (sums, carry) := addCarry xs newCarry
    (sum :: sums, carry)
  | [], carry => ([], carry)

def subPairs : List (BitVec w) → List (BitVec w) → BitVec w → List (BitVec w) × BitVec w
  | x :: xs, y :: ys, borrow =>
    let (difference, newBorrow) := digitSub x y 0
    let (difference, newBorrow) := digitSub difference borrow newBorrow
    let (differences, borrow) := subPairs xs ys newBorrow
    (difference :: differences, borrow)
  | _, _, borrow => ([], borrow)

def subBorrow : List (BitVec w) → BitVec w → List (BitVec w) × BitVec w
  | x :: xs, borrow =>
    let (difference, newBorrow) := digitSub x borrow 0
    let (differences, borrow) := subBorrow xs newBorrow
    (difference :: differences, borrow)
  | [], borrow => ([], borrow)

def addDigits (xs ys : List (BitVec w)) : List (BitVec w) :=
  let (low, carry) := addPairs (xs.take ys.length) ys 0
  let (high, carry) := addCarry (xs.drop ys.length) carry
  low ++ high ++ [carry]

def subDigits (xs ys : List (BitVec w)) : List (BitVec w) × BitVec w :=
  let (low, borrow) := subPairs (xs.take ys.length) ys 0
  let (high, borrow) := subBorrow (xs.drop ys.length) borrow
  (low ++ high, borrow)

/-- The digits from the highest one on, down to the first that differs. -/
def compareDigits : List (BitVec w) → List (BitVec w) → ComparisonResult
  | x :: xs, y :: ys =>
    if x = y then compareDigits xs ys else if x > y then .GreaterThan else .LessThan
  | _, _ => .Equal

end Loops

namespace JSBigInt

variable {build : Build} (x : JSBigInt build)

def length (x : JSBigInt build) : Nat := x.digits.length

def isZero : Bool := x.length == 0

def setSign (sign : Bool) : JSBigInt build := { x with sign := sign }

def createZero : JSBigInt build := { digits := [] }

variable (storage : Storage build)

/-- A cell of some length whose digits are set from the lowest one on. Those that are not set are
    what the storage held. -/
def createWithLengthUnchecked (length : Nat) (digits : List (Digit build)) : JSBigInt build :=
  { digits := digits ++ ((List.range length).map storage).drop digits.length }

def tryCreateWithLength (length : Nat) (digits : List (Digit build)) : Except BigIntError (JSBigInt build) :=
  if length > build.maxLength then .error .OutOfMemoryError
  else .ok (createWithLengthUnchecked storage length digits)

def rightTrim : JSBigInt build :=
  if x.isZero then x
  else if trim x.digits = [] then createZero
  else { x with digits := trim x.digits }

def copy : JSBigInt build := { digits := x.digits, sign := x.sign }

def unaryMinus : JSBigInt build := if x.isZero then x else x.copy.setSign (!x.sign)

variable (x y : JSBigInt build)

def equals : Bool :=
  x.sign == y.sign && x.length == y.length && (x.digits.zip y.digits).all (fun pair => pair.1 == pair.2)

def absoluteCompare : ComparisonResult :=
  if x.length < y.length then .LessThan
  else if x.length > y.length then .GreaterThan
  else compareDigits x.digits.reverse y.digits.reverse

def compare : ComparisonResult :=
  if x.sign ≠ y.sign then if x.sign then .LessThan else .GreaterThan
  else match absoluteCompare x y with
    | .GreaterThan => if x.sign then .LessThan else .GreaterThan
    | .LessThan => if x.sign then .GreaterThan else .LessThan
    | _ => .Equal

def addLonger (resultSign : Bool) : Except BigIntError (JSBigInt build) :=
  (tryCreateWithLength storage (x.length + 1) (addDigits x.digits y.digits)).map (fun result =>
    (result.setSign resultSign).rightTrim)

def absoluteAdd (resultSign : Bool) : Except BigIntError (JSBigInt build) :=
  let longer := if x.length < y.length then y else x
  let shorter := if x.length < y.length then x else y
  if longer.isZero then .ok longer
  else if shorter.isZero then .ok (if resultSign = longer.sign then longer else longer.unaryMinus)
  else addLonger storage longer shorter resultSign

def absoluteSub (resultSign : Bool) : JSBigInt build :=
  if x.isZero then x
  else if y.isZero then if resultSign = x.sign then x else x.unaryMinus
  else if absoluteCompare x y = .Equal then createZero
  else
    ((createWithLengthUnchecked storage x.length (subDigits x.digits y.digits).1).setSign resultSign).rightTrim

def subWithSign : JSBigInt build :=
  match absoluteCompare x y with
  | .GreaterThan | .Equal => absoluteSub storage x y x.sign
  | _ => absoluteSub storage y x (!x.sign)

def add : Except BigIntError (JSBigInt build) :=
  if x.sign = y.sign then absoluteAdd storage x y x.sign else .ok (subWithSign storage x y)

def sub : Except BigIntError (JSBigInt build) :=
  if x.sign ≠ y.sign then absoluteAdd storage x y x.sign else .ok (subWithSign storage x y)

end JSBigInt

section Multiplication

variable (build : Build)

/-- The first loop of `multiplyAccumulate`: what it sets, the carry and the high digit behind it. -/
def accumulateProducts (multiplier : Digit build) :
    List (Digit build) → List (Digit build) → Digit build → Digit build →
      List (Digit build) × Digit build × Digit build
  | multiplicand :: multiplicands, acc :: accs, carry, high =>
    let (acc, newCarry) := digitAdd acc high 0
    let (acc, newCarry) := digitAdd acc carry newCarry
    let (low, high) := digitMul build multiplier multiplicand
    let (acc, newCarry) := digitAdd acc low newCarry
    let (set, carry, high) := accumulateProducts multiplier multiplicands accs newCarry high
    (acc :: set, carry, high)
  | _, _, carry, high => ([], carry, high)

def rippleCarries : List (Digit build) → Digit build → Digit build → List (Digit build)
  | acc :: accs, carry, high =>
    if carry ≠ 0 ∨ high ≠ 0 then
      let (acc, newCarry) := digitAdd acc high 0
      let (acc, newCarry) := digitAdd acc carry newCarry
      acc :: rippleCarries accs newCarry 0
    else acc :: accs
  | [], _, _ => []

def multiplyAccumulate (multiplicand : List (Digit build)) (multiplier : Digit build)
    (accumulator : List (Digit build)) (accumulatorIndex : Nat) : List (Digit build) :=
  if multiplier = 0 then accumulator
  else
    let (set, carry, high) :=
      accumulateProducts build multiplier multiplicand (accumulator.drop accumulatorIndex) 0 0
    accumulator.take accumulatorIndex ++ set ++
      rippleCarries build (accumulator.drop (accumulatorIndex + multiplicand.length)) carry high

end Multiplication

namespace JSBigInt

variable {build : Build}

def productDigits (x y : JSBigInt build) : List (Digit build) :=
  x.digits.zipIdx.foldl (fun result (digit, i) => multiplyAccumulate build y.digits digit result i)
    (List.replicate (x.length + y.length) 0)

def multiply (storage : Storage build) (x y : JSBigInt build) : Except BigIntError (JSBigInt build) :=
  if x.isZero then .ok x
  else if y.isZero then .ok y
  else (tryCreateWithLength storage (x.length + y.length) (productDigits x y)).map (fun result =>
    (result.setSign (x.sign != y.sign)).rightTrim)

def toInt (x : JSBigInt build) : Int := if x.sign then -(value x.digits : Int) else value x.digits

structure Canonical (x : JSBigInt build) : Prop where
  trimmed : Trimmed x.digits
  positive : x.digits = [] → x.sign = false

end JSBigInt

end Odyssey.BigInt
