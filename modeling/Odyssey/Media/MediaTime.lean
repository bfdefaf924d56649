import Mathlib.Algebra.Group.Int.Defs
import Mathlib.Data.Int.Basic

namespace Odyssey.Media

inductive ComparisonFlags where
  | LessThan
  | EqualTo
  | GreaterThan
  deriving DecidableEq, Repr

/-- The value is kept in the same word as the double, which is used if the flag for it is set. -/
structure MediaTime where
  timeValue : Int64
  timeScale : UInt32
  timeFlags : UInt8

namespace MediaTime

def Valid : UInt8 := (1 : UInt8) <<< 0
def HasBeenRounded : UInt8 := (1 : UInt8) <<< 1
def PositiveInfinite : UInt8 := (1 : UInt8) <<< 2
def NegativeInfinite : UInt8 := (1 : UInt8) <<< 3
def Indefinite : UInt8 := (1 : UInt8) <<< 4
def DoubleValue : UInt8 := (1 : UInt8) <<< 5

def has (flags flag : UInt8) : Bool := flags &&& flag != 0

variable (time : MediaTime)

def isInvalid : Bool := !has time.timeFlags Valid
def isPositiveInfinite : Bool := has time.timeFlags PositiveInfinite
def isNegativeInfinite : Bool := has time.timeFlags NegativeInfinite
def isIndefinite : Bool := has time.timeFlags Indefinite
def hasDoubleValue : Bool := has time.timeFlags DoubleValue

def timeValueAsDouble : Float := Float.ofBits time.timeValue.toUInt64

def toDouble : Float :=
  if time.isInvalid || time.isIndefinite then 0.0 / 0.0
  else if time.isPositiveInfinite then 1.0 / 0.0
  else if time.isNegativeInfinite then -(1.0 / 0.0)
  else if time.hasDoubleValue then time.timeValueAsDouble
  else time.timeValue.toFloat / time.timeScale.toFloat

def scale64 : Int64 := Int64.ofNat time.timeScale.toNat

def safeMultiply (lhs rhs : Int64) : Option Int64 :=
  let product := lhs.toInt * rhs.toInt
  if -2^63 ≤ product ∧ product < 2^63 then some (Int64.ofInt product) else none

def compareFlags (lhs rhs : UInt8) : Option ComparisonFlags :=
  let andFlags := lhs &&& rhs
  let orFlags := lhs ||| rhs
  if has andFlags (PositiveInfinite ||| NegativeInfinite ||| Indefinite) then some .EqualTo
  else if !has orFlags Valid then some .EqualTo
  else if !has andFlags Valid then some (if !has lhs Valid then .GreaterThan else .LessThan)
  else if has orFlags NegativeInfinite then
    some (if has lhs NegativeInfinite then .LessThan else .GreaterThan)
  else if has orFlags PositiveInfinite then
    some (if has lhs PositiveInfinite then .GreaterThan else .LessThan)
  else if has orFlags Indefinite then some (if has lhs Indefinite then .GreaterThan else .LessThan)
  else none

variable (lhs rhs : MediaTime)

/-- The whole parts, then the remainders. The products of the remainders are not checked; they wrap. -/
def compareParts : ComparisonFlags :=
  let rhsWhole := rhs.timeValue / rhs.scale64
  let lhsWhole := lhs.timeValue / lhs.scale64
  if lhsWhole > rhsWhole then .GreaterThan
  else if lhsWhole < rhsWhole then .LessThan
  else
    let rhsRemain := rhs.timeValue % rhs.scale64
    let lhsRemain := lhs.timeValue % lhs.scale64
    let lhsFactor := lhsRemain * rhs.scale64
    let rhsFactor := rhsRemain * lhs.scale64
    if lhsFactor = rhsFactor then .EqualTo
    else if lhsFactor > rhsFactor then .GreaterThan else .LessThan

def compareProducts : ComparisonFlags :=
  match safeMultiply lhs.timeValue rhs.scale64, safeMultiply rhs.timeValue lhs.scale64 with
  | some lhsFactor, some rhsFactor =>
    if lhsFactor = rhsFactor then .EqualTo
    else if lhsFactor < rhsFactor then .LessThan else .GreaterThan
  | _, _ => compareParts lhs rhs

def compareValues : ComparisonFlags :=
  if decide (lhs.timeValue < 0) ≠ decide (rhs.timeValue < 0) then
    if lhs.timeValue < 0 then .LessThan else .GreaterThan
  else if lhs.timeValue = 0 ∧ rhs.timeValue = 0 then .EqualTo
  else if lhs.timeScale = rhs.timeScale then
    if lhs.timeValue = rhs.timeValue then .EqualTo
    else if lhs.timeValue < rhs.timeValue then .LessThan else .GreaterThan
  else if lhs.timeValue = rhs.timeValue then
    if lhs.timeScale < rhs.timeScale then .GreaterThan else .LessThan
  else if lhs.timeValue ≥ 0 ∧ lhs.timeValue < rhs.timeValue ∧ lhs.timeScale > rhs.timeScale then .LessThan
  else if lhs.timeValue ≥ 0 ∧ lhs.timeValue > rhs.timeValue ∧ lhs.timeScale < rhs.timeScale then .GreaterThan
  else if lhs.timeValue < 0 ∧ lhs.timeValue < rhs.timeValue ∧ lhs.timeScale < rhs.timeScale then .LessThan
  else if lhs.timeValue < 0 ∧ lhs.timeValue > rhs.timeValue ∧ lhs.timeScale > rhs.timeScale then .GreaterThan
  else compareProducts lhs rhs

def compare : ComparisonFlags :=
  match compareFlags lhs.timeFlags rhs.timeFlags with
  | some result => result
  | none =>
    if has (lhs.timeFlags &&& rhs.timeFlags) DoubleValue then
      if lhs.timeValueAsDouble == rhs.timeValueAsDouble then .EqualTo
      else if lhs.timeValueAsDouble < rhs.timeValueAsDouble then .LessThan else .GreaterThan
    else if has (lhs.timeFlags ||| rhs.timeFlags) DoubleValue then
      let a := lhs.toDouble
      let b := rhs.toDouble
      if a > b then .GreaterThan else if a < b then .LessThan else .EqualTo
    else compareValues lhs rhs

end MediaTime

end Odyssey.Media
