import Odyssey.BigInt.DivisionExact
import Mathlib.Data.Int.Bitwise

namespace Odyssey.BigInt

open Arithmetic List

inductive ExtraDigitsHandling where
  | Copy
  | Skip
  deriving DecidableEq, Repr

inductive SymmetricOp where
  | Symmetric
  | NotSymmetric
  deriving DecidableEq, Repr

inductive SignOption where
  | Unsigned
  | Signed
  deriving DecidableEq, Repr

namespace JSBigInt

variable {build : Build} (storage : Storage build)

variable (x y : JSBigInt build)

def absoluteBitwiseOp (extraDigits : ExtraDigitsHandling) (symmetric : SymmetricOp)
    (op : Digit build → Digit build → Digit build) : JSBigInt build :=
  let numPairs := if x.length < y.length then x.length else y.length
  let swapped := decide (x.length < y.length) && symmetric = .Symmetric
  let first := if swapped then y else x
  let second := if swapped then x else y
  let resultLength := if extraDigits = .Copy then first.length else numPairs
  let pairs := List.zipWith op (first.digits.take numPairs) (second.digits.take numPairs)
  let copied := if extraDigits = .Copy then first.digits.drop numPairs else []
  (createWithLengthUnchecked storage resultLength
    (pairs ++ copied ++ List.replicate (resultLength - (pairs ++ copied).length) 0)).rightTrim

def absoluteAnd : JSBigInt build :=
  absoluteBitwiseOp storage x y .Skip .Symmetric (fun a b => a &&& b)

def absoluteOr : JSBigInt build :=
  absoluteBitwiseOp storage x y .Copy .Symmetric (fun a b => a ||| b)

def absoluteAndNot : JSBigInt build :=
  absoluteBitwiseOp storage x y .Copy .NotSymmetric (fun a b => a &&& ~~~b)

def absoluteXor : JSBigInt build :=
  absoluteBitwiseOp storage x y .Copy .Symmetric (fun a b => a ^^^ b)

def absoluteAddOne (x : JSBigInt build) (signOption : SignOption) : Except BigIntError (JSBigInt build) :=
  let inputLength := x.length
  let willOverflow := x.digits.all (BitVec.allOnes _ == ·)
  let resultLength := inputLength + if willOverflow then 1 else 0
  let (sums, carry) := addCarry x.digits 1
  (tryCreateWithLength storage resultLength (if resultLength > inputLength then sums ++ [carry] else sums)).map
    (fun result => (result.setSign (signOption == .Signed)).rightTrim)

def absoluteSubOne (x : JSBigInt build) (resultLength : Nat) : Except BigIntError (JSBigInt build) :=
  let (differences, borrow) := subBorrow x.digits 1
  (tryCreateWithLength storage resultLength (differences ++ List.replicate (resultLength - x.length) borrow)).map
    (·.rightTrim)

def bitwiseAnd (x y : JSBigInt build) : Except BigIntError (JSBigInt build) :=
  if !x.sign && !y.sign then .ok (absoluteAnd storage x y)
  else if x.sign && y.sign then do
    let resultLength := max x.length y.length + 1
    let result ← absoluteSubOne storage x resultLength
    let y1 ← absoluteSubOne storage y y.length
    absoluteAddOne storage (absoluteOr storage result y1) .Signed
  else do
    let positive := if x.sign then y else x
    let negative := if x.sign then x else y
    let y1 ← absoluteSubOne storage negative negative.length
    pure (absoluteAndNot storage positive y1)

def bitwiseOr (x y : JSBigInt build) : Except BigIntError (JSBigInt build) :=
  let resultLength := max x.length y.length
  if !x.sign && !y.sign then .ok (absoluteOr storage x y)
  else if x.sign && y.sign then do
    let result ← absoluteSubOne storage x resultLength
    let y1 ← absoluteSubOne storage y y.length
    absoluteAddOne storage (absoluteAnd storage result y1) .Signed
  else do
    let positive := if x.sign then y else x
    let negative := if x.sign then x else y
    let result ← absoluteSubOne storage negative resultLength
    absoluteAddOne storage (absoluteAndNot storage result positive) .Signed

def bitwiseXor (x y : JSBigInt build) : Except BigIntError (JSBigInt build) :=
  if !x.sign && !y.sign then .ok (absoluteXor storage x y)
  else if x.sign && y.sign then do
    let resultLength := max x.length y.length
    let result ← absoluteSubOne storage x resultLength
    let y1 ← absoluteSubOne storage y y.length
    pure (absoluteXor storage result y1)
  else do
    let resultLength := max x.length y.length + 1
    let positive := if x.sign then y else x
    let negative := if x.sign then x else y
    let result ← absoluteSubOne storage negative resultLength
    absoluteAddOne storage (absoluteXor storage result positive) .Signed

/-- What a digit operation has to do with a missing digit, so that the handling of the extra digits is right. -/
structure Suits (extraDigits : ExtraDigitsHandling) (symmetric : SymmetricOp)
    (op : Digit build → Digit build → Digit build) : Prop where
  right : ∀ a, op a 0 = if extraDigits = .Copy then a else 0
  left : if symmetric = .Symmetric then ∀ a b, op a b = op b a else ∀ b, op 0 b = 0

end JSBigInt

variable {w : Nat} {op : BitVec w → BitVec w → BitVec w}

theorem getD_of_le {digits : List (BitVec w)} {index : Nat} (outside : digits.length ≤ index) :
    digits.getD index 0 = 0 := by
  rw [getD_eq_getElem?_getD, getElem?_eq_none outside, Option.getD_none]

theorem getD_pairs {first second : List (BitVec w)} {numPairs : Nat} (left : numPairs ≤ first.length)
    (right : numPairs ≤ second.length) (extra : List (BitVec w)) (index : Nat) :
    (List.zipWith op (first.take numPairs) (second.take numPairs) ++ extra).getD index 0 =
      if index < numPairs then op (first.getD index 0) (second.getD index 0) else extra.getD (index - numPairs) 0 := by
  have size : (zipWith op (first.take numPairs) (second.take numPairs)).length = numPairs := by
    rw [length_zipWith, length_take_of_le left, length_take_of_le right, min_self]
  simp only [getD_eq_getElem?_getD]
  split_ifs with inside
  · rw [getElem?_append_left (by omega), getElem?_zipWith, getElem?_take_of_lt inside,
      getElem?_take_of_lt inside, getElem?_eq_getElem (by omega), getElem?_eq_getElem (by omega)]
    rfl
  · rw [getElem?_append_right (by omega), size]

end Odyssey.BigInt
