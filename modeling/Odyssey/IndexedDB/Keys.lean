import Odyssey.Containers.OrderedSet

namespace Odyssey.IndexedDB

/-- Keys as the stores use them, ordered by `compare`, some of them invalid, with one equality for the hash
    tables and the ordered sets, as `CanonicalKey` has it. A null key is the absent value of `Option K`. -/
class IDBKeyOrder (K : Type) extends LinearOrder K where
  isValid : K → Bool
  minimum : K
  maximum : K
  setNumberValue : UInt64 → K
  setArrayValue : List K → K
  number : K → Option Float

inductive ExceptionCode where
  | ConstraintError | InvalidStateError | UnknownError
  deriving DecidableEq

structure IDBError where
  code : ExceptionCode
  message : String := ""
  deriving DecidableEq

variable {K : Type} [IDBKeyOrder K]

def isValidKey (key : Option K) : Bool := key.any IDBKeyOrder.isValid

structure IDBKeyRangeData (K : Type) where
  isNull : Bool
  lowerKey : Option K
  upperKey : Option K
  lowerOpen : Bool
  upperOpen : Bool

namespace IDBKeyRangeData

def ofKey (key : K) : IDBKeyRangeData K := ⟨false, some key, some key, false, false⟩

variable (range : IDBKeyRangeData K)

def isExactlyOneKey : Bool :=
  if range.isNull || range.lowerOpen || range.upperOpen || !isValidKey range.upperKey ||
      !isValidKey range.lowerKey then false
  else range.lowerKey = range.upperKey

def containsKey (key : K) : Bool :=
  (match range.lowerKey with
    | none => true
    | some lower =>
      !IDBKeyOrder.isValid lower || (decide (lower ≤ key) && !(range.lowerOpen && decide (lower = key)))) &&
  (match range.upperKey with
    | none => true
    | some upper =>
      !IDBKeyOrder.isValid upper || (decide (key ≤ upper) && !(range.upperOpen && decide (upper = key))))

def isNotAbove (key : K) : Bool :=
  match range.upperKey with
  | none => true
  | some upper => !(key > upper || (range.upperOpen && decide (key = upper)))

def isNotBelow (key : K) : Bool :=
  match range.lowerKey with
  | none => true
  | some lower => !(key < lower || (range.lowerOpen && decide (key = lower)))

end IDBKeyRangeData

end Odyssey.IndexedDB
