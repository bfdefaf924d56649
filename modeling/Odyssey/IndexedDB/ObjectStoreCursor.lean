import Odyssey.Containers.OrderedSteps
import Odyssey.IndexedDB.MemoryObjectStore

namespace Odyssey.IndexedDB

open Containers

variable {K : Type} [IDBKeyOrder K]

inductive CursorDirection where
  | Next | Nextunique | Prev | Prevunique
  deriving DecidableEq

inductive CursorType where
  | KeyAndValue | KeyOnly
  deriving DecidableEq

structure IDBCursorInfo (K : Type) where
  range : IDBKeyRangeData K
  direction : CursorDirection
  cursorType : CursorType

def IDBCursorInfo.isDirectionForward (info : IDBCursorInfo K) : Bool :=
  info.direction = .Next || info.direction = .Nextunique

structure IDBGetResult (K : Type) where
  keyData : K
  primaryKeyData : K
  value : Option ThreadSafeDataBuffer

def MemoryObjectStore.valueForKeyRange (store : MemoryObjectStore K) (range : IDBKeyRangeData K) :
    ThreadSafeDataBuffer :=
  match store.lowestKeyWithRecordInRange range with
  | none => none
  | some key => (store.keyValueStore.bind (·.lookup key)).join

/-- An iterator of the ordered keys is the key that it points to. -/
structure MemoryObjectStoreCursor (K : Type) where
  info : IDBCursorInfo K
  remainingRange : IDBKeyRangeData K
  iterator : Option K
  currentPositionKey : Option K

namespace MemoryObjectStoreCursor

variable (set : Finset K)

def setForwardIteratorFromRemainingRange (remainingRange : IDBKeyRangeData K) : Option K :=
  if set.card = 0 then none
  else if remainingRange.isExactlyOneKey then remainingRange.lowerKey.filter (· ∈ set)
  else (MemoryObjectStore.firstFromLower set remainingRange).filter (remainingRange.isNotAbove ·)

def lastFromUpper (upper : K) (upperOpen : Bool) : Option K :=
  match highestAtMost set upper with
  | none => none
  | some highest => if upperOpen && decide (highest = upper) then highestBelow set highest else some highest

def setReverseIteratorFromRemainingRange (remainingRange : IDBKeyRangeData K) : Option K :=
  if set.card = 0 then none
  else if remainingRange.isExactlyOneKey then remainingRange.lowerKey.filter (· ∈ set)
  else if !isValidKey remainingRange.upperKey then (greatest set).filter (remainingRange.containsKey ·)
  else
    (remainingRange.upperKey.bind (lastFromUpper set · remainingRange.upperOpen)).filter
      (remainingRange.isNotBelow ·)

def setFirstInRemainingRange (cursor : MemoryObjectStoreCursor K) : MemoryObjectStoreCursor K :=
  if cursor.info.isDirectionForward then
    match setForwardIteratorFromRemainingRange set cursor.remainingRange with
    | none => { cursor with iterator := none }
    | some key => { cursor with
        iterator := some key
        remainingRange := { cursor.remainingRange with lowerKey := some key, lowerOpen := true } }
  else
    match setReverseIteratorFromRemainingRange set cursor.remainingRange with
    | none => { cursor with iterator := none }
    | some key => { cursor with
        iterator := some key
        remainingRange := { cursor.remainingRange with upperKey := some key, upperOpen := true } }

def notify (cursor : MemoryObjectStoreCursor K) : StoreNotice K → MemoryObjectStoreCursor K
  | .cleared => { cursor with iterator := none }
  | .keyDeleted key =>
    if cursor.currentPositionKey ≠ some key then cursor else { cursor with iterator := none }
  | .keyAdded key =>
    if cursor.iterator.isSome then cursor
    else if some key = cursor.currentPositionKey then { cursor with iterator := some key } else cursor
  | .index _ _ => cursor

variable (store : MemoryObjectStore K)

def currentData (cursor : MemoryObjectStoreCursor K) : MemoryObjectStoreCursor K × Option (IDBGetResult K) :=
  match cursor.iterator with
  | none => ({ cursor with currentPositionKey := none }, none)
  | some key =>
    ({ cursor with currentPositionKey := some key },
      some ⟨key, key, if cursor.info.cursorType = .KeyOnly then none
        else some (store.valueForKeyRange (.ofKey key))⟩)

/-- The constructor, and the `currentData` that opening the cursor asks for. -/
def opened (info : IDBCursorInfo K) : MemoryObjectStoreCursor K × Option (IDBGetResult K) :=
  let cursor : MemoryObjectStoreCursor K := ⟨info, info.range, none, none⟩
  currentData store (match store.orderedKeys with
    | none => cursor
    | some set => setFirstInRemainingRange set cursor)

variable (set : Finset K)

def moveForward (set : Finset K) (range : IDBKeyRangeData K) : Nat → K → Option K
  | 0, key => some key
  | count + 1, key =>
    match upperBound set key with
    | none => none
    | some next => if range.containsKey next then moveForward set range count next else none

def moveReverse (set : Finset K) (range : IDBKeyRangeData K) : Nat → K → Option K
  | 0, key => some key
  | count + 1, key =>
    match highestBelow set key with
    | none => none
    | some next => if range.containsKey next then moveReverse set range count next else none

def resetForward (position : K) (cursor : MemoryObjectStoreCursor K) : MemoryObjectStoreCursor K :=
  setFirstInRemainingRange set { cursor with
    remainingRange := { cursor.remainingRange with lowerKey := some position, lowerOpen := false } }

def resetReverse (position : K) (cursor : MemoryObjectStoreCursor K) : MemoryObjectStoreCursor K :=
  setFirstInRemainingRange set { cursor with
    remainingRange := { cursor.remainingRange with upperKey := some position, upperOpen := false } }

def remainingCount (count : Nat) (passed : Bool) : Nat :=
  let count := if count = 0 then 1 else count
  if passed then count - 1 else count

variable (key : Option K) (count : Nat) (cursor : MemoryObjectStoreCursor K)

def incrementForwardIterator : MemoryObjectStoreCursor K :=
  if cursor.iterator.isNone && !isValidKey cursor.currentPositionKey then cursor
  else
    let didResetIterator := cursor.iterator.isNone
    let cursor := match cursor.iterator, cursor.currentPositionKey with
      | none, some position => resetForward set position cursor
      | _, _ => cursor
    match cursor.iterator with
    | none => cursor
    | some current =>
      match key.filter IDBKeyOrder.isValid with
      | some target =>
        if !cursor.info.range.containsKey target then cursor
        else if current < target then resetForward set target cursor
        else cursor
      | none =>
        let passed := didResetIterator && cursor.currentPositionKey.any (· < current)
        { cursor with
          iterator := moveForward set cursor.info.range (remainingCount count passed) current }

/-- There is no result if the absent iterator is followed: unlike the forward increment, this one
    does not look whether the reset has found a key. -/
def incrementReverseIterator : Option (MemoryObjectStoreCursor K) :=
  if cursor.iterator.isNone && !isValidKey cursor.currentPositionKey then some cursor
  else
    let didResetIterator := cursor.iterator.isNone
    let cursor := match cursor.iterator, cursor.currentPositionKey with
      | none, some position => resetReverse set position cursor
      | _, _ => cursor
    match cursor.iterator with
    | none => none
    | some current =>
      match key.filter IDBKeyOrder.isValid with
      | some target =>
        if !cursor.info.range.containsKey target then some cursor
        else if current > target then some (resetReverse set target cursor)
        else some cursor
      | none =>
        let passed := didResetIterator && cursor.currentPositionKey.any (current < ·)
        some { cursor with
          iterator := moveReverse set cursor.info.range (remainingCount count passed) current }

def iterate : Option (MemoryObjectStoreCursor K × Option (IDBGetResult K)) :=
  match store.orderedKeys with
  | none => some ({ cursor with currentPositionKey := none }, none)
  | some set =>
    if (key.filter IDBKeyOrder.isValid).any (!cursor.info.range.containsKey ·) then
      some ({ cursor with currentPositionKey := none }, none)
    else do
      let cursor ← if cursor.info.isDirectionForward then
          some (incrementForwardIterator set key count cursor)
        else incrementReverseIterator set key count cursor
      return currentData store { cursor with currentPositionKey := none }

end MemoryObjectStoreCursor

end Odyssey.IndexedDB
