import Odyssey.Containers.SetIterator
import Odyssey.IndexedDB.ObjectStoreCursor

namespace Odyssey.IndexedDB

open Containers

variable {K : Type} [IDBKeyOrder K]

inductive CursorDuplicity where
  | Duplicates | NoDuplicates
  deriving DecidableEq

def IDBCursorInfo.duplicity (info : IDBCursorInfo K) : CursorDuplicity :=
  if info.direction = .Nextunique || info.direction = .Prevunique then .NoDuplicates else .Duplicates

/-- An iterator of the primary keys in an entry. In a unique entry it stands for the key that the
    entry has; after its entry is gone it dangles. -/
inductive PrimaryKeyIterator (K : Type) where
  | unique
  | ordered (iterator : SetIterator K)
  | dangling

namespace IndexValueEntry

/-- An entry is not empty when it is asked for an iterator. -/
def begin : IndexValueEntry K → Option (PrimaryKeyIterator K)
  | .unique _ => some .unique
  | .ordered orderedKeys => (least orderedKeys).map (fun key => .ordered (.forward key))

def reverseBegin (duplicity : CursorDuplicity) : IndexValueEntry K → PrimaryKeyIterator K
  | .unique _ => .unique
  | .ordered orderedKeys =>
    match duplicity with
    | .Duplicates => .ordered (.reverse none)
    | .NoDuplicates => .ordered (.reverse ((least orderedKeys).bind (upperBound orderedKeys)))

def beginIn (entry : IndexValueEntry K) (forward : Bool) (duplicity : CursorDuplicity) :
    Option (PrimaryKeyIterator K) :=
  if forward then entry.begin else some (entry.reverseBegin duplicity)

def find (key : K) : IndexValueEntry K → Option (PrimaryKeyIterator K)
  | .unique held => if held = some key then some .unique else none
  | .ordered orderedKeys => (lowerBound orderedKeys key).map (fun found => .ordered (.forward found))

def reverseFind (key : K) : IndexValueEntry K → Option (PrimaryKeyIterator K)
  | .unique held => if held = some key then some .unique else none
  | .ordered orderedKeys =>
    (highestAtMost orderedKeys key).map (fun _ => .ordered (.reverse (upperBound orderedKeys key)))

end IndexValueEntry

namespace PrimaryKeyIterator

/-- The key of a unique entry is read from the entry itself. -/
def erase (iterator : PrimaryKeyIterator K) (primaryKey : K) : PrimaryKeyIterator K :=
  match iterator with
  | .ordered iterator => .ordered (iterator.erase primaryKey)
  | iterator => iterator

def key (entry : IndexValueEntry K) (iterator : PrimaryKeyIterator K) : Option K :=
  match iterator, entry with
  | .unique, .unique held => held
  | .ordered iterator, .ordered orderedKeys => iterator.get orderedKeys
  | _, _ => none

/-- There is no result of a dangling iterator, and an absent one past the last key. -/
def next (entry : IndexValueEntry K) (iterator : PrimaryKeyIterator K) :
    Option (Option (PrimaryKeyIterator K)) :=
  match iterator, entry with
  | .unique, .unique _ => some none
  | .ordered iterator, .ordered orderedKeys => (iterator.next orderedKeys).map (·.map .ordered)
  | _, _ => none

end PrimaryKeyIterator

structure IndexValueIterator (K : Type) where
  forward : Bool
  duplicity : CursorDuplicity
  keyIterator : SetIterator K
  entry : K
  primaryKeyIterator : PrimaryKeyIterator K

namespace IndexValueIterator

variable (store : IndexValueStore K) (iterator : IndexValueIterator K)

def key : Option K :=
  iterator.keyIterator.get store.orderedKeys

def primaryKey : Option K :=
  (store.records.lookup iterator.entry).bind iterator.primaryKeyIterator.key

def nextIndexEntry : Option (Option (IndexValueIterator K)) :=
  (iterator.keyIterator.next store.orderedKeys).bind fun
    | none => some none
    | some keyIterator => do
      let key ← keyIterator.get store.orderedKeys
      let entry ← store.records.lookup key
      let primaryKeyIterator ← entry.beginIn iterator.forward iterator.duplicity
      return some { iterator with
        keyIterator := keyIterator, entry := key, primaryKeyIterator := primaryKeyIterator }

def next (store : IndexValueStore K) (iterator : IndexValueIterator K) :
    Option (Option (IndexValueIterator K)) :=
  ((store.records.lookup iterator.entry).bind iterator.primaryKeyIterator.next).bind fun
    | some primaryKeyIterator => some (some { iterator with primaryKeyIterator := primaryKeyIterator })
    | none => iterator.nextIndexEntry store

end IndexValueIterator

namespace IndexValueStore

variable (store : IndexValueStore K)

def lowestIteratorInRange (range : IDBKeyRangeData K) : Option K :=
  (MemoryObjectStore.firstFromLower store.orderedKeys range).filter (range.isNotAbove ·)

def highestReverseIteratorInRange (range : IDBKeyRangeData K) : Option (K × SetIterator K) :=
  (range.upperKey.bind (fun upper =>
    if range.upperOpen && decide (highestAtMost store.orderedKeys upper = some upper) then
      (highestBelow store.orderedKeys upper).map (fun key => (key, .reverse (some upper)))
    else
      (highestAtMost store.orderedKeys upper).map
        (fun key => (key, .reverse (upperBound store.orderedKeys upper))))).filter
    (range.isNotBelow ·.1)

def beginAt (key : K) : Option (IndexValueIterator K) := do
  let record ← store.records.lookup key
  let primaryKeyIterator ← record.begin
  return ⟨true, .Duplicates, .forward key, key, primaryKeyIterator⟩

def reverseBeginAt (duplicity : CursorDuplicity) (key : K) (keyIterator : SetIterator K) :
    Option (IndexValueIterator K) := do
  let record ← store.records.lookup key
  return ⟨false, duplicity, keyIterator, key, record.reverseBegin duplicity⟩

/-- There is no result if the tables disagree, and an absent iterator if no key is found. -/
def find (key : Option K) (isOpen : Bool) : Option (Option (IndexValueIterator K)) :=
  match store.lowestIteratorInRange
      ⟨true, some (key.getD IDBKeyOrder.minimum), none, isOpen, false⟩ with
  | none => some none
  | some found => (store.beginAt found).map some

def findPrimaryKey (key primaryKey : K) : Option (Option (IndexValueIterator K)) :=
  match store.lowestIteratorInRange ⟨true, some key, none, false, false⟩ with
  | none => some none
  | some found =>
    if found ≠ key then (store.beginAt found).map some
    else
      (store.records.lookup found).bind fun record =>
        match record.find primaryKey with
        | some primaryKeyIterator =>
          some (some ⟨true, .Duplicates, .forward found, found, primaryKeyIterator⟩)
        | none =>
          match upperBound store.orderedKeys found with
          | none => some none
          | some following => (store.beginAt following).map some

def reverseFind (key : Option K) (duplicity : CursorDuplicity) (isOpen : Bool) :
    Option (Option (IndexValueIterator K)) :=
  match store.highestReverseIteratorInRange
      ⟨true, none, some (key.getD IDBKeyOrder.maximum), false, isOpen⟩ with
  | none => some none
  | some (found, keyIterator) => (store.reverseBeginAt duplicity found keyIterator).map some

/-- Unlike `findPrimaryKey` it asks the entry for the primary key whatever key was found. -/
def reverseFindPrimaryKey (key primaryKey : K) (duplicity : CursorDuplicity) :
    Option (Option (IndexValueIterator K)) :=
  match store.highestReverseIteratorInRange ⟨true, none, some key, false, false⟩ with
  | none => some none
  | some (found, keyIterator) =>
    (store.records.lookup found).bind fun record =>
      match record.reverseFind primaryKey with
      | some primaryKeyIterator =>
        some (some ⟨false, duplicity, keyIterator, found, primaryKeyIterator⟩)
      | none =>
        match highestBelow store.orderedKeys found with
        | none => some none
        | some following =>
          (store.reverseBeginAt duplicity following (.reverse (some found))).map some

end IndexValueStore

structure MemoryIndexCursor (K : Type) where
  info : IDBCursorInfo K
  currentIterator : Option (IndexValueIterator K)
  currentKey : Option K
  currentPrimaryKey : Option K

namespace MemoryIndexCursor

def notify (cursor : MemoryIndexCursor K) : IndexNotice K → MemoryIndexCursor K
  | .recordsAllChanged => { cursor with currentIterator := none }
  | .valueChanged indexKey primaryKey =>
    if cursor.currentKey ≠ some indexKey ∨ cursor.currentPrimaryKey ≠ some primaryKey then cursor
    else { cursor with currentIterator := none }
  | .keyErased indexKey => { cursor with
      currentIterator := cursor.currentIterator.map (fun iterator =>
        { iterator with keyIterator := iterator.keyIterator.erase indexKey }) }
  | .primaryKeyErased indexKey primaryKey => { cursor with
      currentIterator := cursor.currentIterator.map (fun iterator =>
        if iterator.entry = indexKey then
          { iterator with primaryKeyIterator := iterator.primaryKeyIterator.erase primaryKey }
        else iterator) }
  | .entryErased indexKey => { cursor with
      currentIterator := cursor.currentIterator.map (fun iterator =>
        if iterator.entry = indexKey then { iterator with primaryKeyIterator := .dangling }
        else iterator) }

def finished (cursor : MemoryIndexCursor K) : MemoryIndexCursor K :=
  { cursor with currentIterator := none, currentKey := none, currentPrimaryKey := none }

def settle (store : IndexValueStore K) (cursor : MemoryIndexCursor K) :
    Option (IndexValueIterator K) → Option (MemoryIndexCursor K)
  | none => some cursor.finished
  | some iterator => do
    let key ← iterator.key store
    if !cursor.info.range.containsKey key then return cursor.finished
    else
      let primaryKey ← iterator.primaryKey store
      return { cursor with
        currentIterator := some iterator, currentKey := some key, currentPrimaryKey := some primaryKey }

def opened (index : MemoryIndex K) (info : IDBCursorInfo K) : Option (MemoryIndexCursor K) :=
  let cursor : MemoryIndexCursor K := ⟨info, none, none, none⟩
  match index.records with
  | none => some cursor
  | some store => do
    let found ← if info.isDirectionForward then store.find info.range.lowerKey info.range.lowerOpen
      else store.reverseFind info.range.upperKey info.duplicity info.range.upperOpen
    settle store cursor found

variable (valueForKey : K → ThreadSafeDataBuffer) (store : IndexValueStore K) (cursor : MemoryIndexCursor K)

/-- `valueForKey` is that of the object store of the index. -/
def currentData : Option (IDBGetResult K) :=
  match cursor.currentIterator, cursor.currentKey, cursor.currentPrimaryKey with
  | some _, some key, some primaryKey =>
    some ⟨key, primaryKey, if cursor.info.cursorType = .KeyOnly then none else some (valueForKey primaryKey)⟩
  | _, _, _ => none

def move (store : IndexValueStore K) (duplicity : CursorDuplicity) :
    Nat → IndexValueIterator K → Option (Option (IndexValueIterator K))
  | 0, iterator => some (some iterator)
  | count + 1, iterator =>
    (if duplicity = .NoDuplicates then iterator.nextIndexEntry store else iterator.next store).bind fun
      | none => some none
      | some iterator => move store duplicity count iterator

def restore : Option (Option (IndexValueIterator K)) := do
  let key ← cursor.currentKey
  let primaryKey ← cursor.currentPrimaryKey
  match cursor.info.direction with
  | .Next => store.findPrimaryKey key primaryKey
  | .Nextunique => store.find (some key) true
  | .Prev => store.reverseFindPrimaryKey key primaryKey cursor.info.duplicity
  | .Prevunique => store.reverseFind (some key) cursor.info.duplicity true

def moveAndSettle (count : Nat) (iterator : IndexValueIterator K) :
    Option (MemoryIndexCursor K × Option (IDBGetResult K)) := do
  let moved ← move store cursor.info.duplicity count iterator
  let cursor ← settle store cursor moved
  return (cursor, currentData valueForKey cursor)

def seek (key : K) (primaryKey : Option K) : Option (Option (IndexValueIterator K)) :=
  match primaryKey.filter IDBKeyOrder.isValid, cursor.info.isDirectionForward with
  | some primaryKey, true => store.findPrimaryKey key primaryKey
  | some primaryKey, false => store.reverseFindPrimaryKey key primaryKey cursor.info.duplicity
  | none, true => store.find (some key) false
  | none, false => store.reverseFind (some key) cursor.info.duplicity false

def iterateToKey (index : MemoryIndex K) (key : K) (primaryKey : Option K) (cursor : MemoryIndexCursor K) :
    Option (MemoryIndexCursor K × Option (IDBGetResult K)) :=
  match index.records with
  | none => some ({ cursor with currentKey := none, currentPrimaryKey := none }, none)
  | some store => do
    let found ← seek store cursor key primaryKey
    let cursor ← settle store cursor found
    return (cursor, currentData valueForKey cursor)

def iterateByCount (index : MemoryIndex K) (count : Nat) (cursor : MemoryIndexCursor K) :
    Option (MemoryIndexCursor K × Option (IDBGetResult K)) :=
  let count := if count = 0 then 1 else count
  match cursor.currentIterator, index.records with
  | some iterator, some store => moveAndSettle valueForKey store cursor count iterator
  | some _, none => none
  | none, none => some ({ cursor with currentKey := none, currentPrimaryKey := none }, none)
  | none, some store =>
    (restore store cursor).bind fun
      | none => some (cursor.finished, none)
      | some iterator => do
        let key ← iterator.key store
        let primaryKey ← iterator.primaryKey store
        -- An iterator that is found elsewhere is at the next record already.
        let moved := cursor.currentKey ≠ some key ∨ cursor.currentPrimaryKey ≠ some primaryKey
        moveAndSettle valueForKey store cursor (if moved then count - 1 else count) iterator

/-- There is no result where the source follows a dangling iterator or one of a missing entry. -/
def iterate (index : MemoryIndex K) (key primaryKey : Option K) (count : Nat) (cursor : MemoryIndexCursor K) :
    Option (MemoryIndexCursor K × Option (IDBGetResult K)) :=
  match key.filter IDBKeyOrder.isValid with
  | some key => iterateToKey valueForKey index key primaryKey cursor
  | none => iterateByCount valueForKey index count cursor

end MemoryIndexCursor

end Odyssey.IndexedDB
