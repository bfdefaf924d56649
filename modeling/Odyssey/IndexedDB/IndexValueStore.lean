import Odyssey.Containers.HashMap
import Odyssey.IndexedDB.Keys

namespace Odyssey.IndexedDB

open Containers

variable {K : Type} [IDBKeyOrder K]

/-- What an index tells its cursors, and which iterators it leaves dangling. -/
inductive IndexNotice (K : Type) where
  | valueChanged (indexKey primaryKey : K)
  | recordsAllChanged
  | keyErased (indexKey : K)
  | primaryKeyErased (indexKey primaryKey : K)
  | entryErased (indexKey : K)
  deriving DecidableEq

/-- The union of `m_key` and `m_orderedKeys`, with `m_unique` as its tag. -/
inductive IndexValueEntry (K : Type) where
  | unique (key : Option K)
  | ordered (orderedKeys : Finset K)

namespace IndexValueEntry

def create (unique : Bool) : IndexValueEntry K := if unique then .unique none else .ordered ∅

def addKey (entry : IndexValueEntry K) (key : K) : IndexValueEntry K :=
  match entry with
  | .unique _ => .unique (some key)
  | .ordered orderedKeys => .ordered (insert key orderedKeys)

def removeKey (entry : IndexValueEntry K) (key : K) : Bool × IndexValueEntry K :=
  match entry with
  | .unique held => if held = some key then (true, .unique none) else (false, .unique held)
  | .ordered orderedKeys => (key ∈ orderedKeys, .ordered (orderedKeys.erase key))

def getCount : IndexValueEntry K → Nat
  | .unique key => if key.isSome then 1 else 0
  | .ordered orderedKeys => orderedKeys.card

def primaryKeys : IndexValueEntry K → Finset K
  | .unique key => key.toFinset
  | .ordered orderedKeys => orderedKeys

def isUnique : IndexValueEntry K → Bool
  | .unique _ => true
  | .ordered _ => false

end IndexValueEntry

structure IndexValueStore (K : Type) [IDBKeyOrder K] where
  records : HashMap K (IndexValueEntry K)
  orderedKeys : Finset K
  unique : Bool

namespace IndexValueStore

def create (unique : Bool) : IndexValueStore K := ⟨∅, ∅, unique⟩

variable (store : IndexValueStore K)

def contains (key : K) : Bool := key ∈ store.records.keys

def addRecord (indexKey valueKey : K) : Option IDBError × IndexValueStore K :=
  match store.records.lookup indexKey with
  | some entry =>
    if store.unique then (some { code := .ConstraintError }, store)
    else (none, { store with
      records := store.records.insert indexKey (entry.addKey valueKey)
      orderedKeys := insert indexKey store.orderedKeys })
  | none =>
    (none, { store with
      records := store.records.insert indexKey ((IndexValueEntry.create store.unique).addKey valueKey)
      orderedKeys := insert indexKey store.orderedKeys })

def removeRecord (indexKey valueKey : K) : IndexValueStore K × List (IndexNotice K) :=
  match store.records.lookup indexKey with
  | none => (store, [])
  | some entry =>
    if (entry.removeKey valueKey).1 then
      ({ store with records := store.records.erase indexKey },
        [.primaryKeyErased indexKey valueKey, .entryErased indexKey])
    else (store, [])

def removeValueKeyFrom (valueKey : K)
    (state : HashMap K (IndexValueEntry K) × List K × List (IndexNotice K)) (indexKey : K) :
    HashMap K (IndexValueEntry K) × List K × List (IndexNotice K) :=
  match state.1.lookup indexKey with
  | none => state
  | some entry =>
    let (removed, entry) := entry.removeKey valueKey
    (state.1.insert indexKey entry, if entry.getCount = 0 then state.2.1 ++ [indexKey] else state.2.1,
      if removed then
        state.2.2 ++ [.primaryKeyErased indexKey valueKey, .valueChanged indexKey valueKey]
      else state.2.2)

def eraseEntry (indexKey : K) : IndexValueStore K :=
  { store with
    records := store.records.erase indexKey
    orderedKeys := store.orderedKeys.erase indexKey }

def removeEntriesWithValueKey (order : IterationOrder K) (store : IndexValueStore K) (valueKey : K) :
    IndexValueStore K × List (IndexNotice K) :=
  let (records, entryKeysToRemove, notices) :=
    (order.visit store.records.keys).foldl (removeValueKeyFrom valueKey) (store.records, [], [])
  (entryKeysToRemove.foldl eraseEntry { store with records := records },
    notices ++ entryKeysToRemove.flatMap (fun indexKey => [.keyErased indexKey, .entryErased indexKey]))

end IndexValueStore

end Odyssey.IndexedDB
