import Odyssey.IndexedDB.BackingStoreTransaction

namespace Odyssey.IndexedDB

open Containers

/-- A script value is undefined, null, or anything else. -/
inductive JSValue (Object : Type) where
  | undefined
  | null
  | other (object : Object)

def JSValue.isUndefinedOrNull {Object : Type} : JSValue Object → Bool
  | .undefined | .null => true
  | .other _ => false

/-- What the stores call in the script engine. -/
structure ScriptEngine (K Object : Type) where
  deserialize : List UInt8 → JSValue Object
  createKeyPathArray : IDBIndexInfo → JSValue Object → List K
  injectIDBKeyIntoScriptValue : K → JSValue Object → IDBKeyPath → Option (JSValue Object)
  serialize : JSValue Object → Option (List UInt8)

variable {K Object : Type} [IDBKeyOrder K]

def ScriptEngine.deserializeIDBValueToJSValue (engine : ScriptEngine K Object) :
    ThreadSafeDataBuffer → JSValue Object
  | none => .undefined
  | some data => if data.isEmpty then .null else engine.deserialize data

def ScriptEngine.generateIndexKeyForValue (engine : ScriptEngine K Object) (info : IDBIndexInfo)
    (value : JSValue Object) : IndexKey K :=
  engine.createKeyPathArray info value

/-- What an object store tells its cursors and those of its indexes. -/
inductive StoreNotice (K : Type) where
  | cleared
  | keyDeleted (key : K)
  | keyAdded (key : K)
  | index (index : IndexRef) (notice : IndexNotice K)

structure MemoryObjectStore (K : Type) [IDBKeyOrder K] where
  info : IDBObjectStoreInfo
  writeTransaction : Option IDBResourceIdentifier
  keyGeneratorValue : UInt64
  keyValueStore : Option (KeyValueMap K)
  orderedKeys : Option (Finset K)
  indexes : IndexRef → MemoryIndex K
  nextIndex : IndexRef
  indexesByIdentifier : HashMap UInt64 IndexRef
  indexesByName : HashMap WTFString IndexRef

structure IterationOrders (K : Type) where
  identifiers : IterationOrder UInt64
  names : IterationOrder WTFString
  keys : IterationOrder K

/-- An object store, the transaction that writes it and the notices sent so far. -/
structure StoreWrite (K : Type) [IDBKeyOrder K] where
  transaction : MemoryBackingStoreTransaction K
  store : MemoryObjectStore K
  notices : List (StoreNotice K)

namespace MemoryObjectStore

def create (info : IDBObjectStoreInfo) : MemoryObjectStore K where
  info := info
  writeTransaction := none
  keyGeneratorValue := 1
  keyValueStore := none
  orderedKeys := none
  indexes := fun _ => MemoryIndex.create ⟨0, 0, none, .name none, true, false⟩
  nextIndex := 0
  indexesByIdentifier := ∅
  indexesByName := ∅

variable (store : MemoryObjectStore K)

def rename (newName : WTFString) : MemoryObjectStore K :=
  { store with info := store.info.rename newName }

def setIndex (ref : IndexRef) (index : MemoryIndex K) : MemoryObjectStore K :=
  { store with indexes := Function.update store.indexes ref index }

def namedIndexes (orders : IterationOrders K) : List IndexRef :=
  (orders.names.visit store.indexesByName.keys).filterMap store.indexesByName.lookup

def identifiedIndexes (orders : IterationOrders K) : List IndexRef :=
  (orders.identifiers.visit store.indexesByIdentifier.keys).filterMap
    store.indexesByIdentifier.lookup

def containsRecord (key : K) : Bool :=
  match store.keyValueStore with
  | none => false
  | some map => key ∈ map.keys

/-- The `lower_bound` of the lower key, or the key after it if the range is open and starts there. -/
def firstFromLower (orderedKeys : Finset K) (range : IDBKeyRangeData K) : Option K :=
  match range.lowerKey with
  | none => least orderedKeys
  | some lower => if range.lowerOpen then upperBound orderedKeys lower else lowerBound orderedKeys lower

def lowestKeyWithRecordInRange (range : IDBKeyRangeData K) : Option K :=
  match store.keyValueStore with
  | none => none
  | some map =>
    if range.isExactlyOneKey && range.lowerKey.any (· ∈ map.keys) then range.lowerKey
    else (firstFromLower (store.orderedKeys.getD ∅) range).filter (range.isNotAbove ·)

end MemoryObjectStore

namespace StoreWrite

def updateIndex (update : MemoryIndex K → MemoryIndex K × List (IndexNotice K))
    (state : StoreWrite K) (ref : IndexRef) : StoreWrite K :=
  let (index, notices) := update (state.store.indexes ref)
  { state with
    store := state.store.setIndex ref index
    notices := state.notices ++ notices.map (.index ref) }

variable (orders : IterationOrders K)

def updateIndexesForDeleteRecord (value : K) (state : StoreWrite K) : StoreWrite K :=
  (state.store.namedIndexes orders).foldl
    (updateIndex (·.removeEntriesWithValueKey orders.keys value)) state

def deleteRecord (self : StoreRef) (key : K) (state : StoreWrite K) : StoreWrite K :=
  match state.store.keyValueStore with
  | none => { state with transaction := state.transaction.recordValueChanged self key none }
  | some map =>
    match map.lookup key with
    | none => { state with transaction := state.transaction.recordValueChanged self key none }
    | some value =>
      let state := updateIndexesForDeleteRecord orders key { state with
        transaction := state.transaction.recordValueChanged self key (some value)
        store := { state.store with
          keyValueStore := some (map.erase key)
          orderedKeys := state.store.orderedKeys.map (·.erase key) } }
      { state with notices := state.notices ++ [.keyDeleted key] }

/-- The loop of `deleteRange`; the lower end of the range moves to each key found. -/
def deleteKeysInRange (orders : IterationOrders K) (self : StoreRef) :
    Nat → IDBKeyRangeData K → StoreWrite K → StoreWrite K
  | 0, _, state => state
  | fuel + 1, range, state =>
    match state.store.lowestKeyWithRecordInRange range with
    | none => state
    | some key =>
      deleteKeysInRange orders self fuel { range with lowerKey := some key, lowerOpen := true }
        (deleteRecord orders self key state)

/-- Each turn of the loop finds a key above the last one, so their number bounds the turns. -/
def deleteRange (self : StoreRef) (range : IDBKeyRangeData K) (state : StoreWrite K) : StoreWrite K :=
  match range.isExactlyOneKey, range.lowerKey with
  | true, some key => deleteRecord orders self key state
  | _, _ => deleteKeysInRange orders self ((state.store.orderedKeys.getD ∅).card + 1) range state

variable (engine : ScriptEngine K Object)

/-- The loop of `updateIndexesForPutRecord` with the indexes changed so far; it stops at the first
    index that refuses the key. -/
def putIndexKeys (engine : ScriptEngine K Object) (jsValue : JSValue Object) (key : K) :
    List IndexRef → List (IndexRef × IndexKey K) → StoreWrite K →
    Option IDBError × List (IndexRef × IndexKey K) × StoreWrite K
  | [], changed, state => (none, changed, state)
  | ref :: refs, changed, state =>
    let indexKey := engine.generateIndexKeyForValue (state.store.indexes ref).info jsValue
    if indexKey.isEmpty then putIndexKeys engine jsValue key refs changed state
    else
      let (error, index, notices) := (state.store.indexes ref).putIndexKey key indexKey
      let state := { state with
        store := state.store.setIndex ref index
        notices := state.notices ++ notices.map (.index ref) }
      match error with
      | some error => (some error, changed, state)
      | none => putIndexKeys engine jsValue key refs (changed ++ [(ref, indexKey)]) state

def revertIndex (key : K) (state : StoreWrite K) (changed : IndexRef × IndexKey K) : StoreWrite K :=
  updateIndex (·.removeRecord key changed.2) state changed.1

variable (orders : IterationOrders K) (self : StoreRef)

def updateIndexesForPutRecord (key : K) (value : ThreadSafeDataBuffer) (state : StoreWrite K) :
    Option IDBError × StoreWrite K :=
  let jsValue := engine.deserializeIDBValueToJSValue value
  if jsValue.isUndefinedOrNull then (none, state)
  else
    match putIndexKeys engine jsValue key (state.store.namedIndexes orders) [] state with
    | (none, _, state) => (none, state)
    | (some error, changed, state) => (some error, changed.foldl (revertIndex key) state)

def addRecord (keyData : K) (value : ThreadSafeDataBuffer) (state : StoreWrite K) :
    Option IDBError × StoreWrite K :=
  -- A null map makes both tables anew, whatever the ordered keys were.
  let (map, orderedKeys) := match state.store.keyValueStore with
    | none => (∅, ∅)
    | some map => (map, state.store.orderedKeys.getD ∅)
  let state := { state with
    store := { state.store with
      keyValueStore := some (map.insert keyData value)
      orderedKeys := some (insert keyData orderedKeys) } }
  match updateIndexesForPutRecord engine orders keyData value state with
  | (some error, state) =>
    (some error, { state with
      store := { state.store with
        keyValueStore := state.store.keyValueStore.map (·.erase keyData)
        orderedKeys := state.store.orderedKeys.map (·.erase keyData) } })
  | (none, state) => (none, { state with notices := state.notices ++ [.keyAdded keyData] })

def clearIndex (state : StoreWrite K) (ref : IndexRef) : StoreWrite K :=
  let index := state.store.indexes ref
  let (moved, transaction) := state.transaction.indexCleared (self, ref) index.records
  { transaction := transaction
    store := if moved then state.store.setIndex ref { index with records := none } else state.store
    notices := state.notices ++ [.index ref .recordsAllChanged] }

def clear (state : StoreWrite K) : StoreWrite K :=
  let (moved, transaction) := state.transaction.objectStoreCleared self state.store.keyValueStore
    state.store.orderedKeys
  let store := if moved then { state.store with keyValueStore := none, orderedKeys := none }
    else state.store
  let state := (store.identifiedIndexes orders).foldl (clearIndex self)
    { state with transaction := transaction, store := store }
  { state with notices := state.notices ++ [.cleared] }

/-- The loop of `populateIndexWithExistingRecords`; a null or undefined value ends it. -/
def populateIndex (engine : ScriptEngine K Object) (map : KeyValueMap K) :
    List K → MemoryIndex K → Option IDBError × MemoryIndex K
  | [], index => (none, index)
  | key :: keys, index =>
    let jsValue := engine.deserializeIDBValueToJSValue ((map.lookup key).join)
    if jsValue.isUndefinedOrNull then (none, index)
    else
      let indexKey := engine.generateIndexKeyForValue index.info jsValue
      if indexKey.isEmpty then populateIndex engine map keys index
      else
        match index.putIndexKey key indexKey with
        | (some error, index, _) => (some error, index)
        | (none, index, _) => populateIndex engine map keys index

def populateIndexWithExistingRecords (store : MemoryObjectStore K) (index : MemoryIndex K) :
    Option IDBError × MemoryIndex K :=
  match store.keyValueStore with
  | none => (none, index)
  | some map => populateIndex engine map (orders.keys.visit map.keys) index

def registerIndex (store : MemoryObjectStore K) (ref : IndexRef) : MemoryObjectStore K :=
  let info := (store.indexes ref).info
  { store with
    indexesByName := store.indexesByName.insert info.name ref
    indexesByIdentifier := store.indexesByIdentifier.insert info.identifier ref }

def isWrittenByVersionChange (state : StoreWrite K) : Bool :=
  state.store.writeTransaction = some state.transaction.info.identifier &&
    state.transaction.isVersionChange

/-- The new index is populated before anything else changes; it has no cursors yet. -/
def createIndex (info : IDBIndexInfo) (state : StoreWrite K) : Option IDBError × StoreWrite K :=
  if !state.isWrittenByVersionChange then (some { code := .ConstraintError }, state)
  else
    match populateIndexWithExistingRecords engine orders state.store (.create info) with
    | (some error, _) => (some error, state)
    | (none, index) =>
      let ref := state.store.nextIndex
      let store := { state.store.setIndex ref index with
        nextIndex := ref + 1
        info := state.store.info.addExistingIndex info }
      (none, { state with
        transaction := state.transaction.addNewIndex (self, ref)
        store := registerIndex store ref })

def takeIndexByIdentifier (store : MemoryObjectStore K) (indexIdentifier : UInt64) :
    Option IndexRef × MemoryObjectStore K :=
  match store.indexesByIdentifier.lookup indexIdentifier with
  | none => (none, store)
  | some ref =>
    let name := (store.indexes ref).info.name
    (store.indexesByName.lookup name, { store with
      indexesByIdentifier := store.indexesByIdentifier.erase indexIdentifier
      indexesByName := store.indexesByName.erase name })

def deleteIndex (indexIdentifier : UInt64) (state : StoreWrite K) : Option IDBError × StoreWrite K :=
  if !state.isWrittenByVersionChange then (some { code := .ConstraintError }, state)
  else
    match takeIndexByIdentifier state.store indexIdentifier with
    | (none, store) => (some { code := .ConstraintError }, { state with store := store })
    | (some ref, store) =>
      (none, { state with
        transaction := state.transaction.indexDeleted (self, ref) (store.indexes ref).info.name
          store.info.name
        store := { store with info := store.info.deleteIndex indexIdentifier } })

end StoreWrite

end Odyssey.IndexedDB
