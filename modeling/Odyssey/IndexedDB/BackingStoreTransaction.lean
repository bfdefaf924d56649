import Odyssey.IndexedDB.MemoryIndex

namespace Odyssey.IndexedDB

open Containers

variable {K : Type} [IDBKeyOrder K]

/-- The address of a `MemoryObjectStore`. -/
abbrev StoreRef := Nat

/-- The address of a `MemoryIndex` among those of its object store. -/
abbrev IndexRef := Nat

abbrev KeyValueMap (K : Type) := HashMap K ThreadSafeDataBuffer

/-- A null pointer to a map or a set is the absent value. -/
structure MemoryBackingStoreTransaction (K : Type) [IDBKeyOrder K] where
  info : IDBTransactionInfo
  originalDatabaseInfo : Option IDBDatabaseInfo
  inProgress : Bool
  isAborting : Bool
  objectStores : Finset StoreRef
  versionChangeAddedObjectStores : Finset StoreRef
  indexes : Finset (StoreRef × IndexRef)
  versionChangeAddedIndexes : Finset (StoreRef × IndexRef)
  originalKeyGenerators : HashMap StoreRef UInt64
  deletedObjectStores : HashMap WTFString StoreRef
  deletedIndexes : HashMap WTFString (StoreRef × IndexRef)
  originalValues : HashMap StoreRef (KeyValueMap K)
  clearedKeyValueMaps : HashMap StoreRef (Option (KeyValueMap K))
  clearedOrderedKeys : HashMap StoreRef (Option (Finset K))
  originalObjectStoreNames : HashMap StoreRef WTFString
  originalIndexNames : HashMap (StoreRef × IndexRef) WTFString
  clearedIndexValueStores : HashMap (StoreRef × IndexRef) (Option (IndexValueStore K))

namespace MemoryBackingStoreTransaction

/-- `databaseInfo` is what the backing store answers to `getOrEstablishDatabaseInfo`. -/
def create (info : IDBTransactionInfo) (databaseInfo : IDBDatabaseInfo) :
    MemoryBackingStoreTransaction K where
  info := info
  originalDatabaseInfo := if info.mode = .versionchange then some databaseInfo else none
  inProgress := true
  isAborting := false
  objectStores := ∅
  versionChangeAddedObjectStores := ∅
  indexes := ∅
  versionChangeAddedIndexes := ∅
  originalKeyGenerators := ∅
  deletedObjectStores := ∅
  deletedIndexes := ∅
  originalValues := ∅
  clearedKeyValueMaps := ∅
  clearedOrderedKeys := ∅
  originalObjectStoreNames := ∅
  originalIndexNames := ∅
  clearedIndexValueStores := ∅

variable (transaction : MemoryBackingStoreTransaction K)

def isVersionChange : Bool :=
  transaction.info.mode = .versionchange

def isWriting : Bool :=
  transaction.info.mode ≠ .readonly

/-- `HashMap::add`: the first value added under a key stays. -/
def addNew {α β : Type} [DecidableEq α] (table : HashMap α β) (key : α) (value : β) : HashMap α β :=
  if key ∈ table.keys then table else table.insert key value

variable (index : StoreRef × IndexRef)

def addExistingIndex : MemoryBackingStoreTransaction K :=
  { transaction with indexes := insert index transaction.indexes }

def addNewIndex : MemoryBackingStoreTransaction K :=
  addExistingIndex
    { transaction with
      versionChangeAddedIndexes := insert index transaction.versionChangeAddedIndexes } index

/-- `objectStoreName` is the current name of the object store that the index belongs to. -/
def indexDeleted (indexName objectStoreName : WTFString) : MemoryBackingStoreTransaction K :=
  let transaction := { transaction with indexes := transaction.indexes.erase index }
  let forgotten := match transaction.deletedObjectStores.lookup objectStoreName with
    | none => false
    | some deletedObjectStore => deletedObjectStore ≠ index.1
  if forgotten then transaction
  else { transaction with deletedIndexes := addNew transaction.deletedIndexes indexName index }

variable (store : StoreRef)

/-- The log of an object store that starts to be written; the store itself learns of the
    transaction through `writeTransactionStarted`. -/
def addExistingObjectStore (currentKeyGeneratorValue : UInt64) : MemoryBackingStoreTransaction K :=
  { transaction with
    objectStores := insert store transaction.objectStores
    originalKeyGenerators := addNew transaction.originalKeyGenerators store currentKeyGeneratorValue }

def addNewObjectStore (currentKeyGeneratorValue : UInt64) : MemoryBackingStoreTransaction K :=
  addExistingObjectStore
    { transaction with
      versionChangeAddedObjectStores := insert store transaction.versionChangeAddedObjectStores }
    store currentKeyGeneratorValue

/-- Returns whether the map and the set were moved out of the object store: the arguments are
    rvalue references, so an early return leaves them where they are. -/
def objectStoreCleared (keyValueMap : Option (KeyValueMap K)) (orderedKeys : Option (Finset K)) :
    Bool × MemoryBackingStoreTransaction K :=
  if store ∈ transaction.clearedKeyValueMaps.keys then (false, transaction)
  else (true, { transaction with
    clearedKeyValueMaps := transaction.clearedKeyValueMaps.insert store keyValueMap
    clearedOrderedKeys := addNew transaction.clearedOrderedKeys store orderedKeys })

def objectStoreRenamed (oldName : WTFString) : MemoryBackingStoreTransaction K :=
  { transaction with
    originalObjectStoreNames := addNew transaction.originalObjectStoreNames store oldName }

def indexRenamed (oldName : WTFString) : MemoryBackingStoreTransaction K :=
  { transaction with originalIndexNames := addNew transaction.originalIndexNames index oldName }

/-- Returns whether the value store was moved out of the index. -/
def indexCleared (valueStore : Option (IndexValueStore K)) : Bool × MemoryBackingStoreTransaction K :=
  if index ∈ transaction.clearedIndexValueStores.keys then (false, transaction)
  else (true, { transaction with
    clearedIndexValueStores := transaction.clearedIndexValueStores.insert index valueStore })

/-- A null `value` is recorded as a null buffer. -/
def recordValueChanged (store : StoreRef) (key : K) (value : Option ThreadSafeDataBuffer) :
    MemoryBackingStoreTransaction K :=
  if transaction.isAborting then transaction
  else if store ∈ transaction.clearedKeyValueMaps.keys then transaction
  else
    let map := (transaction.originalValues.lookup store).getD ∅
    { transaction with
      originalValues := transaction.originalValues.insert store (addNew map key value.join) }

end MemoryBackingStoreTransaction

end Odyssey.IndexedDB
