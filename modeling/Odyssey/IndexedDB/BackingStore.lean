import Odyssey.IndexedDB.MemoryObjectStore

namespace Odyssey.IndexedDB

open Containers

variable {K Object : Type} [IDBKeyOrder K]

/-- The database info is established when the database is opened, before any of the calls below. -/
structure MemoryIDBBackingStore (K : Type) [IDBKeyOrder K] where
  databaseInfo : IDBDatabaseInfo
  transactions : HashMap IDBResourceIdentifier (MemoryBackingStoreTransaction K)
  stores : StoreRef → MemoryObjectStore K
  nextStore : StoreRef
  objectStoresByIdentifier : HashMap UInt64 StoreRef
  objectStoresByName : HashMap WTFString StoreRef

/-- A call has no result if it follows a null pointer or is not one that its callers make: a schema
    change outside a version change transaction, an identifier that is already in use. -/
abbrev BackingStoreResult (K : Type) [IDBKeyOrder K] := Option (Option IDBError × MemoryIDBBackingStore K)

namespace MemoryIDBBackingStore

variable (backingStore : MemoryIDBBackingStore K)

def setStore (ref : StoreRef) (store : MemoryObjectStore K) : MemoryIDBBackingStore K :=
  { backingStore with stores := Function.update backingStore.stores ref store }

def setTransaction (transaction : MemoryBackingStoreTransaction K) : MemoryIDBBackingStore K :=
  { backingStore with
    transactions := backingStore.transactions.insert transaction.info.identifier transaction }

/-- A call on an object store together with the transaction that its `m_writeTransaction` points to. -/
def write {Result : Type} (ref : StoreRef) (call : StoreWrite K → Result × StoreWrite K) :
    Option (Result × MemoryIDBBackingStore K) := do
  let identifier ← (backingStore.stores ref).writeTransaction
  let transaction ← backingStore.transactions.lookup identifier
  let (result, state) := call ⟨transaction, backingStore.stores ref, []⟩
  return (result, (backingStore.setStore ref state.store).setTransaction state.transaction)

/-- `addExistingObjectStore` of a transaction, with the `writeTransactionStarted` that it calls. -/
def startWriting (state : MemoryBackingStoreTransaction K × MemoryIDBBackingStore K) (ref : StoreRef) :
    MemoryBackingStoreTransaction K × MemoryIDBBackingStore K :=
  let store := state.2.stores ref
  (state.1.addExistingObjectStore ref store.keyGeneratorValue,
    state.2.setStore ref { store with writeTransaction := some state.1.info.identifier })

def identifiedStores (order : IterationOrder UInt64) : List StoreRef :=
  (order.visit backingStore.objectStoresByIdentifier.keys).filterMap
    backingStore.objectStoresByIdentifier.lookup

def storesInScope (order : IterationOrder WTFString) (scope : List WTFString) : List StoreRef :=
  ((order.visit backingStore.objectStoresByName.keys).filter (· ∈ scope)).filterMap
    backingStore.objectStoresByName.lookup

variable (engine : ScriptEngine K Object) (orders : IterationOrders K)

def beginTransaction (info : IDBTransactionInfo) : Option IDBError × MemoryIDBBackingStore K :=
  if info.identifier ∈ backingStore.transactions.keys then
    (some ⟨.InvalidStateError, "Backing store asked to create transaction it already has a record of"⟩,
      backingStore)
  else
    let transaction := MemoryBackingStoreTransaction.create info backingStore.databaseInfo
    let scope := if transaction.isVersionChange then backingStore.identifiedStores orders.identifiers
      else if transaction.isWriting then backingStore.storesInScope orders.names info.objectStores
      else []
    let (transaction, backingStore) := scope.foldl startWriting (transaction, backingStore)
    (none, backingStore.setTransaction transaction)

def finishWriting (refs : Finset StoreRef) : MemoryIDBBackingStore K :=
  { backingStore with
    stores := fun ref => if ref ∈ refs then { backingStore.stores ref with writeTransaction := none }
      else backingStore.stores ref }

def deletedStores (transaction : MemoryBackingStoreTransaction K) : Finset StoreRef :=
  transaction.deletedObjectStores.keys.biUnion
    (fun name => (transaction.deletedObjectStores.lookup name).toFinset)

def finish (transaction : MemoryBackingStoreTransaction K) (backingStore : MemoryIDBBackingStore K) :
    MemoryIDBBackingStore K :=
  if transaction.isWriting then
    (backingStore.finishWriting transaction.objectStores).finishWriting (deletedStores transaction)
  else backingStore

variable (transactionIdentifier : IDBResourceIdentifier)

def commitTransaction : Option IDBError × MemoryIDBBackingStore K :=
  match backingStore.transactions.lookup transactionIdentifier with
  | none =>
    (some ⟨.InvalidStateError, "Backing store asked to commit transaction it didn't have record of"⟩,
      backingStore)
  | some transaction =>
    (none, finish transaction
      { backingStore with transactions := backingStore.transactions.erase transactionIdentifier })

def registerObjectStore (ref : StoreRef) : MemoryIDBBackingStore K :=
  let info := (backingStore.stores ref).info
  { backingStore with
    objectStoresByName := backingStore.objectStoresByName.insert info.name ref
    objectStoresByIdentifier := backingStore.objectStoresByIdentifier.insert info.identifier ref }

def takeObjectStoreByIdentifier (identifier : UInt64) : Option StoreRef × MemoryIDBBackingStore K :=
  match backingStore.objectStoresByIdentifier.lookup identifier with
  | none => (none, backingStore)
  | some ref =>
    (some ref, { backingStore with
      objectStoresByIdentifier := backingStore.objectStoresByIdentifier.erase identifier
      objectStoresByName :=
        backingStore.objectStoresByName.erase (backingStore.stores ref).info.name })

def versionChange : Option (MemoryBackingStoreTransaction K) :=
  (backingStore.transactions.lookup transactionIdentifier).filter (·.isVersionChange)

def createObjectStore (info : IDBObjectStoreInfo) : BackingStoreResult K :=
  if backingStore.databaseInfo.hasObjectStore orders.identifiers info.name then
    some (some { code := .ConstraintError }, backingStore)
  else if info.identifier ∈ backingStore.objectStoresByIdentifier.keys then none
  else do
    let transaction ← backingStore.versionChange transactionIdentifier
    let ref := backingStore.nextStore
    let store : MemoryObjectStore K :=
      { MemoryObjectStore.create info with writeTransaction := some transactionIdentifier }
    let transaction := transaction.addNewObjectStore ref store.keyGeneratorValue
    let backingStore := { (backingStore.setStore ref store).setTransaction transaction with
      databaseInfo := backingStore.databaseInfo.addExistingObjectStore info
      nextStore := ref + 1 }
    return (none, backingStore.registerObjectStore ref)

/-- The calls of `deleteIndex` that `deleteAllIndexes` makes; their errors are dropped. -/
def deleteAllIndexes (self : StoreRef) (state : StoreWrite K) : StoreWrite K :=
  let identifiers := (state.store.namedIndexes orders).map
    (fun ref => (state.store.indexes ref).info.identifier)
  identifiers.foldl (fun state identifier => (state.deleteIndex self identifier).2) state

def objectStoreDeleted (ref : StoreRef) (state : StoreWrite K) : StoreWrite K :=
  let state := deleteAllIndexes orders ref { state with
    transaction := { state.transaction with objectStores := state.transaction.objectStores.erase ref } }
  { state with
    transaction := { state.transaction with
      deletedObjectStores := MemoryBackingStoreTransaction.addNew state.transaction.deletedObjectStores
        state.store.info.name ref } }

variable (objectStoreIdentifier : UInt64)

def deleteObjectStore : BackingStoreResult K :=
  match backingStore.databaseInfo.infoForExistingObjectStore objectStoreIdentifier with
  | none => some (some { code := .ConstraintError }, backingStore)
  | some _ => do
    let transaction ← backingStore.versionChange transactionIdentifier
    match backingStore.takeObjectStoreByIdentifier objectStoreIdentifier with
    | (none, backingStore) => return (some { code := .ConstraintError }, backingStore)
    | (some ref, backingStore) =>
      let databaseInfo := backingStore.databaseInfo.deleteObjectStoreNamed orders.identifiers
        (backingStore.stores ref).info.name
      let state := objectStoreDeleted orders ref ⟨transaction, backingStore.stores ref, []⟩
      return (none, { (backingStore.setStore ref state.store).setTransaction state.transaction with
        databaseInfo := databaseInfo })

def renameObjectStore (newName : WTFString) : BackingStoreResult K :=
  match backingStore.databaseInfo.infoForExistingObjectStore objectStoreIdentifier with
  | none => some (some { code := .ConstraintError }, backingStore)
  | some _ => do
    let transaction ← backingStore.versionChange transactionIdentifier
    match backingStore.objectStoresByIdentifier.lookup objectStoreIdentifier with
    | none => return (some { code := .ConstraintError }, backingStore)
    | some ref =>
      let store := backingStore.stores ref
      let transaction := transaction.objectStoreRenamed ref store.info.name
      return (none, { (backingStore.setStore ref (store.rename newName)).setTransaction transaction with
        databaseInfo := backingStore.databaseInfo.renameObjectStore objectStoreIdentifier newName })

def clearObjectStore : BackingStoreResult K :=
  match backingStore.objectStoresByIdentifier.lookup objectStoreIdentifier with
  | none => some (some { code := .ConstraintError }, backingStore)
  | some ref => backingStore.write ref (fun state => (none, state.clear orders ref))

def call (transaction : MemoryBackingStoreTransaction K) (ref : StoreRef)
    (request : StoreWrite K → Option IDBError × StoreWrite K) : Option IDBError × MemoryIDBBackingStore K :=
  let (error, state) := request ⟨transaction, backingStore.stores ref, []⟩
  (error, (backingStore.setStore ref state.store).setTransaction state.transaction)

def createIndex (info : IDBIndexInfo) : BackingStoreResult K := do
  let transaction ← backingStore.versionChange transactionIdentifier
  match backingStore.objectStoresByIdentifier.lookup info.objectStoreIdentifier with
  | none => return (some { code := .ConstraintError }, backingStore)
  | some ref => return backingStore.call transaction ref (·.createIndex engine orders ref info)

def deleteIndex (indexIdentifier : UInt64) : BackingStoreResult K := do
  let transaction ← backingStore.versionChange transactionIdentifier
  match backingStore.objectStoresByIdentifier.lookup objectStoreIdentifier with
  | none => return (some { code := .ConstraintError }, backingStore)
  | some ref => return backingStore.call transaction ref (·.deleteIndex ref indexIdentifier)

/-- `MemoryObjectStore::renameIndex`; the info is found under the old name of the index. -/
def renameIndexOf (order : IterationOrder UInt64) (store : MemoryObjectStore K) (ref : IndexRef)
    (newName : WTFString) : Option (MemoryObjectStore K) := do
  let oldName := (store.indexes ref).info.name
  let info ← store.info.infoForIndexName order oldName
  let taken ← store.indexesByName.lookup oldName
  return { store.setIndex ref ((store.indexes ref).rename newName) with
    info := store.info.renameIndex info.identifier newName
    indexesByName := (store.indexesByName.erase oldName).insert newName taken }

def indexForIdentifiers (indexIdentifier : UInt64) : Option (StoreRef × IndexRef) := do
  let ref ← backingStore.objectStoresByIdentifier.lookup objectStoreIdentifier
  let index ← (backingStore.stores ref).indexesByIdentifier.lookup indexIdentifier
  return (ref, index)

def renameIndex (indexIdentifier : UInt64) (newName : WTFString) : BackingStoreResult K :=
  match (backingStore.databaseInfo.infoForExistingObjectStore objectStoreIdentifier).bind
      (·.infoForExistingIndex indexIdentifier) with
  | none => some (some { code := .ConstraintError }, backingStore)
  | some _ => do
    let transaction ← backingStore.versionChange transactionIdentifier
    match backingStore.indexForIdentifiers objectStoreIdentifier indexIdentifier with
    | none => return (some { code := .ConstraintError }, backingStore)
    | some (ref, index) =>
      let store := backingStore.stores ref
      let renamed ← renameIndexOf orders.identifiers store index newName
      let transaction := transaction.indexRenamed (ref, index) (store.indexes index).info.name
      return (none, { (backingStore.setStore ref renamed).setTransaction transaction with
        databaseInfo :=
          backingStore.databaseInfo.renameIndex objectStoreIdentifier indexIdentifier newName })

def infoForObjectStore : Option IDBObjectStoreInfo :=
  backingStore.databaseInfo.infoForExistingObjectStore objectStoreIdentifier

def deleteRange (range : IDBKeyRangeData K) : BackingStoreResult K :=
  if transactionIdentifier ∉ backingStore.transactions.keys then
    some (some ⟨.UnknownError, "No backing store transaction found to delete from"⟩, backingStore)
  else
    match backingStore.objectStoresByIdentifier.lookup objectStoreIdentifier with
    | none => some (some ⟨.UnknownError, "No backing store object store found"⟩, backingStore)
    | some ref => backingStore.write ref (fun state => (none, state.deleteRange orders ref range))

def addRecord (objectStoreInfo : IDBObjectStoreInfo) (keyData : K) (value : ThreadSafeDataBuffer) :
    Option IDBError × MemoryIDBBackingStore K :=
  match backingStore.transactions.lookup transactionIdentifier with
  | none => (some ⟨.UnknownError, "No backing store transaction found to put record"⟩, backingStore)
  | some transaction =>
    match backingStore.objectStoresByIdentifier.lookup objectStoreInfo.identifier with
    | none => (some ⟨.UnknownError, "No backing store object store found to put record"⟩, backingStore)
    | some ref => backingStore.call transaction ref (·.addRecord engine orders keyData value)

def maxGeneratedKeyValue : UInt64 := 0x20000000000000

def setKeyGeneratorValue (ref : StoreRef) (value : UInt64) : MemoryIDBBackingStore K :=
  backingStore.setStore ref { backingStore.stores ref with keyGeneratorValue := value }

def generateKeyNumber : Option (Except IDBError UInt64 × MemoryIDBBackingStore K) := do
  let ref ← backingStore.objectStoresByIdentifier.lookup objectStoreIdentifier
  let keyNumber := (backingStore.stores ref).keyGeneratorValue
  if keyNumber > maxGeneratedKeyValue then
    return (.error ⟨.ConstraintError,
      "Cannot generate new key value over 2^53 for object store operation"⟩, backingStore)
  else return (.ok keyNumber, backingStore.setKeyGeneratorValue ref (keyNumber + 1))

def revertGeneratedKeyNumber (keyNumber : UInt64) : Option (MemoryIDBBackingStore K) := do
  let ref ← backingStore.objectStoresByIdentifier.lookup objectStoreIdentifier
  return backingStore.setKeyGeneratorValue ref keyNumber

/-- The conversion of a number out of the range of `uint64_t` is undefined in the source. -/
def maybeUpdateKeyGeneratorNumber (newKeyNumber : Float) : Option (MemoryIDBBackingStore K) := do
  let ref ← backingStore.objectStoresByIdentifier.lookup objectStoreIdentifier
  if newKeyNumber < (backingStore.stores ref).keyGeneratorValue.toFloat then return backingStore
  else
    let newKeyInteger := newKeyNumber.toUInt64
    let newKeyInteger := if newKeyInteger ≤ newKeyNumber.toUInt64 then newKeyInteger + 1
      else newKeyInteger
    return backingStore.setKeyGeneratorValue ref newKeyInteger

def keyExistsInObjectStore (keyData : K) : Option Bool := do
  let ref ← backingStore.objectStoresByIdentifier.lookup objectStoreIdentifier
  return (backingStore.stores ref).containsRecord keyData

end MemoryIDBBackingStore

end Odyssey.IndexedDB
