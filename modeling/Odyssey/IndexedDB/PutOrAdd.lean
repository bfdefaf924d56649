import Odyssey.IndexedDB.BackingStore
import Odyssey.IndexedDB.PutRecordSpec

namespace Odyssey.IndexedDB

open Containers

variable {K Object : Type} [IDBKeyOrder K]

inductive ObjectStoreOverwriteMode where
  | Overwrite | OverwriteForCursor | NoOverwrite
  deriving DecidableEq

structure PutRequest (K : Type) where
  transactionIdentifier : IDBResourceIdentifier
  objectStoreIdentifier : UInt64
  keyData : Option K
  originalRecordValue : ThreadSafeDataBuffer
  overwriteMode : ObjectStoreOverwriteMode

structure PutOrders (K : Type) where
  deleting : IterationOrders K
  adding : IterationOrders K

namespace MemoryIDBBackingStore

variable (backingStore : MemoryIDBBackingStore K) (engine : ScriptEngine K Object) (orders : PutOrders K)
  (request : PutRequest K) (objectStoreInfo : IDBObjectStoreInfo) (key : K) (generated : Option UInt64)

/-- The key that a request uses, with the number if it is generated. The source reads a null key
    that is not generated as any other; the client never sends one. -/
def usedKey : Option (Except IDBError (K × Option UInt64) × MemoryIDBBackingStore K) :=
  if objectStoreInfo.autoIncrement && !isValidKey request.keyData then do
    let (generated, backingStore) ← backingStore.generateKeyNumber request.objectStoreIdentifier
    match generated with
    | .error error => return (.error error, backingStore)
    | .ok keyNumber =>
      return (.ok (IDBKeyOrder.setNumberValue keyNumber, some keyNumber), backingStore)
  else do
    let key ← request.keyData
    return (.ok (key, none), backingStore)

def injectedRecordValue : Except IDBError ThreadSafeDataBuffer :=
  match generated, objectStoreInfo.keyPath with
  | some _, some keyPath =>
    match engine.deserializeIDBValueToJSValue request.originalRecordValue with
    | .undefined =>
      .error ⟨.ConstraintError, "Unable to deserialize record value for record key injection"⟩
    | value =>
      match engine.injectIDBKeyIntoScriptValue key value keyPath with
      | none => .error ⟨.ConstraintError, "Unable to inject record key into record value"⟩
      | some injected =>
        match engine.serialize injected with
        | none =>
          .error ⟨.ConstraintError, "Unable to serialize record value after injecting record key"⟩
        | some data => .ok (some data)
  | _, _ => .ok none

def overwriteError : Option (Option IDBError) :=
  if request.overwriteMode = .NoOverwrite then do
    let keyExists ← backingStore.keyExistsInObjectStore request.objectStoreIdentifier key
    return if keyExists then some ⟨.ConstraintError, "Key already exists in the object store"⟩ else none
  else some none

def storeRecord (value : ThreadSafeDataBuffer) : BackingStoreResult K := do
  let (error, backingStore) ← backingStore.deleteRange orders.deleting request.transactionIdentifier
    request.objectStoreIdentifier (.ofKey key)
  match error with
  | some error => return (some error, backingStore)
  | none =>
    return backingStore.addRecord engine orders.adding request.transactionIdentifier objectStoreInfo key value

def updateGenerator : Option (MemoryIDBBackingStore K) :=
  match request.keyData.bind IDBKeyOrder.number with
  | some number =>
    if request.overwriteMode ≠ .OverwriteForCursor && objectStoreInfo.autoIncrement then
      backingStore.maybeUpdateKeyGeneratorNumber request.objectStoreIdentifier number
    else some backingStore
  | none => some backingStore

def failPut (error : IDBError) : BackingStoreResult K :=
  match generated with
  | none => some (some error, backingStore)
  | some keyNumber => do
    let backingStore ← backingStore.revertGeneratedKeyNumber request.objectStoreIdentifier keyNumber
    return (some error, backingStore)

def storeAndFinish (value : ThreadSafeDataBuffer) : BackingStoreResult K := do
  let (error, backingStore) ← backingStore.storeRecord engine orders request objectStoreInfo key value
  match error with
  | some error => backingStore.failPut request generated error
  | none =>
    let backingStore ← backingStore.updateGenerator request objectStoreInfo
    return (none, backingStore)

def checkAndStore : BackingStoreResult K := do
  match ← backingStore.overwriteError request key with
  | some error => backingStore.failPut request generated error
  | none =>
    match injectedRecordValue engine request objectStoreInfo key generated with
    | .error error => backingStore.failPut request generated error
    | .ok injected =>
      backingStore.storeAndFinish engine orders request objectStoreInfo key generated
        (if injected.isSome then injected else request.originalRecordValue)

def performPutOrAdd : BackingStoreResult K :=
  match backingStore.infoForObjectStore request.objectStoreIdentifier with
  | none =>
    some (some ⟨.InvalidStateError, "Object store cannot be found in the backing store"⟩, backingStore)
  | some objectStoreInfo => do
    let (used, backingStore) ← backingStore.usedKey request objectStoreInfo
    match used with
    | .error error => return (some error, backingStore)
    | .ok (key, generated) =>
      backingStore.checkAndStore engine orders request objectStoreInfo key generated

end MemoryIDBBackingStore

end Odyssey.IndexedDB
