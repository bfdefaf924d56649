import Odyssey.IndexedDB.BackingStore

namespace Odyssey.IndexedDB

open Containers Option MemoryBackingStoreTransaction

variable {K Object : Type} [IDBKeyOrder K]

namespace MemoryIDBBackingStore

variable {backingStore after : MemoryIDBBackingStore K} {orders : IterationOrders K}
  {transactionIdentifier : IDBResourceIdentifier} {error : Option IDBError}
  {objectStoreIdentifier : UInt64}

theorem versionChange_eq_some {identifier : IDBResourceIdentifier} {transaction : MemoryBackingStoreTransaction K} :
    backingStore.versionChange identifier = some transaction ↔
      backingStore.transactions.lookup identifier = some transaction ∧ transaction.isVersionChange = true :=
  filter_eq_some_iff

theorem startWriting_fold (refs : List StoreRef) (transaction : MemoryBackingStoreTransaction K)
    (backingStore : MemoryIDBBackingStore K) :
    ∃ generators, refs.foldl startWriting (transaction, backingStore) = ({ transaction with
          objectStores := transaction.objectStores ∪ refs.toFinset
          originalKeyGenerators := generators },
        { backingStore with stores := fun ref => if ref ∈ refs
          then { backingStore.stores ref with writeTransaction := some transaction.info.identifier }
          else backingStore.stores ref }) := by
  induction refs generalizing transaction backingStore with
  | nil => exact ⟨transaction.originalKeyGenerators, by simp⟩
  | cons first refs ih =>
    rcases ih (startWriting (transaction, backingStore) first).1
      (startWriting (transaction, backingStore) first).2 with ⟨generators, folded⟩
    refine ⟨generators, folded.trans (Prod.ext ?_ ?_)⟩
    · simp [startWriting, addExistingObjectStore]
    · simp only [startWriting, setStore, addExistingObjectStore]
      congr 1
      funext ref
      by_cases same : ref = first
      · subst same
        simp
      · simp [same]

def scope (orders : IterationOrders K) (info : IDBTransactionInfo)
    (backingStore : MemoryIDBBackingStore K) : List StoreRef :=
  match info.mode with
  | .versionchange => backingStore.identifiedStores orders.identifiers
  | .readwrite => backingStore.storesInScope orders.names info.objectStores
  | .readonly => []

theorem beginTransaction_spec (orders : IterationOrders K) (info : IDBTransactionInfo)
    (fresh : info.identifier ∉ backingStore.transactions.keys) :
    ∃ generators, backingStore.beginTransaction orders info = (none, { backingStore with
        transactions := backingStore.transactions.insert info.identifier
          { MemoryBackingStoreTransaction.create info backingStore.databaseInfo with
            objectStores := (backingStore.scope orders info).toFinset
            originalKeyGenerators := generators }
        stores := fun ref => if ref ∈ backingStore.scope orders info
          then { backingStore.stores ref with writeTransaction := some info.identifier }
          else backingStore.stores ref }) := by
  have chosen : (if (create (K := K) info backingStore.databaseInfo).isVersionChange
      then backingStore.identifiedStores orders.identifiers
      else if (create (K := K) info backingStore.databaseInfo).isWriting
        then backingStore.storesInScope orders.names info.objectStores else []) =
      backingStore.scope orders info := by
    unfold scope isVersionChange isWriting
    cases mode : info.mode <;> simp [create, mode]
  rcases startWriting_fold (backingStore.scope orders info)
    (create info backingStore.databaseInfo) backingStore with ⟨generators, folded⟩
  refine ⟨generators, ?_⟩
  simp only [beginTransaction, if_neg fresh, chosen, folded]
  simp [setTransaction, create]

def withNewStore (transactionIdentifier : IDBResourceIdentifier) (info : IDBObjectStoreInfo)
    (transaction : MemoryBackingStoreTransaction K) (backingStore : MemoryIDBBackingStore K) :
    MemoryIDBBackingStore K where
  databaseInfo := backingStore.databaseInfo.addExistingObjectStore info
  transactions := backingStore.transactions.insert transaction.info.identifier
    (transaction.addNewObjectStore backingStore.nextStore 1)
  stores := Function.update backingStore.stores backingStore.nextStore
    { MemoryObjectStore.create info with writeTransaction := some transactionIdentifier }
  nextStore := backingStore.nextStore + 1
  objectStoresByIdentifier :=
    backingStore.objectStoresByIdentifier.insert info.identifier backingStore.nextStore
  objectStoresByName := backingStore.objectStoresByName.insert info.name backingStore.nextStore

theorem createObjectStore_inv {info : IDBObjectStoreInfo}
    (made : backingStore.createObjectStore orders transactionIdentifier info = some (error, after)) :
    after = backingStore ∨ ∃ transaction, backingStore.versionChange transactionIdentifier = some transaction ∧
        backingStore.databaseInfo.hasObjectStore orders.identifiers info.name = false ∧
        info.identifier ∉ backingStore.objectStoresByIdentifier.keys ∧
        after = backingStore.withNewStore transactionIdentifier info transaction := by
  unfold createObjectStore at made
  by_cases named : backingStore.databaseInfo.hasObjectStore orders.identifiers info.name = true
  · rw [if_pos named] at made
    cases made
    exact .inl rfl
  · rw [if_neg named] at made
    by_cases used : info.identifier ∈ backingStore.objectStoresByIdentifier.keys
    · rw [if_pos used] at made
      cases made
    · rw [if_neg used] at made
      rcases bind_eq_some_iff.mp made with ⟨transaction, found, made⟩
      refine .inr ⟨transaction, found, Bool.eq_false_iff.mpr named, used, ?_⟩
      cases made
      simp [withNewStore, registerObjectStore, setTransaction, setStore, MemoryObjectStore.create,
        addNewObjectStore, addExistingObjectStore]

def withoutStore (orders : IterationOrders K) (objectStoreIdentifier : UInt64) (ref : StoreRef)
    (transaction : MemoryBackingStoreTransaction K) (backingStore : MemoryIDBBackingStore K) :
    MemoryIDBBackingStore K :=
  let state := objectStoreDeleted orders ref ⟨transaction, backingStore.stores ref, []⟩
  { databaseInfo := backingStore.databaseInfo.deleteObjectStoreNamed orders.identifiers
      (backingStore.stores ref).info.name
    transactions := backingStore.transactions.insert state.transaction.info.identifier state.transaction
    stores := Function.update backingStore.stores ref state.store
    nextStore := backingStore.nextStore
    objectStoresByIdentifier := backingStore.objectStoresByIdentifier.erase objectStoreIdentifier
    objectStoresByName := backingStore.objectStoresByName.erase (backingStore.stores ref).info.name }

theorem deleteObjectStore_inv
    (made : backingStore.deleteObjectStore orders transactionIdentifier objectStoreIdentifier = some (error, after)) :
    after = backingStore ∨ ∃ transaction ref, backingStore.versionChange transactionIdentifier = some transaction ∧
        backingStore.objectStoresByIdentifier.lookup objectStoreIdentifier = some ref ∧
        after = backingStore.withoutStore orders objectStoreIdentifier ref transaction := by
  unfold deleteObjectStore at made
  split at made
  · cases made
    exact .inl rfl
  · rcases bind_eq_some_iff.mp made with ⟨transaction, found, made⟩
    unfold takeObjectStoreByIdentifier at made
    cases filed : backingStore.objectStoresByIdentifier.lookup objectStoreIdentifier with
    | none =>
      rw [filed] at made
      cases made
      exact .inl rfl
    | some ref =>
      rw [filed] at made
      cases made
      exact .inr ⟨transaction, ref, found, rfl, rfl⟩

def withStoreName (objectStoreIdentifier : UInt64) (ref : StoreRef) (newName : WTFString)
    (transaction : MemoryBackingStoreTransaction K) (backingStore : MemoryIDBBackingStore K) :
    MemoryIDBBackingStore K :=
  { backingStore with
    databaseInfo := backingStore.databaseInfo.renameObjectStore objectStoreIdentifier newName
    transactions := backingStore.transactions.insert transaction.info.identifier
      (transaction.objectStoreRenamed ref (backingStore.stores ref).info.name)
    stores := Function.update backingStore.stores ref ((backingStore.stores ref).rename newName) }

theorem renameObjectStore_inv {newName : WTFString}
    (made : backingStore.renameObjectStore transactionIdentifier objectStoreIdentifier newName = some (error, after)) :
    after = backingStore ∧ (backingStore.databaseInfo.infoForExistingObjectStore objectStoreIdentifier = none ∨
          backingStore.objectStoresByIdentifier.lookup objectStoreIdentifier = none) ∨
      ∃ transaction ref, backingStore.versionChange transactionIdentifier = some transaction ∧
        backingStore.objectStoresByIdentifier.lookup objectStoreIdentifier = some ref ∧
        after = backingStore.withStoreName objectStoreIdentifier ref newName transaction := by
  unfold renameObjectStore at made
  split at made
  · next unlisted =>
    cases made
    exact .inl ⟨rfl, .inl unlisted⟩
  · rcases bind_eq_some_iff.mp made with ⟨transaction, found, made⟩
    split at made
    · next unfiled =>
      cases made
      exact .inl ⟨rfl, .inr unfiled⟩
    · next ref filed =>
      cases made
      exact .inr ⟨transaction, ref, found, filed, rfl⟩

theorem call_inv (request : StoreRef → StoreWrite K → Option IDBError × StoreWrite K) (made : (do
      let transaction ← backingStore.versionChange transactionIdentifier
      match backingStore.objectStoresByIdentifier.lookup objectStoreIdentifier with
      | none => return (some { code := .ConstraintError }, backingStore)
      | some ref => return backingStore.call transaction ref (request ref) : BackingStoreResult K) =
        some (error, after)) :
    after = backingStore ∨ ∃ transaction ref, backingStore.versionChange transactionIdentifier = some transaction ∧
        (error, after) = backingStore.call transaction ref (request ref) := by
  rcases bind_eq_some_iff.mp made with ⟨transaction, found, made⟩
  split at made
  · cases made
    exact .inl rfl
  · next ref filed =>
    cases made
    exact .inr ⟨transaction, ref, found, rfl⟩

end MemoryIDBBackingStore

end Odyssey.IndexedDB
