import Odyssey.IndexedDB.IndexConsistencyRuns
import Odyssey.IndexedDB.StoreRegistry

namespace Odyssey.IndexedDB

open Containers Systems List Option Function IDBDatabaseInfo MemoryObjectStore HashMap StoreWrite Prod

variable {K Object : Type} [IDBKeyOrder K]

namespace StoreWrite

def ownership (state : StoreWrite K) : StoreOwner × LiveTransaction :=
  (state.store.owner, state.transaction.live)

theorem ownership_of_frame {after before : StoreWrite K} (kept : after.frame = before.frame) :
    after.ownership = before.ownership :=
  congrArg (fun frame => (⟨frame.1.info.identifier, frame.1.info.name, frame.1.writeTransaction⟩,
    frame.2.live) : StoreSchema × MemoryBackingStoreTransaction K → StoreOwner × LiveTransaction) kept

theorem ownership_of_indexes {after before : StoreWrite K} (same : withIndexesOf before after = before) :
    after.ownership = before.ownership :=
  (congrArg ownership same :)

end StoreWrite

namespace MemoryIDBBackingStore

theorem deleteAllIndexes_ownership (orders : IterationOrders K) (self : StoreRef) (state : StoreWrite K) :
    (deleteAllIndexes orders self state).ownership = state.ownership := by
  have loop : ∀ (identifiers : List UInt64) (state : StoreWrite K),
      (identifiers.foldl (fun state identifier => (state.deleteIndex self identifier).2) state).ownership =
        state.ownership := by
    intro identifiers
    induction identifiers with
    | nil => exact fun _ => rfl
    | cons identifier identifiers ih =>
      intro state
      exact (ih _).trans (ownership_of_indexes (deleteIndex_withIndexesOf self identifier state))
  exact loop _ state

theorem owners_update {stores : StoreRef → MemoryObjectStore K} {ref : StoreRef}
    {store : MemoryObjectStore K} (kept : store.owner = (stores ref).owner) :
    (fun other => (Function.update stores ref store other).owner) = fun other => (stores other).owner := by
  have moved := comp_update owner stores ref store
  rw [kept] at moved
  exact moved.trans (update_eq_self ref _)

variable {backingStore after : MemoryIDBBackingStore K} {identifier : UInt64} {ref : StoreRef}
  {transaction : MemoryBackingStoreTransaction K} {newName : WTFString}

theorem live_of_found {identifier : IDBResourceIdentifier}
    (found : backingStore.transactions.lookup identifier = some transaction) :
    backingStore.registry.live identifier = some transaction.live := by
  simp [registry, found]

theorem registry_of_ownership (after : StoreWrite K)
    (found : backingStore.transactions.lookup transaction.info.identifier = some transaction)
    (kept : after.ownership = ((backingStore.stores ref).owner, transaction.live)) :
    ((backingStore.setStore ref after.store).setTransaction after.transaction).registry = backingStore.registry := by
  have owners := owners_update (congrArg fst kept)
  have live : after.transaction.live = transaction.live := congrArg snd kept
  have same : after.transaction.info = transaction.info := congrArg LiveTransaction.info live
  have running : (fun identifier => ((backingStore.transactions.insert after.transaction.info.identifier
      after.transaction).lookup identifier).map (·.live)) =
      fun identifier => (backingStore.transactions.lookup identifier).map (·.live) := by
    rw [map_lookup_insert, live, same]
    apply update_eq_self_iff.mpr
    rw [found, map_some]
  show StoreRegistry.mk _ _ _ _ _ _ = StoreRegistry.mk _ _ _ _ _ _
  rw [← owners, ← running]
  rfl

theorem beginTransaction_registry (orders : IterationOrders K) (info : IDBTransactionInfo)
    (fresh : info.identifier ∉ backingStore.transactions.keys) :
    (backingStore.beginTransaction orders info).2.registry =
      backingStore.registry.start info (backingStore.scope orders info).toFinset := by
  rcases beginTransaction_spec orders info fresh with ⟨generators, result⟩
  rw [result]
  have owners : (fun ref => (if ref ∈ backingStore.scope orders info
        then { backingStore.stores ref with writeTransaction := some info.identifier }
        else backingStore.stores ref).owner) =
      fun ref => if ref ∈ (backingStore.scope orders info).toFinset
        then { (backingStore.stores ref).owner with writer := some info.identifier }
        else (backingStore.stores ref).owner := by
    funext ref
    simp only [List.mem_toFinset]
    split <;> rfl
  show StoreRegistry.mk _ _ _ _ _ _ = StoreRegistry.mk _ _ _ _ _ _
  rw [owners, map_lookup_insert]
  rfl

theorem commitTransaction_registry (inOrder : backingStore.registry.InOrder) {identifier : IDBResourceIdentifier}
    (found : backingStore.transactions.lookup identifier = some transaction) :
    (backingStore.commitTransaction identifier).2.registry = backingStore.registry.finish identifier
      (transaction.live.objectStores ∪ transaction.live.deletedObjectStores) := by
  have live := live_of_found found
  have running := map_lookup_erase MemoryBackingStoreTransaction.live backingStore.transactions identifier
  unfold commitTransaction finish
  rw [found]
  by_cases writing : transaction.isWriting = true
  · simp only [if_pos writing]
    show StoreRegistry.mk _ _ _ _ _ _ = StoreRegistry.mk _ _ _ _ _ _
    have owners : (fun ref => (((({ backingStore with
          transactions := backingStore.transactions.erase identifier } :
          MemoryIDBBackingStore K).finishWriting transaction.objectStores).finishWriting
            (deletedStores transaction)).stores ref).owner) =
        fun ref => if ref ∈ transaction.live.objectStores ∪ transaction.live.deletedObjectStores
          then { (backingStore.stores ref).owner with writer := none }
          else (backingStore.stores ref).owner := by
      funext ref
      simp only [finishWriting, MemoryBackingStoreTransaction.live]
      by_cases stored : ref ∈ transaction.objectStores <;> by_cases deleted : ref ∈ deletedStores transaction <;>
        simp [stored, deleted, owner]
    rw [owners]
    exact congrArg (StoreRegistry.mk _ _ _ _ · _) running
  · -- A transaction that only reads has no stores to leave.
    have mode : transaction.live.info.mode = .readonly := by
      simpa [MemoryBackingStoreTransaction.isWriting, MemoryBackingStoreTransaction.live] using writing
    have stores : transaction.live.objectStores = ∅ := by
      apply Finset.eq_empty_of_forall_notMem
      intro ref member
      have writes := ((inOrder.inScope identifier transaction.live live ref).mp member).2
      simp [IDBTransactionInfo.Writes, mode] at writes
    have deleted := inOrder.undeleted identifier transaction.live live (by simp [mode])
    simp only [if_neg writing]
    simp only [stores, deleted, Finset.union_empty]
    exact congrArg (StoreRegistry.mk _ _ _ _ · _) running

theorem withNewStore_registry (info : IDBObjectStoreInfo) :
    (backingStore.withNewStore transaction.info.identifier info transaction).registry =
      backingStore.registry.create transaction.live info.identifier info.name := by
  have owners := comp_update owner backingStore.stores backingStore.nextStore
    { create info with writeTransaction := some transaction.info.identifier }
  show StoreRegistry.mk _ _ _ _ _ _ = StoreRegistry.mk _ _ _ _ _ _
  simp only [withNewStore, addExistingObjectStore]
  rw [map_lookup_insert, map_lookup_insert]
  exact congrArg (StoreRegistry.mk _ _ _ · _ _) owners

theorem objectStoreDeleted_ownership (orders : IterationOrders K) (ref : StoreRef) (state : StoreWrite K) :
    ∃ deleted, (objectStoreDeleted orders ref state).ownership = (state.store.owner, { state.transaction.live with
        objectStores := state.transaction.objectStores.erase ref, deletedObjectStores := deleted }) := by
  have kept := deleteAllIndexes_ownership orders ref { state with
    transaction := { state.transaction with objectStores := state.transaction.objectStores.erase ref } }
  have owner := congrArg fst kept
  have live := congrArg snd kept
  refine ⟨(objectStoreDeleted orders ref state).transaction.live.deletedObjectStores, Prod.ext owner ?_⟩
  have info := congrArg LiveTransaction.info live
  have stores := congrArg LiveTransaction.objectStores live
  exact congrArg₂ (LiveTransaction.mk · · _) info stores

section Deleted

variable (inOrder : backingStore.registry.InOrder)
  (filed : backingStore.objectStoresByIdentifier.lookup identifier = some ref)
include inOrder filed

theorem listing_of_filed : ∃ info, backingStore.databaseInfo.objectStoreMap.lookup identifier = some info ∧
    info.name = (backingStore.stores ref).info.name := by
  have entry := inOrder.listed identifier
  rw [show backingStore.registry.byIdentifier.lookup identifier = some ref from filed] at entry
  rcases map_eq_some_iff.mp entry with ⟨info, found, same⟩
  exact ⟨info, found, congrArg snd same⟩

theorem deleteObjectStoreNamed_listed (order : IterationOrder UInt64) :
    (fun key => ((backingStore.databaseInfo.deleteObjectStoreNamed order
      (backingStore.stores ref).info.name).objectStoreMap.lookup key).map (·.listing)) =
      Function.update backingStore.registry.listed identifier none := by
  have listed : ∀ key info, backingStore.databaseInfo.objectStoreMap.lookup key = some info →
      info.identifier = key ∧ (info.name = (backingStore.stores ref).info.name → key = identifier) := by
    intro key info found
    have entry := inOrder.listed key
    simp only [registry, found] at entry
    rcases map_eq_some_iff.mp entry.symm with ⟨other, otherFiled, same⟩
    have sameIdentifier : key = info.identifier := congrArg fst same
    have sameName : (backingStore.stores other).info.name = info.name := congrArg snd same
    refine ⟨sameIdentifier.symm, ?_⟩
    intro named
    have equal : other = ref := inOrder.name_injective otherFiled filed (sameName.trans named)
    rw [equal] at otherFiled
    exact ((inOrder.identified key ref otherFiled).1).symm.trans (inOrder.identified identifier ref filed).1
  rcases listing_of_filed inOrder filed with ⟨info, found, named⟩
  unfold deleteObjectStoreNamed infoForObjectStoreName objectStores
  cases searched : ((order.visit backingStore.databaseInfo.objectStoreMap.keys).filterMap
      backingStore.databaseInfo.objectStoreMap.lookup).find?
      (fun store => store.name = (backingStore.stores ref).info.name) with
  | none =>
    have absent := find?_eq_none.mp searched info ((order.mem_visit_values _ info).mpr ⟨identifier, found⟩)
    simp [named] at absent
  | some first =>
    have member := mem_of_find?_eq_some searched
    have sameName := find?_some searched
    rcases (order.mem_visit_values _ first).mp member with ⟨key, firstFound⟩
    rcases listed key first firstFound with ⟨identified, unique⟩
    have same : first.identifier = identifier := by
      rw [identified]
      exact unique (by simpa using sameName)
    simp only [same]
    exact map_lookup_erase IDBObjectStoreInfo.listing _ identifier

theorem withoutStore_registry (orders : IterationOrders K) (transaction : MemoryBackingStoreTransaction K) :
    ∃ deleted, (backingStore.withoutStore orders identifier ref transaction).registry =
      backingStore.registry.delete transaction.live identifier ref deleted := by
  rcases objectStoreDeleted_ownership orders ref ⟨transaction, backingStore.stores ref, []⟩ with
    ⟨deleted, kept⟩
  have owners := owners_update (congrArg fst kept)
  have live := congrArg snd kept
  have info := congrArg LiveTransaction.info live
  refine ⟨deleted, ?_⟩
  show StoreRegistry.mk _ _ _ _ _ _ = StoreRegistry.mk _ _ _ _ _ _
  simp only [withoutStore]
  rw [owners, map_lookup_insert, deleteObjectStoreNamed_listed inOrder filed]
  have identified : (objectStoreDeleted orders ref
      ⟨transaction, backingStore.stores ref, []⟩).transaction.info.identifier =
      transaction.info.identifier := congrArg IDBTransactionInfo.identifier info
  rw [identified]
  exact congrArg (fun live => StoreRegistry.mk _ _ _ _
    (update backingStore.registry.live transaction.info.identifier (some live)) _) live

end Deleted

theorem withStoreName_registry (inOrder : backingStore.registry.InOrder)
    (found : backingStore.transactions.lookup transaction.info.identifier = some transaction)
    (filed : backingStore.objectStoresByIdentifier.lookup identifier = some ref)
    (same : (backingStore.stores ref).info.name = newName) :
    (backingStore.withStoreName identifier ref newName transaction).registry = backingStore.registry := by
  have kept : ((backingStore.stores ref).rename newName).owner = (backingStore.stores ref).owner := by
    rw [← same]
    rfl
  have listed : (fun key => ((backingStore.databaseInfo.renameObjectStore identifier
      newName).objectStoreMap.lookup key).map (·.listing)) = backingStore.registry.listed := by
    funext key
    unfold IDBDatabaseInfo.renameObjectStore infoForExistingObjectStore
    cases entry : backingStore.databaseInfo.objectStoreMap.lookup identifier with
    | none => rfl
    | some info =>
      simp only [lookup_insert_eq]
      by_cases equal : key = identifier
      · rcases listing_of_filed inOrder filed with ⟨_, found, named⟩
        cases entry.symm.trans found
        simp only [registry, equal, entry]
        rw [← same, ← named]
        rfl
      · rw [if_neg equal]
        rfl
  have live : update backingStore.registry.live transaction.info.identifier
      (some (transaction.objectStoreRenamed ref (backingStore.stores ref).info.name).live) =
      backingStore.registry.live := by
    apply update_eq_self_iff.mpr
    simp only [registry, found]
    rfl
  show StoreRegistry.mk _ _ _ _ _ _ = StoreRegistry.mk _ _ _ _ _ _
  simp only [withStoreName]
  rw [owners_update kept, listed, map_lookup_insert]
  exact congrArg (StoreRegistry.mk _ _ _ _ · _) live

theorem renameIndexOf_owner {order : IterationOrder UInt64} {store renamed : MemoryObjectStore K} {ref : IndexRef}
    (made : renameIndexOf order store ref newName = some renamed) : renamed.owner = store.owner := by
  rcases bind_eq_some_iff.mp made with ⟨info, _, made⟩
  rcases bind_eq_some_iff.mp made with ⟨taken, _, made⟩
  cases made
  simp only [IDBObjectStoreInfo.renameIndex]
  cases store.info.infoForExistingIndex info.identifier <;> rfl

variable (inOrder : backingStore.registry.InOrder)
include inOrder

theorem keyed_transaction {identifier : IDBResourceIdentifier}
    (found : backingStore.transactions.lookup identifier = some transaction) :
    transaction.info.identifier = identifier :=
  inOrder.keyed identifier transaction.live (live_of_found found)

theorem renameIndex_registry {orders : IterationOrders K}
    {transactionIdentifier : IDBResourceIdentifier} {objectStoreIdentifier indexIdentifier : UInt64}
    {error : Option IDBError}
    (made : backingStore.renameIndex orders transactionIdentifier objectStoreIdentifier indexIdentifier
      newName = some (error, after)) :
    after.registry = backingStore.registry := by
  unfold renameIndex at made
  cases listed : (backingStore.databaseInfo.infoForExistingObjectStore objectStoreIdentifier).bind
      (·.infoForExistingIndex indexIdentifier) with
  | none =>
    rw [listed] at made
    cases made
    rfl
  | some info =>
    rw [listed] at made
    rcases bind_eq_some_iff.mp made with ⟨transaction, changing, made⟩
    have found := (versionChange_eq_some.mp changing).1
    cases filed : backingStore.indexForIdentifiers objectStoreIdentifier indexIdentifier with
    | none =>
      simp only [filed] at made
      cases made
      rfl
    | some index =>
      simp only [filed] at made
      rcases bind_eq_some_iff.mp made with ⟨renamed, done, made⟩
      cases made
      let state : StoreWrite K := ⟨transaction.indexRenamed index
        ((backingStore.stores index.1).indexes index.2).info.name, renamed, []⟩
      have kept : state.ownership = ((backingStore.stores index.1).owner, transaction.live) :=
        Prod.ext (renameIndexOf_owner done) rfl
      have called := registry_of_ownership state (by rw [keyed_transaction inOrder found, found]) kept
      have names : (fun key => ((backingStore.databaseInfo.renameIndex objectStoreIdentifier
          indexIdentifier newName).objectStoreMap.lookup key).map (·.listing)) =
          backingStore.registry.listed := by
        funext key
        unfold IDBDatabaseInfo.renameIndex infoForExistingObjectStore
        cases entry : backingStore.databaseInfo.objectStoreMap.lookup objectStoreIdentifier with
        | none => rfl
        | some store =>
          simp only [lookup_insert_eq]
          by_cases equal : key = objectStoreIdentifier
          · simp only [registry, equal, entry, IDBObjectStoreInfo.renameIndex]
            cases store.infoForExistingIndex indexIdentifier <;> rfl
          · rw [if_neg equal]
            rfl
      show StoreRegistry.mk _ _ _ _ _ _ = StoreRegistry.mk _ _ _ _ _ _
      rw [names]
      exact called

theorem write_registry {Result : Type} {call : StoreWrite K → Result × StoreWrite K} {result : Result}
    (kept : ∀ state, (call state).2.frame = state.frame)
    (written : backingStore.write ref call = some (result, after)) : after.registry = backingStore.registry := by
  rcases bind_eq_some_iff.mp written with ⟨identifier, _, written⟩
  rcases bind_eq_some_iff.mp written with ⟨transaction, found, written⟩
  cases written
  apply registry_of_ownership
  · rw [keyed_transaction inOrder found, found]
  · exact ownership_of_frame (kept ⟨transaction, backingStore.stores ref, []⟩)

theorem call_registry {identifier : IDBResourceIdentifier} {request : StoreWrite K → Option IDBError × StoreWrite K}
    {error : Option IDBError} (kept : ∀ state, (request state).2.ownership = state.ownership)
    (found : backingStore.transactions.lookup identifier = some transaction)
    (called : (error, after) = backingStore.call transaction ref request) : after.registry = backingStore.registry := by
  have same : after = (backingStore.call transaction ref request).2 := congrArg snd called
  rw [same]
  apply registry_of_ownership (request ⟨transaction, backingStore.stores ref, []⟩).2
  · rw [keyed_transaction inOrder found, found]
  · exact kept ⟨transaction, backingStore.stores ref, []⟩

end MemoryIDBBackingStore

inductive BackingStoreEvent (K : Type) where
  | beginTransaction (orders : IterationOrders K) (info : IDBTransactionInfo)
  | commitTransaction (transactionIdentifier : IDBResourceIdentifier)
  | createObjectStore (orders : IterationOrders K) (transactionIdentifier : IDBResourceIdentifier)
      (info : IDBObjectStoreInfo)
  | deleteObjectStore (orders : IterationOrders K) (transactionIdentifier : IDBResourceIdentifier)
      (objectStoreIdentifier : UInt64)
  | renameObjectStore (transactionIdentifier : IDBResourceIdentifier) (objectStoreIdentifier : UInt64)
      (newName : WTFString)
  | createIndex (orders : IterationOrders K) (transactionIdentifier : IDBResourceIdentifier)
      (info : IDBIndexInfo)
  | deleteIndex (transactionIdentifier : IDBResourceIdentifier)
      (objectStoreIdentifier indexIdentifier : UInt64)
  | renameIndex (orders : IterationOrders K) (transactionIdentifier : IDBResourceIdentifier)
      (objectStoreIdentifier indexIdentifier : UInt64) (newName : WTFString)
  | deleteRange (orders : IterationOrders K) (transactionIdentifier : IDBResourceIdentifier)
      (objectStoreIdentifier : UInt64) (range : IDBKeyRangeData K)
  | addRecord (orders : IterationOrders K) (transactionIdentifier : IDBResourceIdentifier)
      (objectStoreInfo : IDBObjectStoreInfo) (keyData : K) (value : ThreadSafeDataBuffer)
  | clearObjectStore (orders : IterationOrders K) (objectStoreIdentifier : UInt64)

namespace MemoryIDBBackingStore

def create (databaseName : WTFString) : MemoryIDBBackingStore K where
  databaseInfo := ⟨databaseName, 0, 0, ∅⟩
  transactions := ∅
  stores := fun _ => .create ⟨0, none, none, false, 0, ∅⟩
  nextStore := 0
  objectStoresByIdentifier := ∅
  objectStoresByName := ∅

def admits (info : IDBTransactionInfo) (backingStore : MemoryIDBBackingStore K) : Bool :=
  decide (∀ identifier ∈ backingStore.transactions.keys,
    (backingStore.transactions.lookup identifier).all (fun transaction =>
      transaction.info.mode ≠ .versionchange ∧ info.mode ≠ .versionchange ∧
        (transaction.info.mode = .readwrite → info.mode = .readwrite →
          ∀ name ∈ info.objectStores, name ∉ transaction.info.objectStores)) = true)

def step (engine : ScriptEngine K Object) (backingStore : MemoryIDBBackingStore K) :
    BackingStoreEvent K → Option (MemoryIDBBackingStore K)
  | .beginTransaction orders info =>
    if backingStore.admits info then some (backingStore.beginTransaction orders info).2 else none
  | .commitTransaction identifier => some (backingStore.commitTransaction identifier).2
  | .createObjectStore orders identifier info =>
    (backingStore.createObjectStore orders identifier info).map (·.2)
  | .deleteObjectStore orders identifier objectStoreIdentifier =>
    (backingStore.deleteObjectStore orders identifier objectStoreIdentifier).map (·.2)
  | .renameObjectStore identifier objectStoreIdentifier newName =>
    (backingStore.renameObjectStore identifier objectStoreIdentifier newName).map (·.2)
  | .createIndex orders identifier info =>
    (backingStore.createIndex engine orders identifier info).map (·.2)
  | .deleteIndex identifier objectStoreIdentifier indexIdentifier =>
    (backingStore.deleteIndex identifier objectStoreIdentifier indexIdentifier).map (·.2)
  | .renameIndex orders identifier objectStoreIdentifier indexIdentifier newName =>
    (backingStore.renameIndex orders identifier objectStoreIdentifier indexIdentifier newName).map (·.2)
  | .deleteRange orders identifier objectStoreIdentifier range =>
    (backingStore.deleteRange orders identifier objectStoreIdentifier range).map (·.2)
  | .addRecord orders identifier objectStoreInfo keyData value =>
    some (backingStore.addRecord engine orders identifier objectStoreInfo keyData value).2
  | .clearObjectStore orders objectStoreIdentifier =>
    (backingStore.clearObjectStore orders objectStoreIdentifier).map (·.2)

def KeepsNames (backingStore : MemoryIDBBackingStore K) : BackingStoreEvent K → Prop
  | .renameObjectStore _ objectStoreIdentifier newName =>
    ∀ ref, backingStore.objectStoresByIdentifier.lookup objectStoreIdentifier = some ref →
      (backingStore.stores ref).info.name = newName
  | _ => True

theorem create_inOrder (databaseName : WTFString) :
    (create databaseName : MemoryIDBBackingStore K).registry.InOrder where
  identified := nofun
  named := nofun
  older := nofun
  listed := fun _ => rfl
  keyed := nofun
  inScope := nofun
  written := nofun
  alone := nofun
  undeleted := nofun

variable {backingStore : MemoryIDBBackingStore K} {identifier : IDBResourceIdentifier}

theorem admits_sound {info : IDBTransactionInfo} (admitted : backingStore.admits info = true) :
    backingStore.registry.Admits info := by
  intro identifier transaction live
  rcases map_eq_some_iff.mp live with ⟨running, found, rfl⟩
  have every := of_decide_eq_true admitted
  have checked := every identifier (mem_keys_iff.mpr ⟨running, found⟩)
  simp only [found, all_some, decide_eq_true_eq] at checked
  refine ⟨checked.1, checked.2.1, ?_⟩
  intro name writes other
  have disjoint := checked.2.2
  revert writes other
  unfold IDBTransactionInfo.Writes
  cases mode : info.mode with
  | readonly => exact fun writes => writes.elim
  | versionchange => exact absurd mode checked.2.1
  | readwrite =>
    cases running' : running.live.info.mode with
    | readonly => exact fun _ other => other
    | versionchange => exact absurd running' checked.1
    | readwrite => exact fun writes => disjoint running' mode name writes

theorem mem_scope (inOrder : backingStore.registry.InOrder) (orders : IterationOrders K)
    (info : IDBTransactionInfo) (ref : StoreRef) :
    ref ∈ (backingStore.scope orders info).toFinset ↔
      (∃ key, backingStore.registry.byIdentifier.lookup key = some ref) ∧
        info.Writes (backingStore.registry.owner ref).name := by
  rw [List.mem_toFinset]
  unfold scope IDBTransactionInfo.Writes
  cases info.mode with
  | readonly => simp
  | versionchange =>
    rw [identifiedStores, orders.identifiers.mem_visit_values, and_true]
    rfl
  | readwrite =>
    simp only [storesInScope, mem_filterMap, mem_filter, decide_eq_true_eq, orders.names.mem_visit]
    constructor
    · rintro ⟨name, ⟨_, inside⟩, filed⟩
      rcases inOrder.named name ref filed with ⟨named, identified⟩
      exact ⟨⟨_, identified⟩, by rw [named]; exact inside⟩
    · rintro ⟨⟨key, filed⟩, inside⟩
      have named := (inOrder.identified key ref filed).2
      exact ⟨_, ⟨mem_keys_iff.mpr ⟨ref, named⟩, inside⟩, named⟩

variable (inOrder : backingStore.registry.InOrder)
include inOrder

theorem live_identifier {transaction : MemoryBackingStoreTransaction K}
    (found : backingStore.transactions.lookup identifier = some transaction) :
    backingStore.registry.live transaction.live.info.identifier = some transaction.live := by
  rw [← live_of_found found, ← keyed_transaction inOrder found]
  rfl

theorem inOrder_createObjectStore {after : MemoryIDBBackingStore K} {orders : IterationOrders K}
    {info : IDBObjectStoreInfo} {error : Option IDBError}
    (made : backingStore.createObjectStore orders identifier info = some (error, after)) : after.registry.InOrder := by
  rcases createObjectStore_inv made with rfl | ⟨transaction, changing, unlisted, unused, rfl⟩
  · exact inOrder
  · rcases versionChange_eq_some.mp changing with ⟨found, upgrading⟩
    have unnamed : backingStore.registry.byName.lookup info.name = none := by
      cases filed : backingStore.registry.byName.lookup info.name with
      | none => rfl
      | some ref =>
        -- A filed store is listed under its name.
        rcases inOrder.named info.name ref filed with ⟨named, identified⟩
        rcases listing_of_filed inOrder identified with ⟨store, listed, sameName⟩
        have present : backingStore.databaseInfo.hasObjectStore orders.identifiers info.name = true := by
          unfold IDBDatabaseInfo.hasObjectStore IDBDatabaseInfo.objectStores
          simp only [IterationOrder.any_visit_values, decide_eq_true_eq]
          exact ⟨_, store, listed, sameName.trans named⟩
        rw [unlisted] at present
        cases present
    rw [← keyed_transaction inOrder found, withNewStore_registry]
    exact inOrder.create (live_identifier inOrder found) (of_decide_eq_true upgrading)
      (not_mem_keys_iff.mp unused) unnamed

theorem inOrder_deleteObjectStore {after : MemoryIDBBackingStore K} {orders : IterationOrders K}
    {objectStoreIdentifier : UInt64} {error : Option IDBError}
    (made : backingStore.deleteObjectStore orders identifier objectStoreIdentifier = some (error, after)) :
    after.registry.InOrder := by
  rcases deleteObjectStore_inv made with rfl | ⟨transaction, ref, changing, filed, rfl⟩
  · exact inOrder
  · rcases versionChange_eq_some.mp changing with ⟨found, upgrading⟩
    rcases withoutStore_registry inOrder filed orders transaction with ⟨deleted, same⟩
    rw [same]
    exact inOrder.delete (live_identifier inOrder found) (of_decide_eq_true upgrading) filed deleted

theorem inOrder_step {engine : ScriptEngine K Object} {next : MemoryIDBBackingStore K} {event : BackingStoreEvent K}
    (kept : backingStore.KeepsNames event) (stepped : backingStore.step engine event = some next) :
    next.registry.InOrder := by
  have unchanged {after : MemoryIDBBackingStore K} (same : after.registry = backingStore.registry) :
      after.registry.InOrder := same ▸ inOrder
  cases event
  case beginTransaction orders info =>
    rw [step] at stepped
    split at stepped
    · rename_i admitted
      cases stepped
      by_cases fresh : info.identifier ∈ backingStore.transactions.keys
      · rw [beginTransaction, if_pos fresh]
        exact inOrder
      · rw [beginTransaction_registry orders info fresh]
        apply inOrder.start _ (admits_sound admitted) (mem_scope inOrder orders info)
        simp [registry, not_mem_keys_iff.mp fresh]
    · cases stepped
  case commitTransaction identifier =>
    cases stepped
    cases found : backingStore.transactions.lookup identifier with
    | none =>
      rw [commitTransaction, found]
      exact inOrder
    | some transaction =>
      rw [commitTransaction_registry inOrder found]
      exact inOrder.finish (live_of_found found)
  case addRecord orders identifier objectStoreInfo keyData value =>
    cases stepped
    unfold addRecord
    split
    · exact inOrder
    · next transaction found =>
      split
      · exact inOrder
      · exact unchanged (call_registry inOrder
          (fun state => ownership_of_frame (addRecord_frame engine orders keyData value state)) found rfl)
  all_goals obtain ⟨⟨error, after⟩, made, ⟨⟩⟩ := map_eq_some_iff.mp stepped
  case createObjectStore orders identifier info =>
    exact inOrder_createObjectStore inOrder made
  case deleteObjectStore orders identifier objectStoreIdentifier =>
    exact inOrder_deleteObjectStore inOrder made
  case renameObjectStore identifier objectStoreIdentifier newName =>
    rcases renameObjectStore_inv made with ⟨rfl, _⟩ | ⟨transaction, ref, changing, filed, rfl⟩
    · exact inOrder
    · have found := (versionChange_eq_some.mp changing).1
      exact unchanged (withStoreName_registry inOrder (by rw [keyed_transaction inOrder found, found]) filed
        (kept ref filed))
  case createIndex orders identifier info =>
    rcases call_inv (StoreWrite.createIndex engine orders · info) made with rfl | ⟨transaction, ref, changing, called⟩
    · exact inOrder
    · exact unchanged (call_registry inOrder
        (fun state => ownership_of_indexes (createIndex_withIndexesOf engine orders ref info state))
        (versionChange_eq_some.mp changing).1 called)
  case deleteIndex identifier objectStoreIdentifier indexIdentifier =>
    rcases call_inv (StoreWrite.deleteIndex · indexIdentifier) made with rfl | ⟨transaction, ref, changing, called⟩
    · exact inOrder
    · exact unchanged (call_registry inOrder
        (fun state => ownership_of_indexes (deleteIndex_withIndexesOf ref indexIdentifier state))
        (versionChange_eq_some.mp changing).1 called)
  case renameIndex orders identifier objectStoreIdentifier indexIdentifier newName =>
    exact unchanged (renameIndex_registry inOrder made)
  case deleteRange orders identifier objectStoreIdentifier range =>
    unfold deleteRange at made
    split at made
    · cases made
      exact inOrder
    · split at made
      · cases made
        exact inOrder
      · exact unchanged (write_registry inOrder (deleteRange_frame orders _ range) made)
  case clearObjectStore orders objectStoreIdentifier =>
    unfold clearObjectStore at made
    split at made
    · cases made
      exact inOrder
    · exact unchanged (write_registry inOrder (clear_frame orders _) made)

theorem filed_step_iff {engine : ScriptEngine K Object} {next : MemoryIDBBackingStore K} {event : BackingStoreEvent K}
    (stepped : backingStore.step engine event = some next) : next.registry.Filed ↔ backingStore.KeepsNames event := by
  constructor
  · intro filed
    cases event with
    | renameObjectStore identifier objectStoreIdentifier newName =>
      intro ref found
      rcases map_eq_some_iff.mp stepped with ⟨⟨error, after⟩, made, rfl⟩
      rcases renameObjectStore_inv made with ⟨_, unlisted | unfiled⟩ | ⟨transaction, other, _, same, rfl⟩
      · rcases listing_of_filed inOrder found with ⟨_, listed, _⟩
        cases listed.symm.trans unlisted
      · rw [found] at unfiled
        cases unfiled
      · rw [found] at same
        cases same
        have renamed := (filed.named _ ref (inOrder.identified objectStoreIdentifier ref found).2).1
        simp only [withStoreName, registry, update_self] at renamed
        exact renamed.symm
    | _ => trivial
  · intro kept
    exact (inOrder_step inOrder kept stepped).toFiled

def WritesItsScope (backingStore : MemoryIDBBackingStore K) : Prop :=
  ∀ identifier transaction, backingStore.transactions.lookup identifier = some transaction →
    transaction.info.mode = .readwrite → ∀ objectStoreIdentifier ref,
    backingStore.objectStoresByIdentifier.lookup objectStoreIdentifier = some ref →
    ((backingStore.stores ref).writeTransaction = some identifier ↔
      (backingStore.stores ref).info.name ∈ transaction.info.objectStores)

def WritesReach (backingStore : MemoryIDBBackingStore K) : Prop :=
  ∀ identifier transaction, backingStore.transactions.lookup identifier = some transaction →
    transaction.info.mode = .readwrite → ∀ objectStoreIdentifier ref,
    backingStore.objectStoresByIdentifier.lookup objectStoreIdentifier = some ref →
    (backingStore.stores ref).info.name ∈ transaction.info.objectStores →
    ∀ (Result : Type) (call : StoreWrite K → Result × StoreWrite K),
      (backingStore.write ref call).isSome = true

theorem writesItsScope_of_inOrder : backingStore.WritesItsScope := by
  intro identifier transaction found mode objectStoreIdentifier ref filed
  have live := live_of_found found
  have scope := inOrder.inScope identifier transaction.live live ref
  have written := inOrder.written objectStoreIdentifier ref filed identifier
  have mode' : transaction.live.info.mode = .readwrite := mode
  simp only [IDBTransactionInfo.Writes, mode'] at scope
  constructor
  · intro writer
    rcases written.mp writer with ⟨running, runs, inside⟩
    rw [live] at runs
    cases runs
    exact (scope.mp inside).2
  · intro inside
    exact written.mpr ⟨transaction.live, live, scope.mpr ⟨⟨objectStoreIdentifier, filed⟩, inside⟩⟩

theorem writesReach_of_inOrder : backingStore.WritesReach := by
  intro identifier transaction found mode objectStoreIdentifier ref filed inside Result call
  have writer := (writesItsScope_of_inOrder inOrder identifier transaction found mode
    objectStoreIdentifier ref filed).mpr inside
  simp [write, writer, found]

end MemoryIDBBackingStore

open MemoryIDBBackingStore in
/-- The registries agree and transactions write their scopes exactly until an object store is renamed. -/
theorem registries_agree_until_rename (engine : ScriptEngine K Object) (databaseName : WTFString)
    (events : List (BackingStoreEvent K)) (state : MemoryIDBBackingStore K)
    (met : StepsMeet (step engine) KeepsNames (create databaseName) events)
    (ran : run (step engine) (create databaseName) events = some state) :
    state.registry.Filed ∧ state.WritesItsScope ∧ state.WritesReach ∧
      ∀ event next, state.step engine event = some next → (next.registry.Filed ↔ state.KeepsNames event) := by
  have kept : ∀ (before : MemoryIDBBackingStore K) event next, before.registry.InOrder →
      before.KeepsNames event → before.step engine event = some next → next.registry.InOrder :=
    fun _ _ _ inOrder kept stepped => inOrder_step inOrder kept stepped
  have inOrder := run_invariant_of_meets kept events (create_inOrder databaseName) met ran
  exact ⟨inOrder.toFiled, writesItsScope_of_inOrder inOrder, writesReach_of_inOrder inOrder,
    fun _ _ stepped => filed_step_iff inOrder stepped⟩

def storeCreated : List (BackingStoreEvent CanonicalKey) :=
  [.beginTransaction ascendingOrders upgrade, .createObjectStore ascendingOrders ⟨1, 1⟩ plainStore,
    .renameObjectStore ⟨1, 1⟩ 1 (some [115]), .commitTransaction ⟨1, 1⟩,
    .beginTransaction ascendingOrders ⟨⟨1, 2⟩, .readwrite, [some [115]]⟩]

variable (backingStore : MemoryIDBBackingStore CanonicalKey)

def MemoryIDBBackingStore.keepsNamesCheck : BackingStoreEvent CanonicalKey → Bool
  | .renameObjectStore _ objectStoreIdentifier newName =>
    (backingStore.objectStoresByIdentifier.lookup objectStoreIdentifier).all
      (fun ref => (backingStore.stores ref).info.name = newName)
  | _ => true

theorem MemoryIDBBackingStore.keepsNames_of_check (event : BackingStoreEvent CanonicalKey)
    (checked : backingStore.keepsNamesCheck event = true) : backingStore.KeepsNames event := by
  cases event with
  | renameObjectStore identifier objectStoreIdentifier newName =>
    intro ref filed
    simpa [keepsNamesCheck, filed] using checked
  | _ => trivial

open MemoryIDBBackingStore in
theorem registries_agree_after_creation : ∃ state, run (step byteEngine) (create none) storeCreated = some state ∧
      state.objectStoresByName.lookup (some [115]) = some 0 ∧ state.registry.Filed ∧
      state.WritesItsScope ∧ state.WritesReach := by
  have reaches : ∃ state, run (step byteEngine) (create none) storeCreated = some state ∧
      state.objectStoresByName.lookup (some [115]) = some 0 := reaches_of_check (by decide +kernel)
  rcases reaches with ⟨state, reached, filed⟩
  have met : StepsMeet (step byteEngine) KeepsNames (create none) storeCreated :=
    stepsMeet_of_check keepsNames_of_check _ _ (by decide +kernel)
  have agree := registries_agree_until_rename byteEngine none storeCreated state met reached
  exact ⟨state, reached, filed, agree.1, agree.2.1, agree.2.2.1⟩

def storeRenamed : List (BackingStoreEvent CanonicalKey) :=
  [.beginTransaction ascendingOrders upgrade, .createObjectStore ascendingOrders ⟨1, 1⟩ plainStore,
    .renameObjectStore ⟨1, 1⟩ 1 (some [116]), .commitTransaction ⟨1, 1⟩,
    .beginTransaction ascendingOrders ⟨⟨1, 2⟩, .readwrite, [some [116]]⟩]

open MemoryIDBBackingStore in
/-- The table of names still has the old name, so the transaction does not find the object store, and
    its first write follows a null pointer. -/
theorem renamed_store_is_not_written : ∃ state, run (step byteEngine) (create none) storeRenamed = some state ∧
      ¬ state.registry.Filed ∧ (state.stores 0).info.name = some [116] ∧
      state.objectStoresByIdentifier.lookup 1 = some 0 ∧ (state.stores 0).writeTransaction = none ∧
      (state.clearObjectStore ascendingOrders 1).isNone = true := by
  have reaches : ∃ state, run (step byteEngine) (create none) storeRenamed = some state ∧
      state.objectStoresByName.lookup (some [115]) = some 0 ∧ (state.stores 0).info.name = some [116] ∧
      state.objectStoresByIdentifier.lookup 1 = some 0 ∧ (state.stores 0).writeTransaction = none ∧
      (state.clearObjectStore ascendingOrders 1).isNone = true := reaches_of_check (by decide +kernel)
  rcases reaches with ⟨state, reached, stale, name, filed, idle, failed⟩
  refine ⟨state, reached, ?_, name, filed, idle, failed⟩
  intro agrees
  have current : (state.stores 0).info.name = some [115] := (agrees.named (some [115]) 0 stale).1
  rw [name] at current
  revert current
  decide

end Odyssey.IndexedDB
