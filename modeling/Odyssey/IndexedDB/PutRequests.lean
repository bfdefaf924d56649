import Odyssey.IndexedDB.IndexConsistencyRuns
import Odyssey.IndexedDB.PutAtomicity

namespace Odyssey.IndexedDB

open Containers Systems List Option StoreWrite MemoryIDBBackingStore MemoryObjectStore.SameContents

variable {K Object : Type} [IDBKeyOrder K]

theorem MemoryObjectStore.SameContents.refl (store : MemoryObjectStore K) : store.SameContents store :=
  ⟨rfl, rfl, fun _ _ => rfl, rfl⟩

namespace MemoryIDBBackingStore

structure Writable (backingStore : MemoryIDBBackingStore K) (objectStoreIdentifier : UInt64)
    (ref : StoreRef) : Prop where
  found : backingStore.objectStoresByIdentifier.lookup objectStoreIdentifier = some ref
  written : ∃ identifier, (backingStore.stores ref).writeTransaction = some identifier ∧
    identifier ∈ backingStore.transactions.keys

variable {backingStore : MemoryIDBBackingStore K} {ref : StoreRef}

theorem write_eq {Result : Type} {objectStoreIdentifier : UInt64}
    (writable : backingStore.Writable objectStoreIdentifier ref) (call : StoreWrite K → Result × StoreWrite K) :
    ∃ transaction, backingStore.write ref call = some ((call ⟨transaction, backingStore.stores ref, []⟩).1,
        (backingStore.setStore ref (call ⟨transaction, backingStore.stores ref, []⟩).2.store).setTransaction
          (call ⟨transaction, backingStore.stores ref, []⟩).2.transaction) := by
  rcases writable.written with ⟨identifier, writer, member⟩
  rcases HashMap.mem_keys_iff.mp member with ⟨transaction, found⟩
  refine ⟨transaction, ?_⟩
  simp [write, writer, found]

variable (engine : ScriptEngine K Object)

theorem storeRecord_cases (orders : PutOrders K) {request : PutRequest K} {objectStoreInfo : IDBObjectStoreInfo}
    (key : K) (value : ThreadSafeDataBuffer) (writable : backingStore.Writable request.objectStoreIdentifier ref)
    (identified : objectStoreInfo.identifier = request.objectStoreIdentifier)
    (valid : (backingStore.stores ref).WellFormed) :
    (request.transactionIdentifier ∉ backingStore.transactions.keys ∧
      ∃ error, backingStore.storeRecord engine orders request objectStoreInfo key value =
        some (some error, backingStore)) ∨
    (request.transactionIdentifier ∈ backingStore.transactions.keys ∧
      ∃ state deleted after, state.store = backingStore.stores ref ∧
        deleted.store = (StoreWrite.deleteRecord orders.deleting ref key state).store ∧
        backingStore.storeRecord engine orders request objectStoreInfo key value =
          some ((StoreWrite.addRecord engine orders.adding key value deleted).1, after) ∧
        after.stores ref = (StoreWrite.addRecord engine orders.adding key value deleted).2.store ∧
        after.objectStoresByIdentifier = backingStore.objectStoresByIdentifier) := by
  by_cases known : request.transactionIdentifier ∈ backingStore.transactions.keys
  · right
    refine ⟨known, ?_⟩
    rcases write_eq writable (fun state =>
      ((none : Option IDBError), state.deleteRange orders.deleting ref (.ofKey key))) with
      ⟨transaction, deletes⟩
    let state : StoreWrite K := ⟨transaction, backingStore.stores ref, []⟩
    have sameStore := deleteRange_ofKey_store orders.deleting ref key state valid
    let emptied := (backingStore.setStore ref
      (state.deleteRange orders.deleting ref (.ofKey key)).store).setTransaction
        (state.deleteRange orders.deleting ref (.ofKey key)).transaction
    have atRef : emptied.stores ref = (state.deleteRange orders.deleting ref (.ofKey key)).store := by
      simp [emptied, setStore, setTransaction]
    have stillKnown : request.transactionIdentifier ∈ emptied.transactions.keys := by
      simp [emptied, setStore, setTransaction, HashMap.keys_insert, known]
    rcases HashMap.mem_keys_iff.mp stillKnown with ⟨writer, knows⟩
    let deleted : StoreWrite K := ⟨writer, emptied.stores ref, []⟩
    let added := (emptied.setStore ref (deleted.addRecord engine orders.adding key value).2.store).setTransaction
      (deleted.addRecord engine orders.adding key value).2.transaction
    have looked : emptied.objectStoresByIdentifier.lookup objectStoreInfo.identifier = some ref := by
      rw [identified]
      exact writable.found
    have first : backingStore.deleteRange orders.deleting request.transactionIdentifier
        request.objectStoreIdentifier (.ofKey key) = some (none, emptied) := by
      simp only [deleteRange, known, writable.found]
      exact deletes
    have second : emptied.addRecord engine orders.adding request.transactionIdentifier objectStoreInfo key value =
        ((deleted.addRecord engine orders.adding key value).1, added) := by
      simp only [addRecord, knows, looked]
      rfl
    refine ⟨state, deleted, added, rfl, atRef.trans sameStore, ?_, ?_, rfl⟩
    · simp only [storeRecord, first, bind_eq_bind, bind_some, second]
      rfl
    · simp [added, setStore, setTransaction]
  · left
    refine ⟨known, ⟨.UnknownError, "No backing store transaction found to delete from"⟩, ?_⟩
    simp only [storeRecord, deleteRange, known, not_false_iff]
    rfl

def admitted (request : PutRequest K) (backingStore : MemoryIDBBackingStore K) :
    Option (K × ThreadSafeDataBuffer) := do
  let objectStoreInfo ← backingStore.infoForObjectStore request.objectStoreIdentifier
  let (used, backingStore) ← backingStore.usedKey request objectStoreInfo
  let (key, generated) ← used.toOption
  match ← backingStore.overwriteError request key with
  | some _ => none
  | none =>
    let injected ← (injectedRecordValue engine request objectStoreInfo key generated).toOption
    return (key, if injected.isSome then injected else request.originalRecordValue)

/-- A request of a known transaction that gets to the storage operation and destroys something
    there. -/
def RequestDestroys (orders : PutOrders K) (request : PutRequest K) (backingStore : MemoryIDBBackingStore K)
    (ref : StoreRef) : Prop :=
  request.transactionIdentifier ∈ backingStore.transactions.keys ∧
    ∃ key value, backingStore.admitted engine request = some (key, value) ∧
      (backingStore.stores ref).PutDestroys engine orders.adding key value

variable (orders : PutOrders K) {request : PutRequest K} {objectStoreInfo : IDBObjectStoreInfo}

theorem usedKey_cases (found : backingStore.objectStoresByIdentifier.lookup request.objectStoreIdentifier = some ref) :
    backingStore.usedKey request objectStoreInfo = none ∨
    (∃ error, backingStore.usedKey request objectStoreInfo = some (.error error, backingStore)) ∨
    (∃ key, backingStore.usedKey request objectStoreInfo = some (.ok (key, none), backingStore)) ∨
    ∃ key, backingStore.usedKey request objectStoreInfo =
      some (.ok (key, some (backingStore.stores ref).keyGeneratorValue),
        backingStore.setKeyGeneratorValue ref ((backingStore.stores ref).keyGeneratorValue + 1)) := by
  unfold usedKey
  split
  · by_cases exhausted : (backingStore.stores ref).keyGeneratorValue > maxGeneratedKeyValue
    · right; left
      simp only [generateKeyNumber, found, bind_eq_bind, bind_some, if_pos exhausted]
      exact ⟨_, rfl⟩
    · right; right; right
      simp only [generateKeyNumber, found, bind_eq_bind, bind_some, if_neg exhausted]
      exact ⟨_, rfl⟩
  · cases request.keyData with
    | none => exact .inl rfl
    | some key => exact .inr (.inr (.inl ⟨key, rfl⟩))

theorem failPut_eq (found : backingStore.objectStoresByIdentifier.lookup request.objectStoreIdentifier = some ref)
    (generated : Option UInt64) (error : IDBError) :
    backingStore.failPut request generated error = some (some error, match generated with
      | none => backingStore
      | some keyNumber => backingStore.setKeyGeneratorValue ref keyNumber) := by
  cases generated with
  | none => rfl
  | some keyNumber => simp [failPut, revertGeneratedKeyNumber, found]

structure Chosen (backingStore chosen : MemoryIDBBackingStore K) (ref : StoreRef)
    (generated : Option UInt64) : Prop where
  transactions : chosen.transactions = backingStore.transactions
  identified : chosen.objectStoresByIdentifier = backingStore.objectStoresByIdentifier
  store : ∃ value, chosen.stores ref = { backingStore.stores ref with keyGeneratorValue := value } ∧
    (generated = none ∧ value = (backingStore.stores ref).keyGeneratorValue ∨
      generated = some (backingStore.stores ref).keyGeneratorValue)

theorem Chosen.refl (backingStore : MemoryIDBBackingStore K) (ref : StoreRef) :
    Chosen backingStore backingStore ref none :=
  ⟨rfl, rfl, _, rfl, .inl ⟨rfl, rfl⟩⟩

theorem Chosen.generated (backingStore : MemoryIDBBackingStore K) (ref : StoreRef) (value : UInt64) :
    Chosen backingStore (backingStore.setKeyGeneratorValue ref value) ref
      (some (backingStore.stores ref).keyGeneratorValue) :=
  ⟨rfl, rfl, value, by simp [setKeyGeneratorValue, setStore], .inr rfl⟩

variable {chosen : MemoryIDBBackingStore K} {generated : Option UInt64}

theorem admitted_iff {key : K}
    (known : backingStore.infoForObjectStore request.objectStoreIdentifier = some objectStoreInfo)
    (used : backingStore.usedKey request objectStoreInfo = some (.ok (key, generated), chosen))
    (other : K) (value : ThreadSafeDataBuffer) :
    backingStore.admitted engine request = some (other, value) ↔
      other = key ∧ ∃ injected, chosen.overwriteError request key = some none ∧
        injectedRecordValue engine request objectStoreInfo key generated = .ok injected ∧
        value = if injected.isSome then injected else request.originalRecordValue := by
  simp only [admitted, known, used, bind_eq_bind, bind_some, Except.toOption]
  cases chosen.overwriteError request key with
  | none => simp
  | some failure =>
    cases failure with
    | some failure => simp
    | none =>
      cases injectedRecordValue engine request objectStoreInfo key generated with
      | error failure => simp
      | ok injected =>
        constructor
        · intro same
          cases same
          exact ⟨rfl, injected, rfl, rfl, rfl⟩
        · intro same
          rcases same with ⟨rfl, _, _, injects, rfl⟩
          cases injects
          rfl

variable (choice : Chosen backingStore chosen ref generated)
include choice

theorem Chosen.failPut {changed : MemoryIDBBackingStore K}
    (found : changed.objectStoresByIdentifier.lookup request.objectStoreIdentifier = some ref)
    (generator : (changed.stores ref).keyGeneratorValue = (chosen.stores ref).keyGeneratorValue) (error : IDBError) :
    ∃ after, changed.failPut request generated error = some (some error, after) ∧
      after.stores ref = { changed.stores ref with
        keyGeneratorValue := (backingStore.stores ref).keyGeneratorValue } := by
  rcases choice.store with ⟨value, store, ⟨rfl, original⟩ | rfl⟩
  · refine ⟨changed, failPut_eq found none error, ?_⟩
    rw [← original]
    rw [store] at generator
    rw [← show (changed.stores ref).keyGeneratorValue = value from generator]
  · exact ⟨_, failPut_eq found _ error, by simp [setKeyGeneratorValue, setStore]⟩

theorem Chosen.writable (writable : backingStore.Writable request.objectStoreIdentifier ref) :
    chosen.Writable request.objectStoreIdentifier ref := by
  rcases choice.store with ⟨value, store, _⟩
  rcases writable.written with ⟨identifier, writer, member⟩
  refine ⟨by rw [choice.identified]; exact writable.found, identifier, ?_, ?_⟩
  · rw [store]
    exact writer
  · rw [choice.transactions]
    exact member

variable (writable : backingStore.Writable request.objectStoreIdentifier ref)
include writable

theorem Chosen.check_fails {failure error : IDBError} {after : MemoryIDBBackingStore K}
    (failed : chosen.failPut request generated failure = some (some error, after)) :
    (after.stores ref).SameContents (backingStore.stores ref) := by
  rcases choice.failPut (choice.writable writable).found rfl failure with ⟨final, result, reverted⟩
  rw [result] at failed
  cases failed
  rcases choice.store with ⟨value, store, _⟩
  rw [reverted, store]
  exact MemoryObjectStore.SameContents.refl _

variable (identified : objectStoreInfo.identifier = request.objectStoreIdentifier)
  (valid : (backingStore.stores ref).WellFormed) (key : K)
include identified valid

theorem storage_stage (value : ThreadSafeDataBuffer) :
    (∀ error after, chosen.storeAndFinish engine orders request objectStoreInfo key generated value =
        some (some error, after) → (after.stores ref).SameContents (backingStore.stores ref)) ↔
    ¬ (request.transactionIdentifier ∈ backingStore.transactions.keys ∧
      (backingStore.stores ref).PutDestroys engine orders.adding key value) := by
  unfold storeAndFinish
  rcases choice.store with ⟨number, store, _⟩
  have chosenValid : (chosen.stores ref).WellFormed := by
    rw [store]
    exact ⟨valid.tables, valid.named, valid.identified, valid.allocated, valid.indexed⟩
  have destroys : (chosen.stores ref).PutDestroys engine orders.adding key value ↔
      (backingStore.stores ref).PutDestroys engine orders.adding key value := by
    rw [store]
    exact Iff.rfl
  -- Contents after the failure, with the generator given back, against those after the refused put.
  have contents : ∀ {result : MemoryObjectStore K}, result.keyGeneratorValue = (chosen.stores ref).keyGeneratorValue →
      (MemoryObjectStore.SameContents { result with
          keyGeneratorValue := (backingStore.stores ref).keyGeneratorValue } (backingStore.stores ref) ↔
        result.SameContents (chosen.stores ref)) := by
    intro result generator
    rw [store] at generator ⊢
    constructor
    · intro same
      exact ⟨same.records, same.orderedKeys, same.indexes, generator⟩
    · intro same
      exact ⟨same.records, same.orderedKeys, same.indexes, rfl⟩
  rcases storeRecord_cases engine orders key value (choice.writable writable) identified chosenValid with
    ⟨unknown, error, result⟩ | ⟨known, state, deleted, stored, atRef, sameStore, result, kept, registry⟩
  · rw [choice.transactions] at unknown
    rcases choice.failPut (choice.writable writable).found rfl error with ⟨after, failed, reverted⟩
    simp only [result, bind_eq_bind, bind_some, failed]
    refine iff_of_true ?_ (fun both => unknown both.1)
    intro other final same
    cases same
    rw [reverted]
    exact (contents rfl).mpr (refl _)
  · rw [choice.transactions] at known
    rw [← atRef] at chosenValid destroys contents
    simp only [result, bind_eq_bind, bind_some, known, true_and]
    rw [← destroys]
    have found : stored.objectStoresByIdentifier.lookup request.objectStoreIdentifier = some ref := by
      rw [registry]
      exact (choice.writable writable).found
    generalize made : StoreWrite.addRecord engine orders.adding key value deleted = added at kept ⊢
    have spoiled := put_destroys chosenValid sameStore made
    cases outcome : added.1 with
    | none =>
      constructor
      · intro _ destroyed
        exact (spoiled destroyed).1 outcome
      · intro _ error after same
        cases updated : stored.updateGenerator request objectStoreInfo with
        | none => simp [updated] at same
        | some final => simp [updated] at same
    | some error =>
      have failed : added.1 ≠ none := by
        rw [outcome]
        nofun
      rcases put_refused chosenValid sameStore made rfl failed with ⟨_, _, _, _, _, _, _, _, generator, _⟩
      rw [← kept] at generator
      rcases choice.failPut found (generator.trans (by rw [atRef])) error with ⟨after, reverts, reverted⟩
      have same := contents generator
      simp only [reverts]
      constructor
      · intro unchanged destroyed
        have equal := unchanged error after rfl
        rw [reverted, same, kept] at equal
        exact (spoiled destroyed).2 equal
      · intro safe other final equal
        cases equal
        rw [reverted, same, kept]
        exact put_sameContents chosenValid sameStore made failed safe

theorem Chosen.checkAndStore_iff :
    (∀ error after, chosen.checkAndStore engine orders request objectStoreInfo key generated =
        some (some error, after) → (after.stores ref).SameContents (backingStore.stores ref)) ↔
    ¬ (request.transactionIdentifier ∈ backingStore.transactions.keys ∧
      ∃ injected, chosen.overwriteError request key = some none ∧
        injectedRecordValue engine request objectStoreInfo key generated = .ok injected ∧
        (backingStore.stores ref).PutDestroys engine orders.adding key
          (if injected.isSome then injected else request.originalRecordValue)) := by
  unfold checkAndStore
  cases checked : chosen.overwriteError request key with
  | none => simp
  | some failure =>
    cases failure with
    | some failure =>
      exact iff_of_true (fun _ _ failed => choice.check_fails writable failed) (by simp)
    | none =>
      cases injects : injectedRecordValue engine request objectStoreInfo key generated with
      | error failure =>
        exact iff_of_true (fun _ _ failed => choice.check_fails writable failed) (by simp)
      | ok injected =>
        have stage := storage_stage engine orders choice writable identified valid key
          (if injected.isSome then injected else request.originalRecordValue)
        simpa using stage

theorem Chosen.performPutOrAdd_iff
    (known : backingStore.infoForObjectStore request.objectStoreIdentifier = some objectStoreInfo)
    (used : backingStore.usedKey request objectStoreInfo = some (.ok (key, generated), chosen)) :
    (∀ error after, backingStore.performPutOrAdd engine orders request = some (some error, after) →
      (after.stores ref).SameContents (backingStore.stores ref)) ↔
    ¬ backingStore.RequestDestroys engine orders request ref := by
  have performed : backingStore.performPutOrAdd engine orders request =
      chosen.checkAndStore engine orders request objectStoreInfo key generated := by
    simp [performPutOrAdd, known, used]
  rw [performed, choice.checkAndStore_iff engine orders writable identified valid key]
  apply not_congr
  unfold RequestDestroys
  simp only [admitted_iff engine known used]
  apply and_congr_right
  intro _
  constructor
  · intro destroyed
    rcases destroyed with ⟨injected, checked, injects, destroys⟩
    exact ⟨key, _, ⟨rfl, injected, checked, injects, rfl⟩, destroys⟩
  · intro destroyed
    rcases destroyed with ⟨_, _, ⟨rfl, injected, checked, injects, rfl⟩, destroys⟩
    exact ⟨injected, checked, injects, destroys⟩

end MemoryIDBBackingStore

def twoRecords : List (StoreEvent CanonicalKey) :=
  [.beginTransaction upgrade emptyDatabase, .createIndex ascendingOrders (indexInfo 1 true),
    .addRecord ascendingOrders 1 (some [7]), .addRecord ascendingOrders 2 (some [9])]

def twoRecordsState : StoreWrite CanonicalKey :=
  (run (StoreWrite.step byteEngine 0) openedStore twoRecords).getD openedStore

theorem twoRecordsState_wellFormed : twoRecordsState.store.WellFormed := by
  have met : StepsMeet (step byteEngine 0) (StoreWrite.Maintains byteEngine 0) openedStore twoRecords :=
    stepsMeet_of_check (maintainsCheck_sound 0) _ _ (by decide +kernel)
  exact (maintained_run byteEngine 0 plainStore (.create upgrade emptyDatabase) twoRecords met
    rfl).consistent.toWellFormed

def twoRecordsBackingStore : MemoryIDBBackingStore CanonicalKey where
  databaseInfo := emptyDatabase.addExistingObjectStore plainStore
  transactions := Finmap.singleton ⟨1, 1⟩ twoRecordsState.transaction
  stores := fun _ => twoRecordsState.store
  nextStore := 1
  objectStoresByIdentifier := Finmap.singleton 1 0
  objectStoresByName := Finmap.singleton (some [115]) 0

def putRequest (key : CanonicalKey) (value : List UInt8) : PutRequest CanonicalKey :=
  ⟨⟨1, 1⟩, 1, some key, some value, .Overwrite⟩

def putOrders : PutOrders CanonicalKey := ⟨ascendingOrders, ascendingOrders⟩

theorem failure_of_check {result : BackingStoreResult K} {property : MemoryIDBBackingStore K → Prop}
    [DecidablePred property]
    (checked : result.any (fun outcome => outcome.1.isSome && decide (property outcome.2)) = true) :
    ∃ error after, result = some (some error, after) ∧ property after := by
  rcases result with _ | ⟨_ | error, after⟩
  · cases checked
  · cases checked
  · exact ⟨error, after, rfl, by simpa using checked⟩

end Odyssey.IndexedDB
