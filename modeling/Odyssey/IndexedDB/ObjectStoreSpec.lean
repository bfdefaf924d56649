import Odyssey.Containers.ListOrder
import Odyssey.IndexedDB.MemoryIndexSpec
import Odyssey.IndexedDB.MemoryObjectStore

namespace Odyssey.IndexedDB

open Containers

variable {K Object : Type} [IDBKeyOrder K]

/-- The keys under which an index files a record with this value; a null or undefined value has
    none. -/
def ScriptEngine.filedKeysFor (engine : ScriptEngine K Object) (info : IDBIndexInfo)
    (value : ThreadSafeDataBuffer) : List K :=
  let jsValue := engine.deserializeIDBValueToJSValue value
  if jsValue.isUndefinedOrNull then []
  else MemoryIndex.filedKeys info (engine.generateIndexKeyForValue info jsValue)

theorem ScriptEngine.filedKeysFor_of_null {engine : ScriptEngine K Object} {info : IDBIndexInfo}
    {value : ThreadSafeDataBuffer} (null : (engine.deserializeIDBValueToJSValue value).isUndefinedOrNull = true) :
    engine.filedKeysFor info value = [] := by
  simp [filedKeysFor, null]

theorem ScriptEngine.filedKeysFor_of_other {engine : ScriptEngine K Object} {info : IDBIndexInfo}
    {value : ThreadSafeDataBuffer} {jsValue : JSValue Object}
    (read : engine.deserializeIDBValueToJSValue value = jsValue) (other : ¬ jsValue.isUndefinedOrNull = true) :
    engine.filedKeysFor info value = MemoryIndex.filedKeys info (engine.generateIndexKeyForValue info jsValue) := by
  simp only [filedKeysFor, read, if_neg other]

theorem MemoryIndex.filedKeys_nil (info : IDBIndexInfo) : filedKeys info ([] : IndexKey K) = [] := by
  unfold filedKeys
  split <;> rfl

namespace MemoryObjectStore

variable (store : MemoryObjectStore K)

def records : KeyValueMap K := store.keyValueStore.getD ∅

theorem containsRecord_eq (key : K) : store.containsRecord key = decide (key ∈ store.records.keys) := by
  unfold containsRecord records
  cases store.keyValueStore <;> simp

def Registered (ref : IndexRef) : Prop :=
  ∃ name, store.indexesByName.lookup name = some ref

structure WellFormed (store : MemoryObjectStore K) : Prop where
  tables : store.orderedKeys = store.keyValueStore.map (·.keys)
  named : ∀ name ref, store.indexesByName.lookup name = some ref →
    (store.indexes ref).info.name = name ∧
      store.indexesByIdentifier.lookup (store.indexes ref).info.identifier = some ref
  identified : ∀ identifier ref, store.indexesByIdentifier.lookup identifier = some ref →
    (store.indexes ref).info.identifier = identifier ∧
      store.indexesByName.lookup (store.indexes ref).info.name = some ref
  allocated : ∀ ref, store.Registered ref → ref < store.nextIndex
  indexed : ∀ ref, store.Registered ref → (store.indexes ref).WellFormed

structure Consistent (engine : ScriptEngine K Object) (store : MemoryObjectStore K) : Prop
    extends store.WellFormed where
  holds : ∀ ref, store.Registered ref → ∀ indexKey primaryKey,
    (store.indexes ref).Holds indexKey primaryKey ↔
      ∃ value, store.records.lookup primaryKey = some value ∧
        indexKey ∈ engine.filedKeysFor (store.indexes ref).info value

theorem create_consistent (engine : ScriptEngine K Object) (info : IDBObjectStoreInfo) :
    (create info : MemoryObjectStore K).Consistent engine where
  tables := rfl
  named := fun _ _ found => nomatch found
  identified := fun _ _ found => nomatch found
  allocated := fun _ ⟨_, found⟩ => nomatch found
  indexed := fun _ ⟨_, found⟩ => nomatch found
  holds := fun _ ⟨_, found⟩ => nomatch found

theorem nodup_filterMap_lookup {α : Type} [DecidableEq α] (table : HashMap α IndexRef)
    (key : IndexRef → α) (keyed : ∀ a ref, table.lookup a = some ref → key ref = a) (visited : List α)
    (nodup : visited.Nodup) : (visited.filterMap table.lookup).Nodup := by
  apply nodup.filterMap
  intro first second ref left right
  rw [← keyed first ref left, ← keyed second ref right]

theorem mem_namedIndexes (orders : IterationOrders K) (store : MemoryObjectStore K) (ref : IndexRef) :
    ref ∈ store.namedIndexes orders ↔ store.Registered ref :=
  orders.names.mem_visit_values store.indexesByName ref

variable {store : MemoryObjectStore K}

theorem registered_of_visited {orders : IterationOrders K} {before after : List IndexRef} {failing : IndexRef}
    (split : store.namedIndexes orders = before ++ failing :: after) :
    ∀ ref ∈ before ++ [failing], store.Registered ref := by
  intro ref member
  rw [← mem_namedIndexes orders, split, List.append_cons]
  exact List.mem_append_left _ member

section Names

variable (valid : store.WellFormed) (orders : IterationOrders K)
include valid orders

theorem WellFormed.namedIndexes_nodup : (store.namedIndexes orders).Nodup :=
  nodup_filterMap_lookup store.indexesByName (fun ref => (store.indexes ref).info.name)
    (fun name ref found => (valid.named name ref found).1) _ (orders.names.visit_nodup _)

theorem WellFormed.mem_identifiedIndexes (ref : IndexRef) :
    ref ∈ store.identifiedIndexes orders ↔ store.Registered ref := by
  unfold identifiedIndexes
  rw [orders.identifiers.mem_visit_values]
  constructor
  · rintro ⟨identifier, found⟩
    exact ⟨_, (valid.identified identifier ref found).2⟩
  · rintro ⟨name, found⟩
    exact ⟨_, (valid.named name ref found).2⟩

theorem WellFormed.identifiedIndexes_nodup : (store.identifiedIndexes orders).Nodup :=
  nodup_filterMap_lookup store.indexesByIdentifier (fun ref => (store.indexes ref).info.identifier)
    (fun identifier ref found => (valid.identified identifier ref found).1) _
    (orders.identifiers.visit_nodup _)

end Names

structure SameFrame (after before : MemoryObjectStore K) : Prop where
  info : after.info = before.info
  writeTransaction : after.writeTransaction = before.writeTransaction
  keyGeneratorValue : after.keyGeneratorValue = before.keyGeneratorValue
  nextIndex : after.nextIndex = before.nextIndex
  indexesByIdentifier : after.indexesByIdentifier = before.indexesByIdentifier
  indexesByName : after.indexesByName = before.indexesByName
  infos : ∀ ref, (after.indexes ref).info = (before.indexes ref).info

theorem SameFrame.refl (store : MemoryObjectStore K) : SameFrame store store :=
  ⟨rfl, rfl, rfl, rfl, rfl, rfl, fun _ => rfl⟩

theorem SameFrame.registered {after before : MemoryObjectStore K} (frame : SameFrame after before)
    (ref : IndexRef) : after.Registered ref ↔ before.Registered ref := by
  unfold Registered
  rw [frame.indexesByName]

theorem SameFrame.wellFormed {after before : MemoryObjectStore K} (frame : SameFrame after before)
    (valid : before.WellFormed) (tables : after.orderedKeys = after.keyValueStore.map (·.keys))
    (indexed : ∀ ref, before.Registered ref → (after.indexes ref).WellFormed) : after.WellFormed where
  tables := tables
  named := by
    intro name ref found
    rw [frame.infos, frame.indexesByIdentifier]
    exact valid.named name ref (frame.indexesByName ▸ found)
  identified := by
    intro identifier ref found
    rw [frame.infos, frame.indexesByName]
    exact valid.identified identifier ref (frame.indexesByIdentifier ▸ found)
  allocated := by
    intro ref registered
    rw [frame.nextIndex]
    exact valid.allocated ref ((frame.registered ref).mp registered)
  indexed := fun ref registered => indexed ref ((frame.registered ref).mp registered)

theorem SameFrame.namedIndexes {after before : MemoryObjectStore K} (frame : SameFrame after before)
    (orders : IterationOrders K) : after.namedIndexes orders = before.namedIndexes orders := by
  unfold MemoryObjectStore.namedIndexes
  rw [frame.indexesByName]

end MemoryObjectStore

namespace StoreWrite

theorem updateIndex_fold (update : IndexRef → MemoryIndex K → MemoryIndex K × List (IndexNotice K))
    (refs : List IndexRef) (nodup : refs.Nodup) (state : StoreWrite K) :
    ∃ notices, refs.foldl (fun state ref => updateIndex (update ref) state ref) state = { state with
        store := { state.store with
          indexes := fun ref => if ref ∈ refs then (update ref (state.store.indexes ref)).1
            else state.store.indexes ref }
        notices := notices } := by
  induction refs generalizing state with
  | nil => exact ⟨state.notices, by simp⟩
  | cons first refs ih =>
    rcases List.nodup_cons.mp nodup with ⟨fresh, rest⟩
    rcases ih rest (updateIndex (update first) state first) with ⟨notices, result⟩
    refine ⟨notices, ?_⟩
    rw [List.foldl_cons, result, ← ite_mem_update (fun ref index => (update ref index).1) _ fresh]
    rfl

def withoutRecord (self : StoreRef) (key : K) (state : StoreWrite K) : StoreWrite K :=
  { state with
    transaction := state.transaction.recordValueChanged self key (state.store.records.lookup key)
    store := { state.store with
      keyValueStore := state.store.keyValueStore.map (·.erase key)
      orderedKeys := state.store.orderedKeys.map (·.erase key) } }

theorem clearIndex_eq (self : StoreRef) (state : StoreWrite K) (ref : IndexRef) : clearIndex self state ref =
      { transaction := { state.transaction with
          clearedIndexValueStores := if (self, ref) ∈ state.transaction.clearedIndexValueStores.keys
            then state.transaction.clearedIndexValueStores
            else state.transaction.clearedIndexValueStores.insert (self, ref) (state.store.indexes ref).records }
        store := state.store.setIndex ref
          (if (self, ref) ∈ state.transaction.clearedIndexValueStores.keys then state.store.indexes ref
          else { state.store.indexes ref with records := none })
        notices := state.notices ++ [.index ref .recordsAllChanged] } := by
  unfold clearIndex MemoryBackingStoreTransaction.indexCleared
  split <;> simp [MemoryObjectStore.setIndex]

theorem recordValueChanged_eq (transaction : MemoryBackingStoreTransaction K) (self : StoreRef) (key : K)
    (value : Option ThreadSafeDataBuffer) : ∃ originalValues,
      transaction.recordValueChanged self key value = { transaction with originalValues := originalValues } := by
  unfold MemoryBackingStoreTransaction.recordValueChanged
  split
  · exact ⟨_, rfl⟩
  · split <;> exact ⟨_, rfl⟩

theorem deleteRecord_eq (orders : IterationOrders K) (self : StoreRef) (key : K) (state : StoreWrite K) :
    deleteRecord orders self key state = if key ∈ state.store.records.keys then
        let updated := updateIndexesForDeleteRecord orders key (withoutRecord self key state)
        { updated with notices := updated.notices ++ [.keyDeleted key] }
      else { state with transaction := state.transaction.recordValueChanged self key none } := by
  unfold deleteRecord withoutRecord MemoryObjectStore.records
  cases state.store.keyValueStore with
  | none => rfl
  | some map =>
    cases found : map.lookup key with
    | none => simp [found, HashMap.not_mem_keys_iff.mpr found]
    | some value => simp [found, HashMap.mem_keys_iff.mpr ⟨value, found⟩]

open MemoryObjectStore in
theorem deleteRecord_spec (orders : IterationOrders K) (self : StoreRef) (key : K) (state : StoreWrite K)
    (valid : state.store.WellFormed) {after : StoreWrite K} (made : deleteRecord orders self key state = after) :
    after.transaction = state.transaction.recordValueChanged self key (state.store.records.lookup key) ∧
    SameFrame after.store state.store ∧ after.store.WellFormed ∧
    after.store.keyValueStore = state.store.keyValueStore.map (·.erase key) ∧
    ∀ ref, state.store.Registered ref → ∀ indexKey primaryKey,
      (after.store.indexes ref).Holds indexKey primaryKey ↔ (state.store.indexes ref).Holds indexKey primaryKey ∧
          (key ∈ state.store.records.keys → primaryKey ≠ key) := by
  rw [deleteRecord_eq] at made
  by_cases present : key ∈ state.store.records.keys
  · rw [if_pos present, updateIndexesForDeleteRecord, show (withoutRecord self key state).store.namedIndexes orders =
      state.store.namedIndexes orders from rfl] at made
    rcases updateIndex_fold (fun _ index => index.removeEntriesWithValueKey orders.keys key) _
      (valid.namedIndexes_nodup orders) (withoutRecord self key state) with ⟨notices, updated⟩
    rw [updated] at made
    subst made
    have removed := fun ref (registered : state.store.Registered ref) =>
      MemoryIndex.removeEntriesWithValueKey_spec orders.keys (valid.indexed ref registered) key
    have ordered : state.store.orderedKeys.map (·.erase key) =
        (state.store.keyValueStore.map (·.erase key)).map (·.keys) := by
      rw [valid.tables]
      simp [Function.comp_def, Finmap.keys_erase]
    have frame : SameFrame { (withoutRecord self key state).store with
        indexes := fun ref => if ref ∈ state.store.namedIndexes orders
          then ((state.store.indexes ref).removeEntriesWithValueKey orders.keys key).1
          else state.store.indexes ref } state.store := by
      refine ⟨rfl, rfl, rfl, rfl, rfl, rfl, fun ref => ?_⟩
      dsimp only
      split
      · exact (removed ref ((mem_namedIndexes orders _ ref).mp ‹_›)).2.1
      · rfl
    refine ⟨rfl, frame, frame.wellFormed valid ordered ?_, rfl, ?_⟩
    · intro ref registered
      simp only [if_pos ((mem_namedIndexes orders _ ref).mpr registered)]
      exact (removed ref registered).1
    · intro ref registered indexKey primaryKey
      simp only [if_pos ((mem_namedIndexes orders _ ref).mpr registered)]
      refine ((removed ref registered).2.2 indexKey primaryKey).trans ?_
      simp [present]
  · have missing := HashMap.not_mem_keys_iff.mp present
    rw [if_neg present] at made
    subst made
    rw [missing]
    refine ⟨rfl, SameFrame.refl _, valid, ?_, by simp [present]⟩
    show state.store.keyValueStore = _
    rw [records] at missing
    cases stored : state.store.keyValueStore with
    | none => rfl
    | some map => rw [Option.map_some, HashMap.erase_absent (by simpa [stored] using missing)]

end StoreWrite

end Odyssey.IndexedDB
