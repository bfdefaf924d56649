import Odyssey.IndexedDB.IndexMaintenanceSpec
import Odyssey.Systems.Run

namespace Odyssey.IndexedDB

open Containers Systems HashMap Function HashMap.FiledBy

variable {K Object : Type} [IDBKeyOrder K]

theorem MemoryIndex.removeRecord_of_nil {index : MemoryIndex K} {valueKey : K} {indexKey : IndexKey K}
    (none : filedKeys index.info indexKey = []) : (index.removeRecord valueKey indexKey).1 = index := by
  have keys : (if index.info.multiEntry then IndexKey.multiEntry indexKey
      else (IndexKey.asOneKey indexKey).toList) = [] := none
  unfold removeRecord
  cases found : index.records with
  | none => rfl
  | some records =>
    simp only [keys, List.foldl_nil]
    rw [← found]

theorem MemoryIndex.visited_holds {engine : ScriptEngine K Object} {value : ThreadSafeDataBuffer}
    {jsValue : JSValue Object} (read : engine.deserializeIDBValueToJSValue value = jsValue) (key : K)
    {index after : MemoryIndex K} (valid : index.WellFormed) (other : ¬ jsValue.isUndefinedOrNull = true)
    {before : List IndexRef} {ref failing : IndexRef}
    (nothing : ref ∈ before → engine.filedKeysFor index.info value = [])
    (refuses : ref = failing → index.Refuses engine value)
    (visited : after = if ref ∈ before then index.afterRevert engine jsValue key
      else if ref = failing then (index.afterPut engine jsValue key).2 else index) :
    after.WellFormed ∧ after.info = index.info ∧
      ∀ indexKey primaryKey, after.Holds indexKey primaryKey ↔ index.Holds indexKey primaryKey := by
  rcases afterPut_spec read other key valid rfl with ⟨⟨putValid, putInfo⟩, puts⟩
  split at visited
  · have none := nothing ‹_›
    have filed := ScriptEngine.filedKeysFor_of_other read other ▸ none
    have reverted : after = (index.afterPut engine jsValue key).2 := by
      rw [visited, afterRevert_eq]
      split
      · exact removeRecord_of_nil (by rw [putInfo]; exact filed)
      · rfl
    subst reverted
    refine ⟨putValid, putInfo, ?_⟩
    intro indexKey primaryKey
    rcases puts with ⟨_, _, same⟩ | ⟨_, _, holds⟩
    · exact same indexKey primaryKey
    · rw [holds, none]
      simp
  · split at visited
    · subst visited
      exact ⟨putValid, putInfo, (puts.resolve_right fun free => free.1 (refuses ‹_›)).2.2⟩
    · subst visited
      exact ⟨valid, rfl, fun _ _ => Iff.rfl⟩

namespace StoreWrite

open MemoryObjectStore

variable {engine : ScriptEngine K Object} {state : StoreWrite K}

theorem deleteRecord_consistent (orders : IterationOrders K) (self : StoreRef) (key : K)
    (consistent : state.store.Consistent engine) : (deleteRecord orders self key state).store.Consistent engine := by
  rcases deleteRecord_spec orders self key state consistent.toWellFormed rfl with
    ⟨_, frame, valid, _, holds⟩
  refine ⟨valid, ?_⟩
  intro ref registered indexKey primaryKey
  have before := (frame.registered ref).mp registered
  rw [holds ref before, consistent.holds ref before, frame.infos,
    deleteRecord_records orders self key state consistent.toWellFormed, lookup_erase_eq]
  by_cases same : primaryKey = key
  · subst same
    rw [if_pos rfl]
    constructor
    · intro held
      rcases held with ⟨⟨value, found, _⟩, gone⟩
      exact absurd rfl (gone (mem_keys_iff.mpr ⟨value, found⟩))
    · nofun
  · simp [same]

/-- The indexes visited before the first one that refuses the value file nothing for it. -/
def RefusedFirst (engine : ScriptEngine K Object) (orders : IterationOrders K)
    (value : ThreadSafeDataBuffer) (store : MemoryObjectStore K) : Prop :=
  ∀ before failing after, store.namedIndexes orders = before ++ failing :: after →
    (store.indexes failing).Refuses engine value →
    (∀ ref ∈ before, ¬ (store.indexes ref).Refuses engine value) →
    ∀ ref ∈ before, engine.filedKeysFor (store.indexes ref).info value = []

variable (orders : IterationOrders K)

theorem addRecord_consistent (key : K) (value : ThreadSafeDataBuffer) (consistent : state.store.Consistent engine)
    (absent : key ∉ state.store.records.keys) (first : RefusedFirst engine orders value state.store) :
    (addRecord engine orders key value state).2.store.Consistent engine := by
  have valid := consistent.toWellFormed
  have missing := not_mem_keys_iff.mp absent
  rcases addRecord_spec engine orders key value state valid rfl rfl with
    ⟨⟨_, frame⟩, ⟨_, _, added, stored, holds⟩ |
      ⟨before, failing, after, split, refuses, free, _, stored, ordered, indexes⟩⟩
  · refine ⟨added, ?_⟩
    intro ref registered indexKey primaryKey
    have earlier := (frame.registered ref).mp registered
    have records : (addRecord engine orders key value state).2.store.records =
        state.store.records.insert key value := by rw [records, stored]; rfl
    rw [holds ref earlier, consistent.holds ref earlier, frame.infos, records]
    by_cases same : primaryKey = key
    · subst same
      simp [missing]
    · simp [same]
  · have unchanged := fun ref registered => MemoryIndex.visited_holds rfl key (valid.indexed ref registered)
      refuses.not_null (first before failing after split refuses free ref) (fun same => same ▸ refuses)
      (indexes ref)
    have records : (addRecord engine orders key value state).2.store.records = state.store.records := by
      rw [records, stored, Option.getD_some, erase_insert, erase_absent missing]
    refine ⟨frame.wellFormed valid (by rw [ordered, stored]; rfl)
      (fun ref registered => (unchanged ref registered).1), ?_⟩
    intro ref registered indexKey primaryKey
    have earlier := (frame.registered ref).mp registered
    rw [(unchanged ref earlier).2.2, consistent.holds ref earlier, frame.infos, records]

variable (self : StoreRef)

def ClearedTogether (transaction : MemoryBackingStoreTransaction K) : Prop :=
  ∀ ref, (self, ref) ∈ transaction.clearedIndexValueStores.keys →
    self ∈ transaction.clearedKeyValueMaps.keys

def IndexesCleared (state : StoreWrite K) : Prop :=
  ∀ ref, state.store.Registered ref →
    (self, ref) ∈ state.transaction.clearedIndexValueStores.keys ∨
      ∀ indexKey primaryKey, ¬ (state.store.indexes ref).Holds indexKey primaryKey

theorem clear_spec (state : StoreWrite K) (valid : state.store.WellFormed) {after : StoreWrite K}
    (made : clear orders self state = after) :
    SameFrame after.store state.store ∧
    after.store.keyValueStore =
      (if self ∈ state.transaction.clearedKeyValueMaps.keys then state.store.keyValueStore else none) ∧
    after.store.orderedKeys =
      (if self ∈ state.transaction.clearedKeyValueMaps.keys then state.store.orderedKeys else none) ∧
    (∀ ref, after.store.indexes ref = if ref ∈ state.store.identifiedIndexes orders ∧
        (self, ref) ∉ state.transaction.clearedIndexValueStores.keys
      then { state.store.indexes ref with records := none } else state.store.indexes ref) ∧
    ∃ logged, after.transaction = { (state.transaction.objectStoreCleared self state.store.keyValueStore
            state.store.orderedKeys).2 with clearedIndexValueStores := logged } := by
  have nodup := valid.identifiedIndexes_nodup orders
  generalize taken : state.transaction.objectStoreCleared self state.store.keyValueStore
    state.store.orderedKeys = logs
  let emptied : MemoryObjectStore K := { state.store with
    keyValueStore := if self ∈ state.transaction.clearedKeyValueMaps.keys then state.store.keyValueStore else none
    orderedKeys := if self ∈ state.transaction.clearedKeyValueMaps.keys then state.store.orderedKeys else none }
  have moved : (if logs.1 then { state.store with keyValueStore := none, orderedKeys := none }
      else state.store) = emptied := by
    simp only [← taken, emptied, MemoryBackingStoreTransaction.objectStoreCleared]
    split <;> rfl
  have same : logs.2.clearedIndexValueStores = state.transaction.clearedIndexValueStores := by
    simp only [← taken, MemoryBackingStoreTransaction.objectStoreCleared]
    split <;> rfl
  rcases clearIndex_fold self _ nodup ⟨logs.2, emptied, state.notices⟩ with ⟨logged, notices, folded⟩
  simp only [same] at folded
  simp only [clear, taken, moved] at made
  rw [show emptied.identifiedIndexes orders = state.store.identifiedIndexes orders from rfl, folded] at made
  subst made
  refine ⟨⟨rfl, rfl, rfl, rfl, rfl, rfl, ?_⟩, rfl, rfl, fun _ => rfl, logged, rfl⟩
  intro ref
  dsimp only
  split <;> rfl

theorem withoutRecords (index : MemoryIndex K) : ({ index with records := none } : MemoryIndex K).WellFormed ∧
      ∀ indexKey primaryKey, ¬ ({ index with records := none } : MemoryIndex K).Holds indexKey primaryKey :=
  ⟨MemoryIndex.create_wellFormed index.info, MemoryIndex.create_holds index.info⟩

theorem clear_consistent (consistent : state.store.Consistent engine)
    (together : ClearedTogether self state.transaction)
    (again : self ∈ state.transaction.clearedKeyValueMaps.keys → IndexesCleared self state) :
    (clear orders self state).store.Consistent engine := by
  have valid := consistent.toWellFormed
  generalize made : clear orders self state = after
  rcases clear_spec orders self state valid made with ⟨frame, stored, ordered, indexes, _⟩
  have named := valid.mem_identifiedIndexes orders
  by_cases recorded : self ∈ state.transaction.clearedKeyValueMaps.keys
  · -- Nothing is moved out of the store, so the indexes have to stay as they are too.
    rw [if_pos recorded] at stored ordered
    have unchanged : ∀ ref, state.store.Registered ref → (after.store.indexes ref).WellFormed ∧
        ∀ indexKey primaryKey, (after.store.indexes ref).Holds indexKey primaryKey ↔
          (state.store.indexes ref).Holds indexKey primaryKey := by
      intro ref registered
      rw [indexes ref]
      by_cases logged : (self, ref) ∈ state.transaction.clearedIndexValueStores.keys
      · rw [if_neg (fun both => both.2 logged)]
        exact ⟨valid.indexed ref registered, fun _ _ => Iff.rfl⟩
      · have empty := (again recorded ref registered).resolve_left logged
        rw [if_pos ⟨(named ref).mpr registered, logged⟩]
        rcases withoutRecords (state.store.indexes ref) with ⟨wellFormed, none⟩
        exact ⟨wellFormed, fun indexKey primaryKey =>
          iff_of_false (none indexKey primaryKey) (empty indexKey primaryKey)⟩
    refine ⟨frame.wellFormed valid (by rw [stored, ordered]; exact valid.tables)
      (fun ref registered => (unchanged ref registered).1), ?_⟩
    intro ref registered indexKey primaryKey
    have before := (frame.registered ref).mp registered
    rw [(unchanged ref before).2, consistent.holds ref before, frame.infos, records, records, stored]
  · rw [if_neg recorded] at stored ordered
    have cleared : ∀ ref, state.store.Registered ref →
        after.store.indexes ref = { state.store.indexes ref with records := none } := by
      intro ref registered
      rw [indexes ref, if_pos ⟨(named ref).mpr registered, fun logged => recorded (together ref logged)⟩]
    refine ⟨frame.wellFormed valid (by rw [stored, ordered]; rfl) ?_, ?_⟩
    · intro ref registered
      rw [cleared ref registered]
      exact (withoutRecords _).1
    · intro ref registered indexKey primaryKey
      rw [cleared ref ((frame.registered ref).mp registered), records, stored]
      simp [(withoutRecords (state.store.indexes ref)).2 indexKey primaryKey]

theorem populate_spec (engine : ScriptEngine K Object) (orders : IterationOrders K) (store : MemoryObjectStore K)
    (info : IDBIndexInfo) (full : PopulatesFully engine store.records info (orders.keys.visit store.records.keys))
    {result : Option IDBError × MemoryIndex K}
    (made : populateIndexWithExistingRecords engine orders store (.create info) = result) (accepted : result.1 = none) :
    result.2.WellFormed ∧ result.2.info = info ∧
    ∀ indexKey primaryKey, result.2.Holds indexKey primaryKey ↔
      ∃ value, store.records.lookup primaryKey = some value ∧ indexKey ∈ engine.filedKeysFor info value := by
  have nothing := MemoryIndex.create_holds (K := K) info
  cases stored : store.keyValueStore with
  | none =>
    have empty : store.records = ∅ := by simp [records, stored]
    simp only [populateIndexWithExistingRecords, stored] at made
    subst made
    rw [empty]
    exact ⟨MemoryIndex.create_wellFormed info, rfl, by simp [nothing]⟩
  | some map =>
    have held : store.records = map := by simp [records, stored]
    simp only [populateIndexWithExistingRecords, stored] at made
    rw [held] at full ⊢
    rcases populateIndex_spec engine map _ (.create info) (MemoryIndex.create_wellFormed info) full
      made accepted with ⟨wellFormed, same, holds⟩
    refine ⟨wellFormed, same, ?_⟩
    intro indexKey primaryKey
    rw [holds, orders.keys.mem_visit, or_iff_right (nothing indexKey primaryKey), mem_keys_iff]
    constructor
    · rintro ⟨⟨value, found⟩, filed⟩
      rw [found] at filed
      exact ⟨value, found, filed⟩
    · rintro ⟨value, found, filed⟩
      rw [found]
      exact ⟨⟨value, rfl⟩, filed⟩

theorem createIndex_consistent (orders : IterationOrders K) (self : StoreRef) (info : IDBIndexInfo)
    (consistent : state.store.Consistent engine) (freshName : info.name ∉ state.store.indexesByName.keys)
    (freshIdentifier : info.identifier ∉ state.store.indexesByIdentifier.keys)
    (full : PopulatesFully engine state.store.records info (orders.keys.visit state.store.records.keys)) :
    (createIndex engine orders self info state).2.store.Consistent engine := by
  have valid := consistent.toWellFormed
  cases written : state.isWrittenByVersionChange with
  | false => simpa [createIndex, written] using consistent
  | true =>
    cases populated : populateIndexWithExistingRecords engine orders state.store (.create info) with
    | mk error index =>
      have spec := populate_spec engine orders state.store info full populated
      cases error with
      | some error => simpa [createIndex, written, populated] using consistent
      | none =>
        rcases spec rfl with ⟨indexValid, sameInfo, indexHolds⟩
        have indexInfo : index.info = info := sameInfo
        have byName := not_mem_keys_iff.mp freshName
        have byIdentifier := not_mem_keys_iff.mp freshIdentifier
        have result : (createIndex engine orders self info state).2.store = { state.store with
            info := state.store.info.addExistingIndex info
            indexes := update state.store.indexes state.store.nextIndex index
            nextIndex := state.store.nextIndex + 1
            indexesByName := state.store.indexesByName.insert info.name state.store.nextIndex
            indexesByIdentifier :=
              state.store.indexesByIdentifier.insert info.identifier state.store.nextIndex } := by
          simp [createIndex, written, populated, registerIndex, setIndex, indexInfo]
        rw [result]
        have older : ∀ ref, state.store.Registered ref → update state.store.indexes state.store.nextIndex index ref =
              state.store.indexes ref := by
          intro ref registered
          exact update_of_ne (ne_of_lt (valid.allocated ref registered)) _ _
        have newest : update state.store.indexes state.store.nextIndex index
            state.store.nextIndex = index := update_self ..
        have split : ∀ ref,
            (∃ name, (state.store.indexesByName.insert info.name state.store.nextIndex).lookup name = some ref) →
            ref = state.store.nextIndex ∨ state.store.Registered ref := by
          rintro ref ⟨name, found⟩
          rw [lookup_insert_eq] at found
          split at found
          · exact Or.inl (Option.some.inj found).symm
          · exact Or.inr ⟨name, found⟩
        refine ⟨⟨valid.tables, ?_, ?_, ?_, ?_⟩, ?_⟩
        · apply insert valid.named byIdentifier (by simp [indexInfo])
          intro name ref found
          simp [older ref ⟨name, found⟩]
        · apply insert valid.identified byName (by simp [indexInfo])
          intro identifier ref found
          simp [older ref ⟨_, (valid.identified identifier ref found).2⟩]
        · intro ref registered
          rcases split ref registered with rfl | earlier
          · exact Nat.lt_succ_self _
          · exact Nat.lt_succ_of_lt (valid.allocated ref earlier)
        · intro ref registered
          rcases split ref registered with rfl | earlier
          · simpa only [newest] using indexValid
          · simpa only [older ref earlier] using valid.indexed ref earlier
        · intro ref registered indexKey primaryKey
          rcases split ref registered with rfl | earlier
          · simp only [newest, indexInfo]
            exact indexHolds indexKey primaryKey
          · simp only [older ref earlier]
            exact consistent.holds ref earlier indexKey primaryKey

theorem deleteIndex_consistent (self : StoreRef) (indexIdentifier : UInt64)
    (consistent : state.store.Consistent engine) :
    (deleteIndex self indexIdentifier state).2.store.Consistent engine := by
  have valid := consistent.toWellFormed
  cases written : state.isWrittenByVersionChange with
  | false => simpa [deleteIndex, written] using consistent
  | true =>
    cases found : state.store.indexesByIdentifier.lookup indexIdentifier with
    | none => simpa [deleteIndex, takeIndexByIdentifier, found] using consistent
    | some taken =>
      rcases valid.identified indexIdentifier taken found with ⟨identifier, filed⟩
      have result : (deleteIndex self indexIdentifier state).2.store = { state.store with
          info := state.store.info.deleteIndex indexIdentifier
          indexesByIdentifier := state.store.indexesByIdentifier.erase indexIdentifier
          indexesByName := state.store.indexesByName.erase (state.store.indexes taken).info.name } := by
        simp [deleteIndex, written, takeIndexByIdentifier, found, filed]
      rw [result]
      have remaining : ∀ ref, (∃ name, (state.store.indexesByName.erase
          (state.store.indexes taken).info.name).lookup name = some ref) → state.store.Registered ref := by
        rintro ref ⟨name, kept⟩
        rw [lookup_erase_eq] at kept
        split at kept
        · cases kept
        · exact ⟨name, kept⟩
      exact ⟨⟨valid.tables, erase valid.named rfl found, erase valid.identified identifier filed,
        fun ref registered => valid.allocated ref (remaining ref registered),
        fun ref registered => valid.indexed ref (remaining ref registered)⟩,
        fun ref registered => consistent.holds ref (remaining ref registered)⟩

end StoreWrite

end Odyssey.IndexedDB
