import Odyssey.IndexedDB.IndexConsistency
import Odyssey.IndexedDB.PutOrAdd

namespace Odyssey.IndexedDB

open Containers List IDBKeyRangeData

variable {K Object : Type} [IDBKeyOrder K]

namespace MemoryIndex

theorem removeKeys_fold (valueKey : K) (keys : List K) (state : IndexValueStore K × List (IndexNotice K)) :
    (keys.foldl (removeKeys valueKey) state).1.orderedKeys = state.1.orderedKeys ∧
      (keys.foldl (removeKeys valueKey) state).1.records.keys ⊆ state.1.records.keys := by
  induction keys generalizing state with
  | nil => exact ⟨rfl, refl _⟩
  | cons key keys ih =>
    rcases ih (removeKeys valueKey state key) with ⟨ordered, fewer⟩
    have step : (removeKeys valueKey state key).1.orderedKeys = state.1.orderedKeys ∧
        (removeKeys valueKey state key).1.records.keys ⊆ state.1.records.keys := by
      simp only [removeKeys, IndexValueStore.removeRecord]
      cases state.1.records.lookup key with
      | none => exact ⟨rfl, refl _⟩
      | some entry =>
        by_cases removed : (entry.removeKey valueKey).1 = true
        · simp only [if_pos removed, Finmap.keys_erase]
          exact ⟨trivial, Finset.erase_subset _ _⟩
        · simp only [if_neg removed]
          exact ⟨trivial, refl _⟩
    exact ⟨ordered.trans step.1, fewer.trans step.2⟩

theorem removeKeys_erases {valueKey key : K} {state : IndexValueStore K × List (IndexNotice K)}
    (held : state.1.Holds key valueKey) : key ∉ (removeKeys valueKey state key).1.records.keys := by
  rcases held with ⟨entry, found, member⟩
  have removed : (entry.removeKey valueKey).1 = true := by
    rw [IndexValueEntry.removeKey_removed]
    simpa using member
  simp only [removeKeys, IndexValueStore.removeRecord, found, if_pos removed, Finmap.keys_erase]
  exact Finset.notMem_erase _ _

theorem afterRevert_changes {engine : ScriptEngine K Object} {value : ThreadSafeDataBuffer}
    {jsValue : JSValue Object} (read : engine.deserializeIDBValueToJSValue value = jsValue) {key : K}
    {index : MemoryIndex K} (valid : index.WellFormed) (other : ¬ jsValue.isUndefinedOrNull = true)
    (free : ¬ index.Refuses engine value) (files : engine.filedKeysFor index.info value ≠ []) :
    (index.afterRevert engine jsValue key).valueStore ≠ index.valueStore := by
  have filed : engine.filedKeysFor index.info value = _ := ScriptEngine.filedKeysFor_of_other read other
  rcases afterPut_spec read other key valid rfl with ⟨⟨putValid, putInfo⟩, ⟨refused, _⟩ | ⟨_, _, holds⟩⟩
  · exact absurd refused free
  rcases exists_cons_of_ne_nil files with ⟨first, rest, split⟩
  have nonempty : (engine.generateIndexKeyForValue index.info jsValue).isEmpty = false := by
    cases empty : (engine.generateIndexKeyForValue index.info jsValue).isEmpty with
    | false => rfl
    | true => exact absurd (by rw [filed, isEmpty_iff.mp empty, filedKeys_nil]) files
  have held : (index.afterPut engine jsValue key).2.Holds first key :=
    (holds first key).mpr (Or.inr ⟨by rw [split]; exact mem_cons_self, rfl⟩)
  rcases held with ⟨records, stored, inside⟩
  have recordsValid := (putValid records stored).1
  have present : first ∈ records.orderedKeys := recordsValid.mem_orderedKeys.mpr ⟨key, inside⟩
  have keys : (if (index.afterPut engine jsValue key).2.info.multiEntry
      then IndexKey.multiEntry (engine.generateIndexKeyForValue index.info jsValue)
      else (IndexKey.asOneKey (engine.generateIndexKeyForValue index.info jsValue)).toList) = first :: rest := by
    rw [putInfo, ← split, filed]
    rfl
  have reverted : (index.afterRevert engine jsValue key).valueStore =
      ((first :: rest).foldl (removeKeys key) (records, [])).1 := by
    rw [afterRevert_eq, if_pos nonempty]
    simp only [removeRecord, stored, keys]
    rfl
  intro same
  rw [reverted, foldl_cons] at same
  rcases removeKeys_fold key rest (removeKeys key (records, []) first) with ⟨ordered, fewer⟩
  have gone : first ∉ (removeKeys key (records, []) first).1.records.keys := removeKeys_erases inside
  have stale : first ∈ (rest.foldl (removeKeys key) (removeKeys key (records, []) first)).1.orderedKeys := by
    have kept := (removeKeys_fold key [first] (records, [])).1
    rw [ordered]
    exact (show (removeKeys key (records, []) first).1.orderedKeys = records.orderedKeys from kept) ▸ present
  rw [same, valid.valueStore.1.ordered, ← same] at stale
  exact gone (fewer stale)

theorem valueStore_eq_of_holds {after before : MemoryIndex K} (left : after.WellFormed)
    (right : before.WellFormed) (info : after.info = before.info)
    (same : ∀ indexKey primaryKey, after.Holds indexKey primaryKey ↔ before.Holds indexKey primaryKey) :
    after.valueStore = before.valueStore := by
  apply left.valueStore.1.eq_of_holds right.valueStore.1
  · rw [left.valueStore.2, right.valueStore.2, info]
  · intro indexKey primaryKey
    rw [valueStore_holds, valueStore_holds]
    exact same indexKey primaryKey

end MemoryIndex

namespace MemoryObjectStore

/-- The same records, indexes and key generator; a null table is an empty one. -/
structure SameContents (after before : MemoryObjectStore K) : Prop where
  records : after.records = before.records
  orderedKeys : after.orderedKeys.getD ∅ = before.orderedKeys.getD ∅
  indexes : ∀ ref, before.Registered ref →
    (after.indexes ref).valueStore = (before.indexes ref).valueStore
  keyGeneratorValue : after.keyGeneratorValue = before.keyGeneratorValue

/-- A unique index holds a key of the value for a record that the put does not replace. -/
def Conflicts (engine : ScriptEngine K Object) (store : MemoryObjectStore K) (key : K)
    (value : ThreadSafeDataBuffer) (ref : IndexRef) : Prop :=
  (store.indexes ref).info.unique = true ∧
    ∃ indexKey ∈ engine.filedKeysFor (store.indexes ref).info value, ∃ primaryKey,
      (store.indexes ref).Holds indexKey primaryKey ∧ (key ∈ store.records.keys → primaryKey ≠ key)

/-- A put that is refused although there was a record under the key, or although an index visited
    earlier takes a key of the value. -/
def PutDestroys (engine : ScriptEngine K Object) (orders : IterationOrders K)
    (store : MemoryObjectStore K) (key : K) (value : ThreadSafeDataBuffer) : Prop :=
  ∃ before failing after, store.namedIndexes orders = before ++ failing :: after ∧
    store.Conflicts engine key value failing ∧
    (∀ ref ∈ before, ¬ store.Conflicts engine key value ref) ∧
    (key ∈ store.records.keys ∨ ∃ ref ∈ before, engine.filedKeysFor (store.indexes ref).info value ≠ [])

end MemoryObjectStore

namespace StoreWrite

open MemoryObjectStore

theorem deleteRecord_store_of_absent (orders : IterationOrders K) (self : StoreRef) {key : K} {state : StoreWrite K}
    (absent : key ∉ state.store.records.keys) : (deleteRecord orders self key state).store = state.store := by
  rw [deleteRecord_eq, if_neg absent]

theorem deleteRange_ofKey_store (orders : IterationOrders K) (self : StoreRef) (key : K)
    (state : StoreWrite K) (valid : state.store.WellFormed) :
    (deleteRange orders self (.ofKey key) state).store = (deleteRecord orders self key state).store := by
  by_cases one : (ofKey key).isExactlyOneKey = true
  · simp only [deleteRange, one]
    rfl
  · have loop : deleteRange orders self (.ofKey key) state = deleteKeysInRange orders self
        ((state.store.orderedKeys.getD ∅).card + 1) (.ofKey key) state := by
      simp only [deleteRange, one]
    have search := lowestKeyWithRecordInRange_eq valid (.ofKey key)
    rw [loop]
    unfold deleteKeysInRange
    cases found : state.store.lowestKeyWithRecordInRange (.ofKey key) with
    | none =>
      have none_inside := Finset.filter_eq_empty_iff.mp (least_eq_none.mp (search ▸ found))
      have absent : key ∉ state.store.records.keys := fun member =>
        none_inside member (ofKey_bounds.mpr rfl)
      exact (deleteRecord_store_of_absent orders self absent).symm
    | some lowest =>
      have same := ofKey_bounds.mp (Finset.mem_filter.mp (least_eq_some.mp (search ▸ found)).1).2
      subst same
      have deleted := (deleteRecord_spec orders self lowest state valid rfl).2.2.1
      cases (state.store.orderedKeys.getD ∅).card with
      | zero => rfl
      | succ fuel =>
        have nothing : (deleteRecord orders self lowest state).store.lowestKeyWithRecordInRange
            { ofKey lowest with lowerKey := some lowest, lowerOpen := true } = none := by
          rw [lowestKeyWithRecordInRange_eq deleted, least_eq_none, Finset.filter_eq_empty_iff]
          intro other _ inside
          obtain ⟨only, above⟩ := (narrowed_bounds (ofKey_bounds.mpr rfl)).mp inside
          exact above.ne' (ofKey_bounds.mp only)
        unfold deleteKeysInRange
        simp only [nothing]

variable (engine : ScriptEngine K Object) {deleting adding : IterationOrders K} {self : StoreRef} {key : K}
  (value : ThreadSafeDataBuffer) {state deleted : StoreWrite K}

variable (valid : state.store.WellFormed) (sameStore : deleted.store = (deleteRecord deleting self key state).store)
include valid sameStore

theorem refuses_iff_conflicts {ref : IndexRef} (registered : state.store.Registered ref) :
    (deleted.store.indexes ref).Refuses engine value ↔ state.store.Conflicts engine key value ref := by
  rcases deleteRecord_spec deleting self key state valid rfl with ⟨_, frame, _, _, holds⟩
  unfold MemoryIndex.Refuses MemoryObjectStore.Conflicts
  rw [sameStore, frame.infos]
  simp only [holds ref registered]

variable {engine value} {result : Option IDBError × StoreWrite K}
  (made : addRecord engine adding key value deleted = result)
include made

theorem put_refused {jsValue : JSValue Object} (read : engine.deserializeIDBValueToJSValue value = jsValue)
    (failed : result.1 ≠ none) :
    ∃ before failing after, state.store.namedIndexes adding = before ++ failing :: after ∧
      state.store.Conflicts engine key value failing ∧
      (∀ ref ∈ before, ¬ state.store.Conflicts engine key value ref) ∧
      result.2.store.records = state.store.records.erase key ∧
      result.2.store.orderedKeys = some (state.store.records.erase key).keys ∧
      result.2.store.keyGeneratorValue = state.store.keyGeneratorValue ∧
      ∀ ref, result.2.store.indexes ref =
        if ref ∈ before then (deleted.store.indexes ref).afterRevert engine jsValue key
        else if ref = failing then ((deleted.store.indexes ref).afterPut engine jsValue key).2
        else deleted.store.indexes ref := by
  rcases deleteRecord_spec deleting self key state valid rfl with ⟨_, frame, deletedValid, _, _⟩
  have records := deleteRecord_records deleting self key state valid
  rw [← sameStore] at frame deletedValid records
  have refuses := fun ref (registered : state.store.Registered ref) =>
    refuses_iff_conflicts engine value valid sameStore registered
  rcases addRecord_spec engine adding key value deleted deletedValid read made with
    ⟨⟨_, added⟩, ⟨accepted, _⟩ | ⟨before, failing, after, split, refused, free, _, stored, ordered, indexes⟩⟩
  · exact absurd accepted failed
  rw [frame.namedIndexes adding] at split
  have registered := registered_of_visited split
  rw [HashMap.erase_insert, records, HashMap.erase_absent (Finmap.lookup_erase _ _)] at stored ordered
  refine ⟨before, failing, after, split, ?_, ?_, ?_, ordered, ?_, indexes⟩
  · exact (refuses failing (registered failing (by simp))).mp refused
  · intro ref member conflict
    exact free ref member ((refuses ref (registered ref (mem_append_left _ member))).mpr conflict)
  · rw [MemoryObjectStore.records, stored, Option.getD_some]
  · rw [added.keyGeneratorValue, frame.keyGeneratorValue]

theorem put_sameContents (failed : result.1 ≠ none) (safe : ¬ state.store.PutDestroys engine adding key value) :
    result.2.store.SameContents state.store := by
  rcases put_refused valid sameStore made rfl failed with
    ⟨before, failing, after, split, conflict, free, records, ordered, generator, indexes⟩
  have absent : key ∉ state.store.records.keys := fun member =>
    safe ⟨before, failing, after, split, conflict, free, Or.inl member⟩
  have nothing : ∀ ref ∈ before, engine.filedKeysFor (state.store.indexes ref).info value = [] := by
    intro ref member
    by_contra files
    exact safe ⟨before, failing, after, split, conflict, free, Or.inr ⟨ref, member, files⟩⟩
  have refuses : (state.store.indexes failing).Refuses engine value := by
    rcases conflict with ⟨unique, indexKey, member, primaryKey, held, _⟩
    exact ⟨unique, indexKey, member, primaryKey, held⟩
  rw [sameStore, deleteRecord_store_of_absent deleting self absent] at indexes
  rw [HashMap.erase_absent (HashMap.not_mem_keys_iff.mp absent)] at records ordered
  refine ⟨records, by rw [ordered, Option.getD_some, valid.orderedKeys_eq], ?_, generator⟩
  intro ref registered
  have index := valid.indexed ref registered
  rcases MemoryIndex.visited_holds rfl key index refuses.not_null (nothing ref) (fun same => same ▸ refuses)
    (indexes ref) with ⟨wellFormed, info, holds⟩
  exact MemoryIndex.valueStore_eq_of_holds wellFormed index info holds

theorem put_destroys (destroys : state.store.PutDestroys engine adding key value) :
    result.1 ≠ none ∧ ¬ result.2.store.SameContents state.store := by
  rcases destroys with ⟨before, failing, after, split, conflict, free, lost⟩
  have registered := registered_of_visited split
  have failed : result.1 ≠ none := by
    rcases deleteRecord_spec deleting self key state valid rfl with ⟨_, frame, deletedValid, _, _⟩
    rw [← sameStore] at frame deletedValid
    have here := registered failing (by simp)
    intro accepted
    rcases (addRecord_spec engine adding key value _ deletedValid rfl made).2 with ⟨_, taken, _⟩ |
      ⟨_, _, _, _, _, _, error, _⟩
    · exact taken failing ((frame.registered failing).mpr here)
        ((refuses_iff_conflicts engine value valid sameStore here).mpr conflict)
    · rw [accepted] at error
      cases error
  refine ⟨failed, ?_⟩
  intro same
  rcases put_refused valid sameStore made rfl failed with
    ⟨front, stopped, rest, again, refused, passed, records, _, _, indexes⟩
  rcases first_split_unique (split.symm.trans again) conflict refused free passed with ⟨rfl, rfl⟩
  by_cases present : key ∈ state.store.records.keys
  · rcases HashMap.mem_keys_iff.mp present with ⟨old, found⟩
    rw [← same.records, records, Finmap.lookup_erase] at found
    cases found
  · rcases lost with member | ⟨ref, member, files⟩
    · exact present member
    have other : ¬ (engine.deserializeIDBValueToJSValue value).isUndefinedOrNull = true := fun null =>
      files (ScriptEngine.filedKeysFor_of_null null)
    have accepts : ¬ (state.store.indexes ref).Refuses engine value := by
      intro refuses
      rcases refuses with ⟨unique, indexKey, filed, primaryKey, held⟩
      exact free ref member ⟨unique, indexKey, filed, primaryKey, held, fun stored => absurd stored present⟩
    have inside := registered ref (mem_append_left _ member)
    have equal := same.indexes ref inside
    rw [indexes ref, if_pos member, sameStore, deleteRecord_store_of_absent deleting self present] at equal
    exact MemoryIndex.afterRevert_changes rfl (valid.indexed ref inside) other accepts files equal

end StoreWrite

end Odyssey.IndexedDB
