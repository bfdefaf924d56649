import Odyssey.IndexedDB.DeleteRangeSpec
import Odyssey.IndexedDB.PutRecordSpec

namespace Odyssey.IndexedDB

open Containers MemoryObjectStore

variable {K Object : Type} [IDBKeyOrder K]

/-- What an object store is, apart from its records and their index entries. -/
structure StoreSchema where
  info : IDBObjectStoreInfo
  writeTransaction : Option IDBResourceIdentifier
  nextIndex : IndexRef
  indexesByIdentifier : HashMap UInt64 IndexRef
  indexesByName : HashMap WTFString IndexRef
  infos : IndexRef → IDBIndexInfo

def MemoryObjectStore.schema (store : MemoryObjectStore K) : StoreSchema where
  info := store.info
  writeTransaction := store.writeTransaction
  nextIndex := store.nextIndex
  indexesByIdentifier := store.indexesByIdentifier
  indexesByName := store.indexesByName
  infos := fun ref => (store.indexes ref).info

namespace MemoryBackingStoreTransaction

variable (transaction : MemoryBackingStoreTransaction K)

def withoutRecords : MemoryBackingStoreTransaction K :=
  { transaction with
    originalValues := ∅
    clearedKeyValueMaps := ∅
    clearedOrderedKeys := ∅
    clearedIndexValueStores := ∅ }

end MemoryBackingStoreTransaction

namespace MemoryIndex

theorem putIndexKey_info (index : MemoryIndex K) (valueKey : K) (indexKey : IndexKey K) :
    (index.putIndexKey valueKey indexKey).2.1.info = index.info := by
  simp only [putIndexKey]
  by_cases multi : (!index.info.multiEntry) = true
  · rw [if_pos multi]
    cases IndexKey.asOneKey indexKey <;> rfl
  · rw [if_neg multi]
    split <;> rfl

theorem removeEntriesWithValueKey_info (order : IterationOrder K) (index : MemoryIndex K) (valueKey : K) :
    (index.removeEntriesWithValueKey order valueKey).1.info = index.info := by
  unfold removeEntriesWithValueKey
  cases index.records <;> rfl

end MemoryIndex

theorem MemoryObjectStore.schema_setIndex {store : MemoryObjectStore K} {ref : IndexRef} {index : MemoryIndex K}
    (kept : index.info = (store.indexes ref).info) : (store.setIndex ref index).schema = store.schema := by
  have infos : (fun other => ((store.setIndex ref index).indexes other).info) =
      fun other => (store.indexes other).info := by
    funext other
    by_cases same : other = ref
    · subst same
      simpa [setIndex] using kept
    · simp [setIndex, same]
  unfold schema
  rw [infos]
  rfl

namespace StoreWrite

structure IndexSteps (Related : StoreWrite K → StoreWrite K → Prop) : Prop where
  refl : ∀ state, Related state state
  trans : ∀ first second third, Related first second → Related second third → Related first third
  setIndex : ∀ (state : StoreWrite K) (ref : IndexRef) (index : MemoryIndex K)
    (notices : List (IndexNotice K)), index.info = (state.store.indexes ref).info →
    Related ⟨state.transaction, state.store.setIndex ref index, state.notices ++ notices.map (.index ref)⟩ state

namespace IndexSteps

variable {Related : StoreWrite K → StoreWrite K → Prop}

variable (steps : IndexSteps Related)
include steps

theorem foldl {α : Type} {update : StoreWrite K → α → StoreWrite K}
    (kept : ∀ state item, Related (update state item) state) (items : List α) (state : StoreWrite K) :
    Related (items.foldl update state) state := by
  induction items generalizing state with
  | nil => exact steps.refl state
  | cons item items ih =>
    exact steps.trans _ _ _ (ih (update state item)) (kept state item)

theorem updateIndexes {update : MemoryIndex K → MemoryIndex K × List (IndexNotice K)}
    (kept : ∀ index, (update index).1.info = index.info) (refs : List IndexRef) (state : StoreWrite K) :
    Related (refs.foldl (updateIndex update) state) state :=
  steps.foldl (fun state ref => steps.setIndex state ref _ _ (kept _)) refs state

theorem putIndexKeys (engine : ScriptEngine K Object) (jsValue : JSValue Object) (key : K)
    (refs : List IndexRef) (changed : List (IndexRef × IndexKey K)) (state : StoreWrite K) :
    Related (putIndexKeys engine jsValue key refs changed state).2.2 state := by
  induction refs generalizing changed state with
  | nil => exact steps.refl state
  | cons ref refs ih =>
    simp only [StoreWrite.putIndexKeys]
    by_cases empty : (engine.generateIndexKeyForValue (state.store.indexes ref).info jsValue).isEmpty = true
    · simp only [if_pos empty]
      exact ih changed state
    · simp only [if_neg empty]
      have kept := (state.store.indexes ref).putIndexKey_info key
        (engine.generateIndexKeyForValue (state.store.indexes ref).info jsValue)
      rcases result : (state.store.indexes ref).putIndexKey key
        (engine.generateIndexKeyForValue (state.store.indexes ref).info jsValue) with
        ⟨error, index, notices⟩
      rw [result] at kept
      have stored := steps.setIndex state ref index notices kept
      cases error with
      | some error => exact stored
      | none => exact steps.trans _ _ _ (ih _ _) stored

theorem updateIndexesForPutRecord (engine : ScriptEngine K Object) (orders : IterationOrders K) (key : K)
    (value : ThreadSafeDataBuffer) (state : StoreWrite K) :
    Related (updateIndexesForPutRecord engine orders key value state).2 state := by
  have put := steps.putIndexKeys engine (engine.deserializeIDBValueToJSValue value) key
    (state.store.namedIndexes orders) [] state
  unfold StoreWrite.updateIndexesForPutRecord
  by_cases null : (engine.deserializeIDBValueToJSValue value).isUndefinedOrNull = true
  · simp only [if_pos null]
    exact steps.refl state
  · simp only [if_neg null]
    rcases result : StoreWrite.putIndexKeys engine (engine.deserializeIDBValueToJSValue value) key
      (state.store.namedIndexes orders) [] state with ⟨error, changed, after⟩
    rw [result] at put
    cases error with
    | none => exact put
    | some error =>
      have reverted : ∀ state item, Related (revertIndex key state item) state :=
        fun state item => steps.setIndex state item.1 _ _ (MemoryIndex.removeRecord_info _ key item.2)
      exact steps.trans _ _ _ (steps.foldl reverted changed after) put

end IndexSteps

def frame (state : StoreWrite K) : StoreSchema × MemoryBackingStoreTransaction K :=
  (state.store.schema, state.transaction.withoutRecords)

theorem frame_steps : IndexSteps (fun after before : StoreWrite K => after.frame = before.frame) where
  refl := fun _ => rfl
  trans := fun _ _ _ left right => left.trans right
  setIndex := by
    intro state ref index notices kept
    unfold frame
    rw [schema_setIndex kept]

theorem deleteRecord_frame (orders : IterationOrders K) (self : StoreRef) (key : K)
    (state : StoreWrite K) : (deleteRecord orders self key state).frame = state.frame := by
  have logged : ∀ value, (state.transaction.recordValueChanged self key value).withoutRecords =
      state.transaction.withoutRecords := by
    intro value
    rcases recordValueChanged_eq state.transaction self key value with ⟨_, same⟩
    rw [same]
    rfl
  have indexes : (updateIndexesForDeleteRecord orders key (withoutRecord self key state)).frame =
      (withoutRecord self key state).frame :=
    frame_steps.updateIndexes (fun index => index.removeEntriesWithValueKey_info orders.keys key) _ _
  rw [deleteRecord_eq]
  split
  · exact indexes.trans (Prod.ext rfl (logged _))
  · exact Prod.ext rfl (logged none)

theorem deleteRange_frame (orders : IterationOrders K) (self : StoreRef) (range : IDBKeyRangeData K)
    (state : StoreWrite K) : (deleteRange orders self range state).frame = state.frame :=
  deleteRange_invariant (·.frame = state.frame)
    (fun before key same => (deleteRecord_frame orders self key before).trans same) range rfl

theorem addRecord_frame (engine : ScriptEngine K Object) (orders : IterationOrders K) (key : K)
    (value : ThreadSafeDataBuffer) (state : StoreWrite K) :
    (addRecord engine orders key value state).2.frame = state.frame := by
  simp only [addRecord]
  split
  all_goals
    rename_i result
    have put := congrArg (·.2.frame) result
    exact put.symm.trans (frame_steps.updateIndexesForPutRecord engine orders key value _)

theorem clearIndex_frame (self : StoreRef) (state : StoreWrite K) (ref : IndexRef) :
    (clearIndex self state ref).frame = state.frame := by
  rw [clearIndex_eq]
  refine Prod.ext (schema_setIndex ?_) rfl
  split <;> rfl

theorem clear_frame (orders : IterationOrders K) (self : StoreRef) (state : StoreWrite K) :
    (clear orders self state).frame = state.frame := by
  unfold clear MemoryBackingStoreTransaction.objectStoreCleared
  split_ifs
  all_goals exact frame_steps.foldl (clearIndex_frame self) _ _

end StoreWrite

end Odyssey.IndexedDB
