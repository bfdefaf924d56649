import Odyssey.IndexedDB.DeleteRangeSpec
import Odyssey.IndexedDB.PutRecordSpec

namespace Odyssey.IndexedDB

open Containers List

variable {K Object : Type} [IDBKeyOrder K]

namespace StoreWrite

theorem clearIndex_fold (self : StoreRef) (refs : List IndexRef) (nodup : refs.Nodup) (state : StoreWrite K) :
    ∃ logged notices, refs.foldl (clearIndex self) state =
      { transaction := { state.transaction with clearedIndexValueStores := logged }
        store := { state.store with
          indexes := fun ref =>
            if ref ∈ refs ∧ (self, ref) ∉ state.transaction.clearedIndexValueStores.keys
            then { state.store.indexes ref with records := none } else state.store.indexes ref }
        notices := notices } := by
  induction refs generalizing state with
  | nil => exact ⟨state.transaction.clearedIndexValueStores, state.notices, by simp⟩
  | cons first refs ih =>
    rcases nodup_cons.mp nodup with ⟨fresh, rest⟩
    rcases ih rest (clearIndex self state first) with ⟨logged, notices, result⟩
    simp only [clearIndex_eq] at result
    generalize logs : (if (self, first) ∈ state.transaction.clearedIndexValueStores.keys then _ else _) = log at result
    -- The loop over the other indexes finds the log of each as it was.
    have keys : ∀ index, index ≠ (self, first) →
        (index ∈ log.keys ↔ index ∈ state.transaction.clearedIndexValueStores.keys) := by
      intro index other
      rw [← logs]
      split
      · rfl
      · rw [HashMap.keys_insert, Finset.mem_insert, or_iff_right other]
    refine ⟨logged, notices, ?_⟩
    rw [foldl_cons, clearIndex_eq, logs, result]
    refine congrArg (fun indexes => mk _ { state.store with indexes := indexes } notices) ?_
    funext ref
    by_cases same : ref = first
    · subst same
      simp [MemoryObjectStore.setIndex, fresh]
    · simp [MemoryObjectStore.setIndex, same, keys]

/-- A null or undefined value ends the population; the records visited after it yield no key. -/
def PopulatesFully (engine : ScriptEngine K Object) (map : KeyValueMap K) (info : IDBIndexInfo)
    (keys : List K) : Prop :=
  ∀ before key after, keys = before ++ key :: after →
    (engine.deserializeIDBValueToJSValue (map.lookup key).join).isUndefinedOrNull = true →
    ∀ later ∈ after, engine.filedKeysFor info (map.lookup later).join = []

theorem PopulatesFully.tail {engine : ScriptEngine K Object} {map : KeyValueMap K} {info : IDBIndexInfo} {first : K}
    {keys : List K} (full : PopulatesFully engine map info (first :: keys)) : PopulatesFully engine map info keys := by
  intro before key after split null
  exact full (first :: before) key after (by rw [split]; rfl) null

theorem populateIndex_spec (engine : ScriptEngine K Object) (map : KeyValueMap K) (keys : List K)
    (index : MemoryIndex K) (valid : index.WellFormed)
    (full : PopulatesFully engine map index.info keys) {result : Option IDBError × MemoryIndex K}
    (made : populateIndex engine map keys index = result) (accepted : result.1 = none) :
    result.2.WellFormed ∧ result.2.info = index.info ∧
    ∀ indexKey primaryKey, result.2.Holds indexKey primaryKey ↔ index.Holds indexKey primaryKey ∨
      primaryKey ∈ keys ∧ indexKey ∈ engine.filedKeysFor index.info (map.lookup primaryKey).join := by
  induction keys generalizing index with
  | nil =>
    subst made
    exact ⟨valid, rfl, by simp [populateIndex]⟩
  | cons first keys ih =>
    by_cases null : (engine.deserializeIDBValueToJSValue (map.lookup first).join).isUndefinedOrNull = true
    · simp only [populateIndex, null] at made
      subst made
      refine ⟨valid, rfl, ?_⟩
      intro indexKey primaryKey
      refine (or_iff_left ?_).symm
      rintro ⟨member, filed⟩
      rcases mem_cons.mp member with rfl | member
      · rw [ScriptEngine.filedKeysFor_of_null null] at filed
        cases filed
      · rw [full [] first keys rfl null primaryKey member] at filed
        cases filed
    · cases put : index.afterPut engine (engine.deserializeIDBValueToJSValue (map.lookup first).join) first with
      | mk error next =>
        have turn : populateIndex engine map (first :: keys) index =
            if error.isSome then (error, next) else populateIndex engine map keys next := by
          simp only [MemoryIndex.afterPut] at put
          simp only [populateIndex, if_neg null]
          split at put
          · cases put
            simp [*]
          · cases put
            rw [if_neg ‹_›]
            cases index.putIndexKey first (engine.generateIndexKeyForValue index.info
                (engine.deserializeIDBValueToJSValue (map.lookup first).join)) with
            | mk error rest => cases error <;> rfl
        rw [turn] at made
        rcases MemoryIndex.afterPut_spec rfl null first valid put with
          ⟨⟨putValid, putInfo⟩, ⟨_, failed, _⟩ | ⟨_, taken, holds⟩⟩
        · cases failed
          subst made
          cases accepted
        · cases taken
          rcases ih next putValid (putInfo ▸ full.tail) made with ⟨restValid, restInfo, restHolds⟩
          refine ⟨restValid, restInfo.trans putInfo, ?_⟩
          intro indexKey primaryKey
          rw [restHolds, holds, show next.info = _ from putInfo, mem_cons, or_and_right, or_assoc]
          refine or_congr_right (or_congr_left ?_)
          constructor
          · rintro ⟨filed, rfl⟩
            exact ⟨rfl, filed⟩
          · rintro ⟨rfl, filed⟩
            exact ⟨filed, rfl⟩

end StoreWrite

end Odyssey.IndexedDB
