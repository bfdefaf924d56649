import Odyssey.IndexedDB.ObjectStoreSpec

namespace Odyssey.IndexedDB

open Containers List Option MemoryIndex

variable {K Object : Type} [IDBKeyOrder K]

namespace MemoryIndex

variable (engine : ScriptEngine K Object)

def afterPut (jsValue : JSValue Object) (key : K) (index : MemoryIndex K) : Option IDBError × MemoryIndex K :=
  let indexKey := engine.generateIndexKeyForValue index.info jsValue
  if indexKey.isEmpty then (none, index)
  else ((index.putIndexKey key indexKey).1, (index.putIndexKey key indexKey).2.1)

def afterRevert (jsValue : JSValue Object) (key : K) (index : MemoryIndex K) : MemoryIndex K :=
  let indexKey := engine.generateIndexKeyForValue index.info jsValue
  if indexKey.isEmpty then index
  else ((index.afterPut engine jsValue key).2.removeRecord key indexKey).1

def Refuses (value : ThreadSafeDataBuffer) (index : MemoryIndex K) : Prop :=
  index.info.unique = true ∧
    ∃ indexKey ∈ engine.filedKeysFor index.info value, ∃ primaryKey, index.Holds indexKey primaryKey

theorem Refuses.not_null {engine : ScriptEngine K Object} {value : ThreadSafeDataBuffer}
    {index : MemoryIndex K} (refuses : index.Refuses engine value) :
    ¬ (engine.deserializeIDBValueToJSValue value).isUndefinedOrNull = true := by
  intro null
  rcases refuses with ⟨_, indexKey, member, _⟩
  rw [ScriptEngine.filedKeysFor_of_null null] at member
  cases member

theorem afterPut_spec {engine : ScriptEngine K Object} {value : ThreadSafeDataBuffer} {jsValue : JSValue Object}
    (read : engine.deserializeIDBValueToJSValue value = jsValue) (other : ¬ jsValue.isUndefinedOrNull = true)
    (key : K) {index : MemoryIndex K} (valid : index.WellFormed) {put : Option IDBError × MemoryIndex K}
    (made : index.afterPut engine jsValue key = put) :
    (put.2.WellFormed ∧ put.2.info = index.info) ∧
    ((index.Refuses engine value ∧ put.1 = some { code := .ConstraintError } ∧
      ∀ indexKey primaryKey, put.2.Holds indexKey primaryKey ↔ index.Holds indexKey primaryKey) ∨
    (¬ index.Refuses engine value ∧ put.1 = none ∧
      ∀ indexKey primaryKey, put.2.Holds indexKey primaryKey ↔ index.Holds indexKey primaryKey ∨
        indexKey ∈ engine.filedKeysFor index.info value ∧ primaryKey = key)) := by
  subst made
  have filed : engine.filedKeysFor index.info value = _ := ScriptEngine.filedKeysFor_of_other read other
  by_cases empty : (engine.generateIndexKeyForValue index.info jsValue).isEmpty = true
  · have none : engine.filedKeysFor index.info value = [] := by
      rw [filed, isEmpty_iff.mp empty, filedKeys_nil]
    simp only [afterPut, if_pos empty]
    refine ⟨⟨valid, trivial⟩, .inr ⟨?_, trivial, ?_⟩⟩
    · intro refused
      rcases refused with ⟨_, indexKey, member, _⟩
      rw [none] at member
      cases member
    · simp [none]
  · simp only [afterPut, if_neg empty, Refuses, filed]
    rcases putIndexKey_spec valid key (engine.generateIndexKeyForValue index.info jsValue) rfl with
      ⟨kept, ⟨unique, held, failed, same⟩ | accepted⟩
    · exact ⟨kept, .inl ⟨⟨unique, held⟩, failed, same⟩⟩
    · exact ⟨kept, .inr accepted⟩

theorem removeRecord_info (index : MemoryIndex K) (valueKey : K) (indexKey : IndexKey K) :
    (index.removeRecord valueKey indexKey).1.info = index.info := by
  unfold removeRecord
  cases index.records <;> rfl

theorem afterRevert_eq (engine : ScriptEngine K Object) (jsValue : JSValue Object) (key : K) (index : MemoryIndex K) :
    index.afterRevert engine jsValue key = if (engine.generateIndexKeyForValue index.info jsValue).isEmpty = false
      then ((index.afterPut engine jsValue key).2.removeRecord key
        (engine.generateIndexKeyForValue index.info jsValue)).1
      else (index.afterPut engine jsValue key).2 := by
  cases empty : (engine.generateIndexKeyForValue index.info jsValue).isEmpty <;> simp [afterRevert, afterPut, empty]

end MemoryIndex

namespace StoreWrite

variable (engine : ScriptEngine K Object)

theorem putIndexKeys_cons (jsValue : JSValue Object) (key : K) (first : IndexRef) (refs : List IndexRef)
    (changed : List (IndexRef × IndexKey K)) (state : StoreWrite K) :
    ∃ notices, putIndexKeys engine jsValue key (first :: refs) changed state =
      let put := (state.store.indexes first).afterPut engine jsValue key
      let next := { state with store := state.store.setIndex first put.2, notices := notices }
      match put.1 with
      | some error => (some error, changed, next)
      | none => putIndexKeys engine jsValue key refs
          (changed ++ [(first, engine.generateIndexKeyForValue (state.store.indexes first).info
            jsValue)].filter (! ·.2.isEmpty)) next := by
  by_cases empty : (engine.generateIndexKeyForValue (state.store.indexes first).info jsValue).isEmpty = true
  · refine ⟨state.notices, ?_⟩
    have same : state.store.setIndex first (state.store.indexes first) = state.store := by
      simp [MemoryObjectStore.setIndex]
    simp [putIndexKeys, afterPut, empty, same]
  · refine ⟨state.notices ++ ((state.store.indexes first).putIndexKey key
      (engine.generateIndexKeyForValue (state.store.indexes first).info jsValue)).2.2.map (.index first), ?_⟩
    simp only [putIndexKeys, afterPut, if_neg empty]
    cases (state.store.indexes first).putIndexKey key
        (engine.generateIndexKeyForValue (state.store.indexes first).info jsValue) with
    | mk error rest =>
      cases error with
      | some error => rfl
      | none => simp [empty]

theorem putIndexKeys_cases (jsValue : JSValue Object) (key : K) (refs : List IndexRef) (nodup : refs.Nodup)
    (changed : List (IndexRef × IndexKey K)) (state : StoreWrite K)
    {result : Option IDBError × List (IndexRef × IndexKey K) × StoreWrite K}
    (made : putIndexKeys engine jsValue key refs changed state = result) :
    (∃ recorded notices, result = (none, recorded, { state with
          store := { state.store with
            indexes := fun ref => if ref ∈ refs
              then ((state.store.indexes ref).afterPut engine jsValue key).2
              else state.store.indexes ref }
          notices := notices }) ∧
      ∀ ref ∈ refs, ((state.store.indexes ref).afterPut engine jsValue key).1 = none) ∨
    (∃ before failing after error notices, refs = before ++ failing :: after ∧ result = (some error,
          changed ++ (before.map (fun ref =>
            (ref, engine.generateIndexKeyForValue (state.store.indexes ref).info jsValue))).filter (! ·.2.isEmpty),
          { state with
            store := { state.store with
              indexes := fun ref => if ref ∈ before ++ [failing]
                then ((state.store.indexes ref).afterPut engine jsValue key).2
                else state.store.indexes ref }
            notices := notices }) ∧
      (∀ ref ∈ before, ((state.store.indexes ref).afterPut engine jsValue key).1 = none) ∧
      ((state.store.indexes failing).afterPut engine jsValue key).1 = some error) := by
  induction refs generalizing changed state with
  | nil => exact .inl ⟨changed, state.notices, by simp [← made, putIndexKeys], by simp⟩
  | cons first refs ih =>
    rcases nodup_cons.mp nodup with ⟨fresh, rest⟩
    rcases putIndexKeys_cons engine jsValue key first refs changed state with ⟨sent, turn⟩
    rw [turn] at made
    have visited := fun (done : List IndexRef) (absent : first ∉ done) => ite_mem_update
      (fun _ index => (afterPut engine jsValue key index).2) state.store.indexes absent
    cases put : ((state.store.indexes first).afterPut engine jsValue key).1 with
    | some error =>
      simp only [put] at made
      refine .inr ⟨[], first, refs, error, sent, rfl, ?_, by simp, put⟩
      rw [nil_append, ← visited [] not_mem_nil, ← made]
      simp [MemoryObjectStore.setIndex]
    | none =>
      simp only [put] at made
      -- The loop over the other indexes sees them as they were.
      have unchanged : ∀ ref ∈ refs, Function.update state.store.indexes first
          ((state.store.indexes first).afterPut engine jsValue key).2 ref = state.store.indexes ref :=
        fun ref member => Function.update_of_ne (ne_of_mem_of_not_mem member fresh) _ _
      rcases ih rest _ _ made with ⟨recorded, notices, result, accepted⟩ |
        ⟨before, failing, after, error, notices, split, result, accepted, refused⟩
      · refine .inl ⟨recorded, notices, ?_, forall_mem_cons.mpr ⟨put, ?_⟩⟩
        · rw [result, ← visited refs fresh]
          rfl
        · intro ref member
          rw [← unchanged ref member]
          exact accepted ref member
      · have inside : before ++ [failing] ⊆ refs := by
          rw [split, append_cons before failing after]
          exact subset_append_left _ _
        have earlier : ∀ ref ∈ before, ref ∈ refs := fun ref member =>
          inside (mem_append_left _ member)
        refine .inr ⟨first :: before, failing, after, error, notices, by simp [split], ?_,
          forall_mem_cons.mpr ⟨put, ?_⟩, ?_⟩
        · have infos : before.map (fun ref => (ref, engine.generateIndexKeyForValue
                (Function.update state.store.indexes first
                  ((state.store.indexes first).afterPut engine jsValue key).2 ref).info jsValue)) =
              before.map (fun ref =>
                (ref, engine.generateIndexKeyForValue (state.store.indexes ref).info jsValue)) := by
            apply map_congr_left
            intro ref member
            rw [unchanged ref (earlier ref member)]
          rw [map_cons, cons_append, ← infos, ← visited _ (fun member => fresh (inside member)),
            ← singleton_append, filter_append, ← append_assoc]
          exact result
        · intro ref member
          rw [← unchanged ref (earlier ref member)]
          exact accepted ref member
        · rw [← unchanged failing (inside (by simp))]
          exact refused

theorem revertIndex_fold (key : K) (indexKeys : IndexRef → IndexKey K) (refs : List IndexRef)
    (nodup : refs.Nodup) (state : StoreWrite K) :
    ∃ notices, ((refs.map (fun ref => (ref, indexKeys ref))).filter (! ·.2.isEmpty)).foldl (revertIndex key) state =
      { state with
        store := { state.store with
          indexes := fun ref => if ref ∈ refs ∧ (indexKeys ref).isEmpty = false
            then ((state.store.indexes ref).removeRecord key (indexKeys ref)).1
            else state.store.indexes ref }
        notices := notices } := by
  -- Only the indexes that got keys are reverted.
  have kept := nodup.filter (fun ref => !(indexKeys ref).isEmpty)
  rcases updateIndex_fold (fun ref index => index.removeRecord key (indexKeys ref)) _ kept state with
    ⟨notices, result⟩
  refine ⟨notices, ?_⟩
  simp only [mem_filter, Bool.not_eq_true'] at result
  rw [List.filter_map, foldl_map]
  exact result

def withRecord (key : K) (value : ThreadSafeDataBuffer) (state : StoreWrite K) : StoreWrite K :=
  { state with
    store := { state.store with
      keyValueStore := some (state.store.records.insert key value)
      orderedKeys := some (state.store.records.insert key value).keys } }

theorem addRecord_eq (orders : IterationOrders K) (key : K) (value : ThreadSafeDataBuffer)
    (state : StoreWrite K) (tables : state.store.orderedKeys = state.store.keyValueStore.map (·.keys)) :
    addRecord engine orders key value state =
      match updateIndexesForPutRecord engine orders key value (withRecord key value state) with
      | (some error, after) => (some error, { after with
          store := { after.store with
            keyValueStore := after.store.keyValueStore.map (·.erase key)
            orderedKeys := after.store.orderedKeys.map (·.erase key) } })
      | (none, after) => (none, { after with notices := after.notices ++ [.keyAdded key] }) := by
  cases stored : state.store.keyValueStore with
  | none =>
    simp only [withRecord, MemoryObjectStore.records, stored]
    rewrite [addRecord, stored]
    rfl
  | some map =>
    have ordered : map.keys = state.store.orderedKeys.getD ∅ := by rw [tables, stored, map_some, getD_some]
    simp only [withRecord, MemoryObjectStore.records, stored, getD_some, HashMap.keys_insert, ordered]
    rewrite [addRecord, stored]
    rfl

open MemoryObjectStore in
/-- Either every index takes the record, or the first one that refuses it stops the loop: the record
    goes again, and the indexes visited before are put and reverted. -/
theorem addRecord_spec (engine : ScriptEngine K Object) (orders : IterationOrders K) (key : K)
    (value : ThreadSafeDataBuffer) (state : StoreWrite K) (valid : state.store.WellFormed)
    {jsValue : JSValue Object} (read : engine.deserializeIDBValueToJSValue value = jsValue)
    {result : Option IDBError × StoreWrite K} (made : addRecord engine orders key value state = result) :
    (result.2.transaction = state.transaction ∧ SameFrame result.2.store state.store) ∧
    ((result.1 = none ∧ (∀ ref, state.store.Registered ref → ¬ (state.store.indexes ref).Refuses engine value) ∧
      result.2.store.WellFormed ∧
      result.2.store.keyValueStore = some (state.store.records.insert key value) ∧
      ∀ ref, state.store.Registered ref → ∀ indexKey primaryKey,
        (result.2.store.indexes ref).Holds indexKey primaryKey ↔ (state.store.indexes ref).Holds indexKey primaryKey ∨
            indexKey ∈ engine.filedKeysFor (state.store.indexes ref).info value ∧ primaryKey = key) ∨
    (∃ before failing after, state.store.namedIndexes orders = before ++ failing :: after ∧
      (state.store.indexes failing).Refuses engine value ∧
      (∀ ref ∈ before, ¬ (state.store.indexes ref).Refuses engine value) ∧
      result.1 = some { code := .ConstraintError } ∧
      result.2.store.keyValueStore = some ((state.store.records.insert key value).erase key) ∧
      result.2.store.orderedKeys = some ((state.store.records.insert key value).erase key).keys ∧
      ∀ ref, result.2.store.indexes ref =
        if ref ∈ before then (state.store.indexes ref).afterRevert engine jsValue key
        else if ref = failing then ((state.store.indexes ref).afterPut engine jsValue key).2
        else state.store.indexes ref)) := by
  have nodup := valid.namedIndexes_nodup orders
  rw [addRecord_eq engine orders key value state valid.tables, updateIndexesForPutRecord, read] at made
  by_cases null : jsValue.isUndefinedOrNull = true
  · rw [if_pos null] at made
    subst made
    rw [← read] at null
    have frame : SameFrame (withRecord key value state).store state.store :=
      ⟨rfl, rfl, rfl, rfl, rfl, rfl, fun _ => rfl⟩
    refine ⟨⟨rfl, frame⟩, .inl ⟨rfl, ?_, frame.wellFormed valid rfl valid.indexed, rfl, ?_⟩⟩
    · exact fun _ _ refuses => refuses.not_null null
    · intro ref _ indexKey primaryKey
      simp [ScriptEngine.filedKeysFor_of_null null, withRecord]
  · have put := fun ref (registered : state.store.Registered ref) =>
      afterPut_spec read null key (valid.indexed ref registered) rfl
    have memNamed := mem_namedIndexes orders state.store
    rw [if_neg null, show (withRecord key value state).store.namedIndexes orders =
      state.store.namedIndexes orders from rfl] at made
    rcases putIndexKeys_cases engine jsValue key _ nodup [] (withRecord key value state) rfl with
      ⟨recorded, notices, looped, accepted⟩ |
        ⟨before, failing, after, error, notices, split, looped, accepted, refused⟩
    · rw [looped] at made
      subst made
      have frame : SameFrame { (withRecord key value state).store with
          indexes := fun ref => if ref ∈ state.store.namedIndexes orders
            then ((state.store.indexes ref).afterPut engine jsValue key).2
            else state.store.indexes ref } state.store := by
        refine ⟨rfl, rfl, rfl, rfl, rfl, rfl, fun ref => ?_⟩
        dsimp only
        split
        · exact (put ref ((memNamed ref).mp ‹_›)).1.2
        · rfl
      have taken := fun ref registered => (put ref registered).2.resolve_left fun refuses =>
        absurd ((accepted ref ((memNamed ref).mpr registered)).symm.trans refuses.2.1) nofun
      refine ⟨⟨rfl, frame⟩,
        .inl ⟨rfl, fun ref registered => (taken ref registered).1, frame.wellFormed valid rfl ?_, rfl, ?_⟩⟩
      · intro ref registered
        simp only [if_pos ((memNamed ref).mpr registered)]
        exact (put ref registered).1.1
      · intro ref registered indexKey primaryKey
        simp only [if_pos ((memNamed ref).mpr registered)]
        exact (taken ref registered).2.2 indexKey primaryKey
    · have named : ∀ ref ∈ before ++ [failing], state.store.Registered ref := registered_of_visited split
      have parts : before.Nodup ∧ failing ∉ before := by
        rw [split] at nodup
        refine ⟨(nodup_append.mp nodup).1, ?_⟩
        intro member
        exact (nodup_append.mp nodup).2.2 failing member failing (by simp) rfl
      have constraint := (put failing (named failing (by simp))).2.resolve_right fun taken =>
        absurd (refused.symm.trans taken.2.1) nofun
      have earlierFree := fun ref member =>
        ((put ref (named ref (mem_append_left _ member))).2.resolve_left fun refuses =>
          absurd ((accepted ref member).symm.trans refuses.2.1) nofun).1
      rw [looped, nil_append] at made
      generalize reverting : StoreWrite.mk _ _ notices = looping at made
      rcases revertIndex_fold key (fun ref => engine.generateIndexKeyForValue
        (state.store.indexes ref).info jsValue) before parts.1 looping with ⟨sent, reverted⟩
      simp only [show (withRecord key value state).store.indexes = state.store.indexes from rfl, reverted] at made
      subst reverting made
      refine ⟨⟨rfl, ⟨rfl, rfl, rfl, rfl, rfl, rfl, ?_⟩⟩, .inr ⟨before, failing, after, split,
        constraint.1, earlierFree, refused.symm.trans constraint.2.1, rfl, ?_, ?_⟩⟩
      · intro ref
        dsimp only
        split
        · rw [removeRecord_info]
          split
          · exact (put ref (named ref ‹_›)).1.2
          · rfl
        · split
          · exact (put ref (named ref ‹_›)).1.2
          · rfl
      · simp [withRecord, Finmap.keys_erase]
      · intro ref
        by_cases earlier : ref ∈ before
        · simp only [earlier, true_and, if_true, afterRevert_eq, mem_append, true_or]
          rfl
        · by_cases same : ref = failing
          · simp [same, parts.2, withRecord]
          · simp [earlier, same, withRecord]

end StoreWrite

end Odyssey.IndexedDB
