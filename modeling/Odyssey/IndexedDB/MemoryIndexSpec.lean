import Odyssey.IndexedDB.MemoryIndex

namespace Odyssey.IndexedDB

open Containers List

variable {K : Type} [IDBKeyOrder K]

theorem IndexKey.takeMultiEntry_nodup (keys : IndexKey K) (taken : List K) (nodup : taken.Nodup) :
    (IndexKey.takeMultiEntry taken keys).Nodup := by
  induction keys generalizing taken with
  | nil => exact nodup
  | cons key keys ih =>
    unfold takeMultiEntry
    split
    · exact ih taken nodup
    · split_ifs with fresh
      · exact ih taken nodup
      · apply ih
        refine nodup_append.mpr ⟨nodup, nodup_singleton _, ?_⟩
        intro first member second single same
        rw [mem_singleton.mp single] at same
        exact fresh (same ▸ member)

namespace MemoryIndex

theorem create_wellFormed (info : IDBIndexInfo) : (create info : MemoryIndex K).WellFormed := by
  intro records found
  cases found

theorem create_holds (info : IDBIndexInfo) (indexKey primaryKey : K) :
    ¬ (create info : MemoryIndex K).Holds indexKey primaryKey := by
  intro held
  rcases held with ⟨records, found, _⟩
  cases found

def valueStore (index : MemoryIndex K) : IndexValueStore K :=
  index.records.getD (.create index.info.unique)

theorem valueStore_holds (index : MemoryIndex K) (indexKey primaryKey : K) :
    index.valueStore.Holds indexKey primaryKey ↔ index.Holds indexKey primaryKey := by
  unfold valueStore Holds
  cases found : index.records with
  | none =>
    constructor
    · intro held
      exact absurd held (IndexValueStore.create_holds _ _ _)
    · intro held
      rcases held with ⟨_, absent, _⟩
      cases absent
  | some records => simp

variable {index : MemoryIndex K}

theorem WellFormed.valueStore (valid : index.WellFormed) :
    index.valueStore.WellFormed ∧ index.valueStore.unique = index.info.unique := by
  unfold MemoryIndex.valueStore
  cases found : index.records with
  | none => exact ⟨IndexValueStore.create_wellFormed _, rfl⟩
  | some records => exact valid records found

theorem withRecords_wellFormed {records : IndexValueStore K} (valid : records.WellFormed)
    (unique : records.unique = index.info.unique) :
    ({ index with records := some records } : MemoryIndex K).WellFormed := by
  intro other found
  cases found
  exact ⟨valid, unique⟩

theorem withRecords_holds (index : MemoryIndex K) (records : IndexValueStore K) (indexKey primaryKey : K) :
    ({ index with records := some records } : MemoryIndex K).Holds indexKey primaryKey ↔
      records.Holds indexKey primaryKey := by
  simp [Holds]

theorem addRecords_fold (valueKey : K) (keys : List K) (nodup : keys.Nodup) (store : IndexValueStore K)
    (valid : store.WellFormed) (free : store.unique = true → ∀ key ∈ keys, key ∉ store.records.keys) :
    let added := keys.foldl (fun records key => (records.addRecord key valueKey).2) store
    added.WellFormed ∧ added.unique = store.unique ∧ ∀ key primaryKey, added.Holds key primaryKey ↔
        store.Holds key primaryKey ∨ key ∈ keys ∧ primaryKey = valueKey := by
  induction keys generalizing store with
  | nil => exact ⟨valid, rfl, by simp⟩
  | cons first keys ih =>
    rcases nodup_cons.mp nodup with ⟨fresh, nodup⟩
    rcases store.addRecord_spec valid first valueKey with
      ⟨unique, present, _⟩ | ⟨_, added, result, addedValid, addedUnique, holds⟩
    · exact absurd present (free unique first mem_cons_self)
    · have still : added.unique = true → ∀ key ∈ keys, key ∉ added.records.keys := by
        intro unique key member present
        rcases addedValid.contains_iff.mp present with ⟨primaryKey, held⟩
        rcases (holds key primaryKey).mp held with held | ⟨same, _⟩
        · exact free (addedUnique ▸ unique) key (mem_cons_of_mem _ member) (valid.contains_iff.mpr ⟨primaryKey, held⟩)
        · exact fresh (same ▸ member)
      rcases ih nodup added addedValid still with ⟨finalValid, finalUnique, finalHolds⟩
      rw [foldl_cons, result]
      refine ⟨finalValid, finalUnique.trans addedUnique, ?_⟩
      intro key primaryKey
      rw [finalHolds, holds]
      simp only [mem_cons]
      tauto

theorem filedKeys_nodup (info : IDBIndexInfo) (indexKey : IndexKey K) : (filedKeys info indexKey).Nodup := by
  unfold filedKeys
  split
  · exact IndexKey.takeMultiEntry_nodup indexKey [] nodup_nil
  · cases IndexKey.asOneKey indexKey <;> simp

theorem putIndexKey_eq (valid : index.WellFormed) (valueKey : K) (indexKey : IndexKey K) :
    ((index.putIndexKey valueKey indexKey).1, (index.putIndexKey valueKey indexKey).2.1) =
      if index.info.unique = true ∧ ∃ key ∈ filedKeys index.info indexKey, key ∈ index.valueStore.records.keys
      then (some { code := .ConstraintError }, { index with records := some index.valueStore })
      else (none, { index with records := some ((filedKeys index.info indexKey).foldl
        (fun records key => (records.addRecord key valueKey).2) index.valueStore) }) := by
  rcases valid.valueStore with ⟨storeValid, storeUnique⟩
  unfold putIndexKey filedKeys
  rw [← valueStore]
  cases index.info.multiEntry with
  | false =>
    cases IndexKey.asOneKey indexKey with
    | none => simp
    | some single =>
      rcases index.valueStore.addRecord_spec storeValid single valueKey with
        ⟨unique, member, failed⟩ | ⟨allowed, added, succeeded, _⟩
      · simp [failed, ← storeUnique, unique, member]
      · simp [succeeded, ← storeUnique, allowed]
  | true =>
    simp only [Bool.not_true, Bool.false_eq_true, if_false, if_true, Bool.and_eq_true, any_eq_true,
      IndexValueStore.contains, decide_eq_true_eq]
    split <;> rfl

theorem putIndexKey_spec (valid : index.WellFormed) (valueKey : K) (indexKey : IndexKey K)
    {put : Option IDBError × MemoryIndex K × List (IndexNotice K)} (made : index.putIndexKey valueKey indexKey = put) :
    (put.2.1.WellFormed ∧ put.2.1.info = index.info) ∧
    ((index.info.unique = true ∧ (∃ key ∈ filedKeys index.info indexKey, ∃ primaryKey,
        index.Holds key primaryKey) ∧ put.1 = some { code := .ConstraintError } ∧
      ∀ key primaryKey, put.2.1.Holds key primaryKey ↔ index.Holds key primaryKey) ∨
    (¬ (index.info.unique = true ∧ ∃ key ∈ filedKeys index.info indexKey, ∃ primaryKey,
        index.Holds key primaryKey) ∧ put.1 = none ∧
      ∀ key primaryKey, put.2.1.Holds key primaryKey ↔
        index.Holds key primaryKey ∨ key ∈ filedKeys index.info indexKey ∧ primaryKey = valueKey)) := by
  subst made
  rcases valid.valueStore with ⟨storeValid, storeUnique⟩
  have present : ∀ key, key ∈ index.valueStore.records.keys ↔ ∃ primaryKey, index.Holds key primaryKey := by
    intro key
    rw [storeValid.contains_iff]
    simp only [valueStore_holds]
  have result := putIndexKey_eq valid valueKey indexKey
  split_ifs at result with conflict
  · simp only [present] at conflict
    obtain ⟨failed, same⟩ := Prod.mk.inj result
    rw [failed, same]
    refine ⟨⟨withRecords_wellFormed storeValid storeUnique, rfl⟩, .inl ⟨conflict.1, conflict.2, rfl, ?_⟩⟩
    intro key primaryKey
    rw [withRecords_holds, valueStore_holds]
  · simp only [present] at conflict
    obtain ⟨succeeded, same⟩ := Prod.mk.inj result
    rcases addRecords_fold valueKey _ (filedKeys_nodup index.info indexKey) index.valueStore storeValid
      (fun unique key member contained => conflict ⟨storeUnique ▸ unique, key, member, (present key).mp contained⟩)
      with ⟨addedValid, addedUnique, holds⟩
    rw [succeeded, same]
    refine ⟨⟨withRecords_wellFormed addedValid (addedUnique.trans storeUnique), rfl⟩, .inr ⟨conflict, rfl, ?_⟩⟩
    intro key primaryKey
    rw [withRecords_holds, holds, valueStore_holds]

theorem removeEntriesWithValueKey_spec (order : IterationOrder K) (valid : index.WellFormed) (valueKey : K) :
    (index.removeEntriesWithValueKey order valueKey).1.WellFormed ∧
    (index.removeEntriesWithValueKey order valueKey).1.info = index.info ∧
    ∀ key primaryKey, (index.removeEntriesWithValueKey order valueKey).1.Holds key primaryKey ↔
      index.Holds key primaryKey ∧ primaryKey ≠ valueKey := by
  unfold removeEntriesWithValueKey
  cases found : index.records with
  | none =>
    refine ⟨valid, rfl, ?_⟩
    simp [Holds, found]
  | some records =>
    rcases valid records found with ⟨recordsValid, unique⟩
    rcases records.removeEntriesWithValueKey_spec order recordsValid valueKey with
      ⟨removedValid, removedUnique, holds⟩
    refine ⟨withRecords_wellFormed removedValid (removedUnique.trans unique), rfl, ?_⟩
    intro key primaryKey
    refine (withRecords_holds index _ key primaryKey).trans ?_
    rw [holds]
    simp [Holds, found]

end MemoryIndex

end Odyssey.IndexedDB
