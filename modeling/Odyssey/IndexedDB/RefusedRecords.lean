import Odyssey.IndexedDB.PutRequests

namespace Odyssey.IndexedDB

open Containers Systems List StoreWrite MemoryObjectStore

variable {K Object : Type} [IDBKeyOrder K]

theorem MemoryObjectStore.putDestroys_iff {engine : ScriptEngine K Object} {orders : IterationOrders K}
    {store : MemoryObjectStore K} {key : K} {value : ThreadSafeDataBuffer} (absent : key ∉ store.records.keys) :
    store.PutDestroys engine orders key value ↔ ¬ StoreWrite.RefusedFirst engine orders value store := by
  have conflicts : ∀ ref, store.Conflicts engine key value ref ↔ (store.indexes ref).Refuses engine value := by
    simp [Conflicts, MemoryIndex.Refuses, absent]
  simp only [PutDestroys, conflicts, absent, false_or, StoreWrite.RefusedFirst]
  push Not
  rfl

theorem StoreWrite.refused_of_error {engine : ScriptEngine K Object} {orders : IterationOrders K} {key : K}
    {value : ThreadSafeDataBuffer} {state : StoreWrite K} (valid : state.store.WellFormed)
    (failed : (addRecord engine orders key value state).1.isSome = true) :
    ∃ ref, state.store.Registered ref ∧ (state.store.indexes ref).Refuses engine value := by
  rcases (addRecord_spec engine orders key value state valid rfl rfl).2 with ⟨accepted, _⟩ |
    ⟨before, failing, after, split, refuses, _⟩
  · rw [accepted] at failed
    cases failed
  · refine ⟨failing, (mem_namedIndexes orders state.store failing).mp ?_, refuses⟩
    rw [split]
    exact mem_append_right _ mem_cons_self

def twoIndexes : List (StoreEvent CanonicalKey) :=
  [.beginTransaction upgrade emptyDatabase, .createIndex ascendingOrders (indexInfo 1 false),
    .createIndex ascendingOrders (indexInfo 2 true)]

end Odyssey.IndexedDB
