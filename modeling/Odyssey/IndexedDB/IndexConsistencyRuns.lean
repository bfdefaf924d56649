import Odyssey.IndexedDB.IndexConsistency
import Odyssey.IndexedDB.CanonicalKeys

namespace Odyssey.IndexedDB

open Containers Systems List StoreWrite MemoryBackingStoreTransaction

variable {K Object : Type} [IDBKeyOrder K]

inductive StoreEvent (K : Type) where
  | beginTransaction (info : IDBTransactionInfo) (databaseInfo : IDBDatabaseInfo)
  | commit
  | addRecord (orders : IterationOrders K) (key : K) (value : ThreadSafeDataBuffer)
  | deleteRecord (orders : IterationOrders K) (key : K)
  | deleteRange (orders : IterationOrders K) (range : IDBKeyRangeData K)
  | clear (orders : IterationOrders K)
  | createIndex (orders : IterationOrders K) (info : IDBIndexInfo)
  | deleteIndex (indexIdentifier : UInt64)

namespace StoreWrite

def isWritten (state : StoreWrite K) : Bool :=
  state.store.writeTransaction = some state.transaction.info.identifier

/-- A step that breaks an assertion of the source has no next state: a write without a write
    transaction, a record added twice, an index registered twice. -/
def step (engine : ScriptEngine K Object) (self : StoreRef) (state : StoreWrite K) :
    StoreEvent K → Option (StoreWrite K)
  | .beginTransaction info databaseInfo =>
    if state.store.writeTransaction.isNone && decide (info.mode ≠ .readonly) then
      some { state with
        transaction := (MemoryBackingStoreTransaction.create info databaseInfo).addExistingObjectStore
          self state.store.keyGeneratorValue
        store := { state.store with writeTransaction := some info.identifier } }
    else none
  | .commit =>
    if state.isWritten then
      some { state with
        transaction := { state.transaction with inProgress := false }
        store := { state.store with writeTransaction := none } }
    else none
  | .addRecord orders key value =>
    if state.isWritten && !state.store.containsRecord key then
      some (addRecord engine orders key value state).2
    else none
  | .deleteRecord orders key =>
    if state.isWritten then some (deleteRecord orders self key state) else none
  | .deleteRange orders range =>
    if state.isWritten then some (deleteRange orders self range state) else none
  | .clear orders => if state.isWritten then some (clear orders self state) else none
  | .createIndex orders info =>
    if state.isWritten && decide (info.name ∉ state.store.indexesByName.keys) &&
        decide (info.identifier ∉ state.store.indexesByIdentifier.keys) then
      some (createIndex engine orders self info state).2
    else none
  | .deleteIndex indexIdentifier =>
    if state.isWritten then some (deleteIndex self indexIdentifier state).2 else none

def Maintains (engine : ScriptEngine K Object) (self : StoreRef) (state : StoreWrite K) :
    StoreEvent K → Prop
  | .addRecord orders _ value => RefusedFirst engine orders value state.store
  | .clear _ => self ∈ state.transaction.clearedKeyValueMaps.keys → IndexesCleared self state
  | .createIndex orders info =>
    PopulatesFully engine state.store.records info (orders.keys.visit state.store.records.keys)
  | _ => True

structure Maintained (engine : ScriptEngine K Object) (address : StoreRef) (state : StoreWrite K) :
    Prop where
  consistent : state.store.Consistent engine
  together : state.store.writeTransaction ≠ none → ClearedTogether address state.transaction

def logs (state : StoreWrite K) := (state.store.writeTransaction,
  state.transaction.clearedIndexValueStores, state.transaction.clearedKeyValueMaps)

/-- The state with the indexes of another one. -/
def withIndexesOf (other state : StoreWrite K) : StoreWrite K :=
  { state with
    transaction := { state.transaction with
      indexes := other.transaction.indexes
      versionChangeAddedIndexes := other.transaction.versionChangeAddedIndexes
      deletedIndexes := other.transaction.deletedIndexes }
    store := { other.store with
      info := { state.store.info with
        maxIndexID := other.store.info.maxIndexID
        indexMap := other.store.info.indexMap }
      writeTransaction := state.store.writeTransaction
      keyGeneratorValue := state.store.keyGeneratorValue
      keyValueStore := state.store.keyValueStore
      orderedKeys := state.store.orderedKeys } }

theorem createIndex_withIndexesOf (engine : ScriptEngine K Object) (orders : IterationOrders K)
    (self : StoreRef) (info : IDBIndexInfo) (state : StoreWrite K) :
    withIndexesOf state (createIndex engine orders self info state).2 = state := by
  unfold createIndex
  split
  · rfl
  · cases populateIndexWithExistingRecords engine orders state.store (.create info) with
    | mk error index => cases error <;> rfl

theorem deleteIndex_withIndexesOf (self : StoreRef) (indexIdentifier : UInt64) (state : StoreWrite K) :
    withIndexesOf state (deleteIndex self indexIdentifier state).2 = state := by
  unfold deleteIndex takeIndexByIdentifier
  split
  · rfl
  · cases state.store.indexesByIdentifier.lookup indexIdentifier with
    | none => rfl
    | some ref =>
      dsimp only
      cases state.store.indexesByName.lookup (state.store.indexes ref).info.name with
      | none => rfl
      | some found =>
        dsimp only [indexDeleted]
        split <;> rfl

section Maintained

variable {engine : ScriptEngine K Object} {self : StoreRef} {state : StoreWrite K}
  (maintained : state.Maintained engine self)
include maintained

theorem Maintained.of_logs {after : StoreWrite K} (consistent : after.store.Consistent engine)
    (logs : after.logs = state.logs) : after.Maintained engine self := by
  simp only [StoreWrite.logs, Prod.mk.injEq] at logs
  refine ⟨consistent, ?_⟩
  rw [ClearedTogether, logs.1, logs.2.1, logs.2.2]
  exact maintained.together

theorem Maintained.deleteRecord (orders : IterationOrders K) (key : K) :
    (StoreWrite.deleteRecord orders self key state).Maintained engine self := by
  rcases deleteRecord_spec orders self key state maintained.consistent.toWellFormed rfl with
    ⟨logged, frame, _⟩
  refine maintained.of_logs (deleteRecord_consistent orders self key maintained.consistent) ?_
  rcases recordValueChanged_eq state.transaction self key (state.store.records.lookup key) with ⟨_, same⟩
  rw [logs, frame.writeTransaction, logged, same]
  rfl

theorem Maintained.step {next : StoreWrite K} {event : StoreEvent K} (met : state.Maintains engine self event)
    (stepped : state.step engine self event = some next) : next.Maintained engine self := by
  have consistent := maintained.consistent
  have written : ∀ writer, ({ state.store with writeTransaction := writer } : MemoryObjectStore K).Consistent engine :=
    fun _ => ⟨⟨consistent.tables, consistent.named, consistent.identified, consistent.allocated,
      consistent.indexed⟩, consistent.holds⟩
  cases event
  all_goals obtain ⟨guarded, ⟨⟩⟩ := Option.ite_none_right_eq_some.mp stepped
  case beginTransaction info databaseInfo =>
    refine ⟨written _, ?_⟩
    intro _ ref logged
    exact absurd logged (Finset.notMem_empty (self, ref))
  case commit =>
    exact ⟨written none, fun writing => absurd rfl writing⟩
  case addRecord orders key value =>
    simp only [Bool.and_eq_true, Bool.not_eq_true', MemoryObjectStore.containsRecord_eq] at guarded
    have absent := of_decide_eq_false guarded.2
    rcases addRecord_spec engine orders key value state consistent.toWellFormed rfl rfl with
      ⟨⟨transaction, frame⟩, _⟩
    refine ⟨addRecord_consistent orders key value consistent absent met, ?_⟩
    rw [frame.writeTransaction, transaction]
    exact maintained.together
  case deleteRecord orders key =>
    exact maintained.deleteRecord orders key
  case deleteRange orders range =>
    exact deleteRange_invariant (·.Maintained engine self)
      (fun _ key holds => holds.deleteRecord orders key) range maintained
  case clear orders =>
    have writing : state.store.writeTransaction ≠ none := by
      rw [of_decide_eq_true guarded]
      exact Option.some_ne_none _
    refine ⟨clear_consistent orders self consistent (maintained.together writing) met, ?_⟩
    intro _ ref _
    rcases (clear_spec orders self state consistent.toWellFormed rfl).2.2.2.2 with ⟨_, transaction⟩
    rw [transaction]
    unfold objectStoreCleared
    split
    · assumption
    · rw [HashMap.keys_insert]
      exact Finset.mem_insert_self _ _
  case createIndex orders info =>
    simp only [Bool.and_eq_true, decide_eq_true_eq] at guarded
    rcases guarded with ⟨⟨_, freshName⟩, freshIdentifier⟩
    exact maintained.of_logs (createIndex_consistent orders self info consistent freshName freshIdentifier met)
      (congrArg logs (createIndex_withIndexesOf engine orders self info state) :)
  case deleteIndex indexIdentifier =>
    exact maintained.of_logs (deleteIndex_consistent self indexIdentifier consistent)
      (congrArg logs (deleteIndex_withIndexesOf self indexIdentifier state) :)

end Maintained

def opened (info : IDBObjectStoreInfo) (transaction : MemoryBackingStoreTransaction K) :
    StoreWrite K :=
  ⟨transaction, MemoryObjectStore.create info, []⟩

theorem maintained_run (engine : ScriptEngine K Object) (self : StoreRef) (info : IDBObjectStoreInfo)
    (transaction : MemoryBackingStoreTransaction K) (events : List (StoreEvent K)) {final : StoreWrite K}
    (met : StepsMeet (StoreWrite.step engine self) (StoreWrite.Maintains engine self)
      (.opened info transaction) events)
    (ran : run (StoreWrite.step engine self) (.opened info transaction) events = some final) :
    final.Maintained engine self := by
  have start : (opened info transaction).Maintained engine self :=
    ⟨MemoryObjectStore.create_consistent engine info, fun written => absurd rfl written⟩
  exact run_invariant_of_meets (fun _ _ _ maintained => maintained.step) events start met ran

end StoreWrite

/-- Every registered index holds exactly the pairs that the stored records yield, over every such run
    on canonical keys. -/
theorem index_consistency (engine : ScriptEngine CanonicalKey Object) (self : StoreRef)
    (info : IDBObjectStoreInfo) (transaction : MemoryBackingStoreTransaction CanonicalKey)
    (events : List (StoreEvent CanonicalKey)) (final : StoreWrite CanonicalKey)
    (met : StepsMeet (StoreWrite.step engine self) (StoreWrite.Maintains engine self)
      (.opened info transaction) events)
    (ran : run (StoreWrite.step engine self) (.opened info transaction) events = some final) :
    final.store.Consistent engine :=
  (maintained_run engine self info transaction events met ran).consistent

/-- The key of a value for the index with identifier `n` is the `n`th byte of the value. -/
def byteEngine : ScriptEngine CanonicalKey (List UInt8) where
  deserialize data := .other data
  createKeyPathArray info
    | .other data => (data[info.identifier.toNat - 1]?).toList.map (IDBKeyOrder.setNumberValue ·.toUInt64)
    | _ => []
  injectIDBKeyIntoScriptValue _ value _ := some value
  serialize
    | .other data => some data
    | _ => none

def nameRank (name : WTFString) : List Nat :=
  match name with
  | none => []
  | some units => 0 :: units.map UInt16.toNat

theorem nameRank_injective : Function.Injective nameRank := by
  intro first second same
  cases first with
  | none =>
    cases second with
    | none => rfl
    | some units => cases same
  | some units =>
    cases second with
    | none => cases same
    | some others =>
      have equal := (cons.inj same).2
      have injective : Function.Injective UInt16.toNat := fun _ _ => UInt16.toNat_inj.mp
      rw [map_injective_iff.mpr injective equal]

def ascendingOrders : IterationOrders CanonicalKey where
  identifiers := .ascending UInt64.toNat IterationOrder.toNat_injective
  names := .ascending nameRank nameRank_injective
  keys := .ascending id Function.injective_id

def emptyDatabase : IDBDatabaseInfo := ⟨none, 1, 0, ∅⟩

def upgrade : IDBTransactionInfo := ⟨⟨1, 1⟩, .versionchange, []⟩

def plainStore : IDBObjectStoreInfo := ⟨1, some [115], none, false, 0, ∅⟩

def indexInfo (identifier : UInt64) (unique : Bool) : IDBIndexInfo :=
  ⟨identifier, 1, some [identifier.toUInt16], .name none, unique, false⟩

def openedStore : StoreWrite CanonicalKey := .opened plainStore (.create upgrade emptyDatabase)

def StoreWrite.maintainsCheck (self : StoreRef) (state : StoreWrite CanonicalKey) :
    StoreEvent CanonicalKey → Bool
  | .addRecord orders _ _ => (state.store.namedIndexes orders).length ≤ 1
  | .clear _ => self ∉ state.transaction.clearedKeyValueMaps.keys
  | .createIndex orders _ => (orders.keys.visit state.store.records.keys).isEmpty
  | _ => true

theorem StoreWrite.maintainsCheck_sound (self : StoreRef) (state : StoreWrite CanonicalKey)
    (event : StoreEvent CanonicalKey) (checked : state.maintainsCheck self event = true) :
    state.Maintains byteEngine self event := by
  cases event with
  | addRecord orders key value =>
    have short : (state.store.namedIndexes orders).length ≤ 1 := of_decide_eq_true checked
    intro before failing after split _ _ ref member
    rw [split] at short
    have earlier := length_pos_of_mem member
    simp only [length_append, length_cons] at short
    omega
  | clear orders =>
    intro recorded
    exact absurd recorded (of_decide_eq_true checked)
  | createIndex orders info =>
    intro before key after split
    rw [isEmpty_iff.mp checked] at split
    cases before <;> cases split
  | beginTransaction | commit | deleteRecord | deleteRange | deleteIndex => exact trivial

def refusedByOnlyIndex : List (StoreEvent CanonicalKey) :=
  [.beginTransaction upgrade emptyDatabase, .createIndex ascendingOrders (indexInfo 1 true),
    .addRecord ascendingOrders 1 (some [7]), .addRecord ascendingOrders 2 (some [7]),
    .addRecord ascendingOrders 3 (some [8]), .deleteRecord ascendingOrders 1]

theorem index_consistency_refused_record :
    ∃ final, run (StoreWrite.step byteEngine 0) openedStore refusedByOnlyIndex = some final ∧
      final.store.records.keys = {3} ∧ final.store.Consistent byteEngine := by
  have reaches : ∃ final, run (step byteEngine 0) openedStore refusedByOnlyIndex = some final ∧
      final.store.records.keys = {3} := reaches_of_check (by decide +kernel)
  rcases reaches with ⟨final, reached, keys⟩
  have met : StepsMeet (step byteEngine 0) (StoreWrite.Maintains byteEngine 0) openedStore
      refusedByOnlyIndex :=
    stepsMeet_of_check (maintainsCheck_sound 0) _ _ (by decide +kernel)
  exact ⟨final, reached, keys, index_consistency byteEngine 0 plainStore
    (.create upgrade emptyDatabase) refusedByOnlyIndex final met reached⟩

def indexedAfterNull : List (StoreEvent CanonicalKey) :=
  [.beginTransaction upgrade emptyDatabase, .addRecord ascendingOrders 1 none,
    .addRecord ascendingOrders 2 (some [7]), .createIndex ascendingOrders (indexInfo 1 false)]

/-- The record with an undefined value ends the population of the index, which misses the other one. -/
theorem index_misses_record_after_null :
    ∃ final, run (StoreWrite.step byteEngine 0) openedStore indexedAfterNull = some final ∧
      ¬ final.store.Consistent byteEngine := by
  have reaches : ∃ final, run (step byteEngine 0) openedStore indexedAfterNull = some final ∧
      final.store.indexesByName.lookup (some [1]) = some 0 ∧
      (final.store.indexes 0).info = indexInfo 1 false ∧
      (final.store.indexes 0).records.isNone = true ∧ final.store.records.lookup 2 = some (some [7]) :=
    reaches_of_check (by decide +kernel)
  rcases reaches with ⟨final, reached, named, info, empty, stored⟩
  refine ⟨final, reached, ?_⟩
  intro consistent
  have filed : (7 : CanonicalKey) ∈ byteEngine.filedKeysFor (final.store.indexes 0).info (some [7]) := by
    rw [info]
    decide +kernel
  rcases (consistent.holds 0 ⟨_, named⟩ 7 2).mpr ⟨some [7], stored, filed⟩ with ⟨records, found, _⟩
  rw [found] at empty
  cases empty

end Odyssey.IndexedDB
