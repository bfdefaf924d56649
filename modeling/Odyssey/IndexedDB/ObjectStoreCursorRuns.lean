import Odyssey.IndexedDB.IndexConsistencyRuns
import Odyssey.IndexedDB.ObjectStoreCursorLaw
import Odyssey.IndexedDB.RecordFrames

namespace Odyssey.IndexedDB

open Containers Systems Option Finset MemoryObjectStoreCursor

variable {K Object : Type} [IDBKeyOrder K]

namespace StoreWrite

structure Unseen (after before : StoreWrite K) : Prop where
  keyValueStore : after.store.keyValueStore = before.store.keyValueStore
  orderedKeys : after.store.orderedKeys = before.store.orderedKeys
  notices : ∀ cursor : MemoryObjectStoreCursor K,
    after.notices.foldl .notify cursor = before.notices.foldl .notify cursor

theorem notify_index (ref : IndexRef) (notices : List (IndexNotice K)) (cursor : MemoryObjectStoreCursor K) :
    (notices.map (StoreNotice.index ref)).foldl .notify cursor = cursor := by
  induction notices with
  | nil => rfl
  | cons notice notices ih => exact ih

theorem unseen_steps : IndexSteps (Unseen (K := K)) where
  refl := fun _ => ⟨rfl, rfl, fun _ => rfl⟩
  trans := fun _ _ _ left right => ⟨left.keyValueStore.trans right.keyValueStore,
    left.orderedKeys.trans right.orderedKeys,
    fun cursor => (left.notices cursor).trans (right.notices cursor)⟩
  setIndex := by
    intro state ref index notices _
    refine ⟨rfl, rfl, ?_⟩
    intro cursor
    rw [List.foldl_append, notify_index]

theorem clearIndex_unseen (self : StoreRef) (state : StoreWrite K) (ref : IndexRef) :
    Unseen (clearIndex self state ref) state := by
  rw [clearIndex_eq]
  refine ⟨rfl, rfl, ?_⟩
  intro cursor
  rw [List.foldl_append]
  rfl

theorem unseen_of_indexes {after before : StoreWrite K} (same : withIndexesOf before after = before) :
    Unseen after before where
  keyValueStore := (congrArg (·.store.keyValueStore) same :)
  orderedKeys := (congrArg (·.store.orderedKeys) same :)
  notices := fun cursor => (congrArg (·.notices.foldl .notify cursor) same :)

end StoreWrite

namespace MemoryObjectStoreCursor

variable {before after : MemoryObjectStore K} {cursor : MemoryObjectStoreCursor K}

theorem Follows.of_keys (follows : cursor.Follows before)
    (keys : after.orderedKeys.getD ∅ = before.orderedKeys.getD ∅) : cursor.Follows after :=
  ⟨follows.toRanged, follows.placed, keys.symm ▸ follows.stored⟩

theorem Follows.of_iterator (follows : cursor.Follows before) {iterator : Option K}
    (seated : ∀ key, iterator = some key → ∀ position, cursor.currentPositionKey = some position →
      key = position ∧ key ∈ after.orderedKeys.getD ∅) :
    ({ cursor with iterator := iterator } : MemoryObjectStoreCursor K).Follows after := by
  have ranged : ({ cursor with iterator := iterator } : MemoryObjectStoreCursor K).Ranged :=
    ((Moved.refl cursor).withIterator rfl iterator).ranged follows.toRanged
  refine ⟨ranged, ?_, ?_⟩
  · intro position current
    have placed := follows.placed position current
    exact ⟨ranged, current, placed.checked, placed.inside, fun key same =>
      (seated key same position current).1⟩
  · intro position current key same
    exact (seated key same position current).2

theorem Follows.cleared (after : MemoryObjectStore K) (follows : cursor.Follows before) :
    (cursor.notify .cleared).Follows after :=
  follows.of_iterator nofun

theorem Follows.keyDeleted (follows : cursor.Follows before) {key : K}
    (keys : after.orderedKeys.getD ∅ = (before.orderedKeys.getD ∅).erase key) :
    (cursor.notify (.keyDeleted key)).Follows after := by
  rw [notify]
  by_cases other : cursor.currentPositionKey ≠ some key
  · rw [if_pos other]
    apply follows.of_iterator
    intro found same position current
    have place := (follows.placed position current).seated found same
    refine ⟨place, ?_⟩
    rw [keys]
    apply mem_erase.mpr
    refine ⟨?_, follows.stored position current found same⟩
    intro deleted
    exact other (by rw [current, ← place, deleted])
  · rw [if_neg other]
    exact follows.of_iterator nofun

theorem Follows.keyAdded (follows : cursor.Follows before) {key : K}
    (keys : after.orderedKeys.getD ∅ = insert key (before.orderedKeys.getD ∅)) :
    (cursor.notify (.keyAdded key)).Follows after := by
  have unmoved : cursor.Follows after := by
    apply follows.of_iterator
    intro found same position current
    refine ⟨(follows.placed position current).seated found same, ?_⟩
    rw [keys]
    exact mem_insert_of_mem (follows.stored position current found same)
  rw [notify]
  by_cases present : cursor.iterator.isSome = true
  · rw [if_pos present]
    exact unmoved
  · rw [if_neg present]
    by_cases here : some key = cursor.currentPositionKey
    · rw [if_pos here]
      apply follows.of_iterator
      intro found same position current
      cases same
      refine ⟨Option.some.inj (here.trans current), ?_⟩
      rw [keys]
      exact mem_insert_self key _
    · rw [if_neg here]
      exact unmoved

end MemoryObjectStoreCursor

namespace StoreWrite

/-- The two tables of the records agree, all keys are valid, and a cursor that is told the notices
    follows the object store. -/
structure Watched (cursor : MemoryObjectStoreCursor K) (state : StoreWrite K) : Prop where
  tables : state.store.orderedKeys = state.store.keyValueStore.map (·.keys)
  valid : ∀ key ∈ state.store.orderedKeys.getD ∅, IDBKeyOrder.isValid key = true
  follows : (state.notices.foldl .notify cursor).Follows state.store

variable {cursor : MemoryObjectStoreCursor K} {state : StoreWrite K}

theorem Watched.unseen {after before : StoreWrite K} (watched : before.Watched cursor)
    (unseen : Unseen after before) : after.Watched cursor := by
  refine ⟨?_, ?_, ?_⟩
  · rw [unseen.orderedKeys, unseen.keyValueStore]
    exact watched.tables
  · rw [unseen.orderedKeys]
    exact watched.valid
  · rw [unseen.notices cursor]
    apply watched.follows.of_keys
    rw [unseen.orderedKeys]

theorem Unseen.announce {after before : StoreWrite K} (unseen : Unseen after before) (notice : StoreNotice K) :
    Unseen { after with notices := after.notices ++ [notice] }
      { before with notices := before.notices ++ [notice] } := by
  refine ⟨unseen.keyValueStore, unseen.orderedKeys, ?_⟩
  intro cursor
  rw [List.foldl_append, List.foldl_append, unseen.notices]

section Watched

variable (watched : state.Watched cursor)
include watched

theorem Watched.orderedKeys_eq : state.store.orderedKeys.getD ∅ = state.store.records.keys := by
  rw [watched.tables, MemoryObjectStore.records]
  cases state.store.keyValueStore <;> rfl

theorem Watched.deleteRecord (orders : IterationOrders K) (self : StoreRef) (key : K) :
    (deleteRecord orders self key state).Watched cursor := by
  rw [deleteRecord_eq]
  split
  · have unseen : Unseen (updateIndexesForDeleteRecord orders key (withoutRecord self key state))
        (withoutRecord self key state) :=
      unseen_steps.updateIndexes (fun index => index.removeEntriesWithValueKey_info orders.keys key) _ _
    have erased : (state.store.orderedKeys.map (·.erase key)).getD ∅ = (state.store.orderedKeys.getD ∅).erase key := by
      cases state.store.orderedKeys <;> simp
    refine Watched.unseen ⟨?_, ?_, ?_⟩ (unseen.announce (.keyDeleted key))
    · simp [withoutRecord, watched.tables, Function.comp_def]
    · show ∀ other ∈ (state.store.orderedKeys.map (·.erase key)).getD ∅, _
      rw [erased]
      exact fun other member => watched.valid other (mem_of_mem_erase member)
    · rw [List.foldl_append]
      exact watched.follows.keyDeleted erased
  · exact watched.unseen ⟨rfl, rfl, fun _ => rfl⟩

theorem Watched.deleteRange (orders : IterationOrders K) (self : StoreRef) (range : IDBKeyRangeData K) :
    (deleteRange orders self range state).Watched cursor :=
  deleteRange_invariant (·.Watched cursor) (fun _ key watched => watched.deleteRecord orders self key) range watched

theorem Watched.addRecord (engine : ScriptEngine K Object) (orders : IterationOrders K) {key : K}
    (value : ThreadSafeDataBuffer) (checked : IDBKeyOrder.isValid key = true)
    (fresh : state.store.containsRecord key = false) : (addRecord engine orders key value state).2.Watched cursor := by
  have ordered := watched.orderedKeys_eq
  have absent := of_decide_eq_false (fresh ▸ (state.store.containsRecord_eq key).symm)
  have valid := watched.valid
  rw [ordered] at valid
  rw [addRecord_eq engine orders key value state watched.tables]
  have put := unseen_steps.updateIndexesForPutRecord engine orders key value (withRecord key value state)
  rcases result : updateIndexesForPutRecord engine orders key value (withRecord key value state) with
    ⟨error, after⟩
  have unseen : Unseen after (withRecord key value state) := by
    rw [result] at put
    exact put
  cases error with
  | none =>
    refine Watched.unseen ⟨rfl, ?_, ?_⟩ (unseen.announce (.keyAdded key))
    · show ∀ other ∈ (state.store.records.insert key value).keys, _
      rw [HashMap.keys_insert]
      intro other member
      rcases mem_insert.mp member with same | member
      · exact same ▸ checked
      · exact valid other member
    · rw [List.foldl_append]
      apply watched.follows.keyAdded
      rw [ordered]
      exact HashMap.keys_insert ..
  | some error =>
    have keys : after.store.orderedKeys = some (insert key state.store.records.keys) := by
      rw [unseen.orderedKeys, withRecord, HashMap.keys_insert]
    have map : after.store.keyValueStore = some (state.store.records.insert key value) := unseen.keyValueStore
    have kept : (insert key state.store.records.keys).erase key = state.store.records.keys := erase_insert absent
    refine ⟨?_, ?_, ?_⟩
    · show after.store.orderedKeys.map (·.erase key) = (after.store.keyValueStore.map (·.erase key)).map (·.keys)
      rw [keys, map, map_some, map_some, map_some, Finmap.keys_erase, HashMap.keys_insert]
    · show ∀ other ∈ (after.store.orderedKeys.map (·.erase key)).getD ∅, _
      rw [keys, map_some, kept]
      exact valid
    · rw [unseen.notices cursor]
      apply watched.follows.of_keys
      show (after.store.orderedKeys.map (·.erase key)).getD ∅ = _
      rw [keys, map_some, getD_some, kept, ordered]

theorem Watched.clear (orders : IterationOrders K) (self : StoreRef) : (clear orders self state).Watched cursor := by
  simp only [StoreWrite.clear]
  rcases state.transaction.objectStoreCleared self state.store.keyValueStore state.store.orderedKeys with
    ⟨moved, transaction⟩
  refine Watched.unseen ?_ ((unseen_steps.foldl (clearIndex_unseen self) _ _).announce .cleared)
  have follows : ∀ store, ((state.notices ++ [StoreNotice.cleared]).foldl notify cursor).Follows store := by
    intro store
    rw [List.foldl_append]
    exact watched.follows.cleared store
  cases moved with
  | true => exact ⟨rfl, fun key member => absurd member (notMem_empty key), follows _⟩
  | false => exact ⟨watched.tables, watched.valid, follows _⟩

end Watched

def AddsValidKey : StoreEvent K → Prop
  | .addRecord _ key _ => IDBKeyOrder.isValid key = true
  | _ => True

theorem Watched.step {next : StoreWrite K} (watched : state.Watched cursor) (engine : ScriptEngine K Object)
    {address : StoreRef} {event : StoreEvent K} (checked : AddsValidKey event)
    (stepped : state.step engine address event = some next) : next.Watched cursor := by
  cases event
  all_goals obtain ⟨guarded, ⟨⟩⟩ := ite_none_right_eq_some.mp stepped
  case beginTransaction | commit => exact watched.unseen ⟨rfl, rfl, fun _ => rfl⟩
  case addRecord orders key value =>
    simp only [Bool.and_eq_true, Bool.not_eq_true'] at guarded
    exact watched.addRecord engine orders value checked guarded.2
  case deleteRecord orders key => exact watched.deleteRecord orders address key
  case deleteRange orders range => exact watched.deleteRange orders address range
  case clear orders => exact watched.clear orders address
  case createIndex orders info =>
    exact watched.unseen (unseen_of_indexes (createIndex_withIndexesOf engine orders address info state))
  case deleteIndex indexIdentifier =>
    exact watched.unseen (unseen_of_indexes (deleteIndex_withIndexesOf address indexIdentifier state))

end StoreWrite

namespace MemoryObjectStoreCursor

theorem opened_follows {store : MemoryObjectStore K} {info : IDBCursorInfo K} (range : info.range.Valid)
    (valid : ∀ key ∈ store.orderedKeys.getD ∅, IDBKeyOrder.isValid key = true) :
    (opened store info).1.Follows store := by
  have start : (⟨info, info.range, none, none⟩ : MemoryObjectStoreCursor K).Ranged :=
    ⟨range, fun _ => ⟨rfl, rfl⟩, fun _ => ⟨rfl, rfl⟩⟩
  unfold opened
  cases ordered : store.orderedKeys with
  | none => exact (currentData_spec start valid nofun).2
  | some set =>
    have moved := setFirst_moved set ⟨info, info.range, none, none⟩
    refine (currentData_spec (moved.ranged start) valid ?_).2
    intro key found
    rw [moved.info, ordered]
    apply (mem_keysInRange range).mpr
    rw [setFirstInRemainingRange_iterator] at found
    cases forward : info.isDirectionForward with
    | true =>
      simp only [forward, setForwardIterator_eq] at found
      exact mem_filter.mp (least_eq_some.mp found).1
    | false =>
      simp only [forward, setReverseIterator_eq set range] at found
      exact mem_filter.mp (greatest_eq_some.mp found).1

def admits (cursor : MemoryObjectStoreCursor K) (key : Option K) : Bool :=
  match cursor.currentPositionKey with
  | none => false
  | some position =>
    key.all (fun target => IDBKeyOrder.isValid target && decide (cursor.info.Beyond position target))

theorem admits_iff {cursor : MemoryObjectStoreCursor K} {key : Option K} : cursor.admits key = true ↔
      ∃ position, cursor.currentPositionKey = some position ∧ Admitted cursor.info position key := by
  unfold admits Admitted
  cases cursor.currentPositionKey with
  | none => simp
  | some position => cases key <;> simp

end MemoryObjectStoreCursor

structure CursorState (K : Type) [IDBKeyOrder K] where
  write : StoreWrite K
  cursor : MemoryObjectStoreCursor K

inductive CursorEvent (K : Type) where
  | store (event : StoreEvent K)
  | openCursor (info : IDBCursorInfo K)
  | iterate (key : Option K) (count : Nat)

namespace CursorState

/-- The cursor is told the notices of each operation. An iteration that the client refuses changes
    nothing; one that follows an absent iterator has no next state. -/
def step (engine : ScriptEngine K Object) (self : StoreRef) (state : CursorState K) :
    CursorEvent K → Option (CursorState K)
  | .store event =>
    (StoreWrite.step engine self { state.write with notices := [] } event).map
      (fun write => ⟨write, write.notices.foldl .notify state.cursor⟩)
  | .openCursor info => some { state with cursor := (MemoryObjectStoreCursor.opened state.write.store info).1 }
  | .iterate key count =>
    if state.cursor.admits key then
      (state.cursor.iterate state.write.store key count).map (fun result => { state with cursor := result.1 })
    else some state

def opened (info : IDBObjectStoreInfo) (transaction : MemoryBackingStoreTransaction K)
    (cursorInfo : IDBCursorInfo K) : CursorState K :=
  ⟨.opened info transaction, (MemoryObjectStoreCursor.opened (.create info) cursorInfo).1⟩

def ValidKeys (_ : CursorState K) : CursorEvent K → Prop
  | .store event => StoreWrite.AddsValidKey event
  | .openCursor info => info.range.Valid
  | .iterate _ _ => True

def Watched (state : CursorState K) : Prop :=
  StoreWrite.Watched state.cursor { state.write with notices := [] }

theorem Watched.step {engine : ScriptEngine K Object} {address : StoreRef} {state next : CursorState K}
    {event : CursorEvent K} (watched : state.Watched) (checked : state.ValidKeys event)
    (stepped : state.step engine address event = some next) : next.Watched := by
  cases event with
  | store event =>
    rcases map_eq_some_iff.mp stepped with ⟨write, written, rfl⟩
    have after := StoreWrite.Watched.step watched engine checked written
    exact ⟨after.tables, after.valid, after.follows⟩
  | openCursor info =>
    cases stepped
    exact ⟨watched.tables, watched.valid, opened_follows checked watched.valid⟩
  | iterate key count =>
    rw [CursorState.step] at stepped
    by_cases admitted : state.cursor.admits key = true
    · rw [if_pos admitted] at stepped
      rcases map_eq_some_iff.mp stepped with ⟨result, iterated, rfl⟩
      rcases admits_iff.mp admitted with ⟨position, current, beyond⟩
      have follows : state.cursor.Follows state.write.store := watched.follows
      have free : ¬ MemoryObjectStoreCursor.Stranded state.write.store state.cursor position key := by
        intro stranded
        rw [stranded_iterate follows current stranded count] at iterated
        cases iterated
      rcases iterate_spec follows watched.valid current beyond count free with
        ⟨after, data, same, _, following⟩
      rw [iterated] at same
      cases same
      exact ⟨watched.tables, watched.valid, following⟩
    · rw [if_neg admitted] at stepped
      cases stepped
      exact watched

end CursorState

open MemoryObjectStoreCursor in
/-- An iteration that the client may ask for goes to the key it has to land on exactly if the cursor is not
    stranded. -/
theorem objectStoreCursor_iterates_iff (engine : ScriptEngine K Object) (self : StoreRef)
    (info : IDBObjectStoreInfo) (transaction : MemoryBackingStoreTransaction K)
    (cursorInfo : IDBCursorInfo K) (range : cursorInfo.range.Valid) (events : List (CursorEvent K))
    (state : CursorState K)
    (met : StepsMeet (CursorState.step engine self) CursorState.ValidKeys
      (.opened info transaction cursorInfo) events)
    (ran : run (CursorState.step engine self) (.opened info transaction cursorInfo) events = some state)
    (position : K) (current : state.cursor.currentPositionKey = some position) (key : Option K)
    (admitted : Admitted state.cursor.info position key) (count : Nat) :
    (∃ after result, state.cursor.iterate state.write.store key count = some (after, result) ∧
      ∀ found, result.map (·.keyData) = some found ↔ Lands state.cursor.info
        (keysInRange state.cursor.info state.write.store.records.keys) position key count found) ↔
      ¬ Stranded state.write.store state.cursor position key := by
  have valid : ∀ key ∈ (MemoryObjectStore.create info : MemoryObjectStore K).orderedKeys.getD ∅,
      IDBKeyOrder.isValid key = true := fun key member => absurd member (notMem_empty key)
  have watched : state.Watched := run_invariant_of_meets (fun _ _ _ => CursorState.Watched.step) events
    ⟨rfl, valid, opened_follows range valid⟩ met ran
  have ordered : state.write.store.orderedKeys.getD ∅ = state.write.store.records.keys :=
    watched.orderedKeys_eq
  have follows : state.cursor.Follows state.write.store := watched.follows
  constructor
  · intro iterated stranded
    rcases iterated with ⟨after, result, same, _⟩
    rw [stranded_iterate follows current stranded count] at same
    cases same
  · intro free
    rcases iterate_spec follows watched.valid current admitted count free with
      ⟨after, result, same, lands, _⟩
    refine ⟨after, result, same, ?_⟩
    intro found
    rw [lands, ← ordered]
    exact landing_eq_some

def descending : IDBCursorInfo CanonicalKey := ⟨⟨false, none, none, false, false⟩, .Prev, .KeyOnly⟩

def openedCursor : CursorState CanonicalKey :=
  .opened plainStore (.create upgrade emptyDatabase) descending

def CursorState.validKeysCheck (_ : CursorState K) : CursorEvent K → Bool
  | .store (.addRecord _ key _) => IDBKeyOrder.isValid key
  | .openCursor info => info.range.lowerKey.all IDBKeyOrder.isValid && info.range.upperKey.all IDBKeyOrder.isValid
  | _ => true

theorem CursorState.validKeys_of_check (state : CursorState K) (event : CursorEvent K)
    (checked : state.validKeysCheck event = true) : state.ValidKeys event := by
  cases event with
  | store event =>
    cases event with
    | addRecord => exact checked
    | beginTransaction | commit | deleteRecord | deleteRange | clear | createIndex | deleteIndex =>
      exact trivial
  | openCursor info =>
    simp only [validKeysCheck, Bool.and_eq_true, Option.all_eq_true] at checked
    exact ⟨checked.1, checked.2⟩
  | iterate key count => exact trivial

def lastDeleted : List (CursorEvent CanonicalKey) :=
  [.store (.beginTransaction upgrade emptyDatabase), .store (.addRecord ascendingOrders 1 (some [7])),
    .store (.addRecord ascendingOrders 2 (some [7])), .store (.addRecord ascendingOrders 3 (some [7])),
    .openCursor descending, .store (.deleteRecord ascendingOrders 3)]

theorem objectStoreCursor_iterates_past_deleted :
    ∃ state, run (CursorState.step byteEngine 0) openedCursor lastDeleted = some state ∧
      state.cursor.iterator = none ∧ state.write.store.records.keys = {1, 2} ∧
      ∃ after result, state.cursor.iterate state.write.store none 1 = some (after, result) ∧
        ∀ found, result.map (·.keyData) = some found ↔ MemoryObjectStoreCursor.Lands state.cursor.info
          (MemoryObjectStoreCursor.keysInRange state.cursor.info state.write.store.records.keys) 3 none 1
          found := by
  have reaches : ∃ state, run (CursorState.step byteEngine 0) openedCursor lastDeleted = some state ∧
      state.cursor.iterator = none ∧ state.write.store.records.keys = {1, 2} ∧
      state.cursor.currentPositionKey = some 3 ∧ state.write.store.orderedKeys = some {1, 2} ∧
      1 ∈ keysInRange state.cursor.info {1, 2} :=
    reaches_of_check (by decide +kernel)
  rcases reaches with ⟨state, reached, absent, keys, position, ordered, inRange⟩
  refine ⟨state, reached, absent, keys, ?_⟩
  apply (objectStoreCursor_iterates_iff byteEngine 0 plainStore (.create upgrade emptyDatabase) descending
    ⟨nofun, nofun⟩ lastDeleted state (stepsMeet_of_check CursorState.validKeys_of_check _ _ (by decide +kernel)) reached
    3 position none nofun 1).mpr
  intro stranded
  rcases stranded with ⟨_, set, stored, _, above⟩
  rw [ordered] at stored
  cases stored
  exact absurd (above 1 inRange) (by decide +kernel)

def onlyDeleted : List (CursorEvent CanonicalKey) :=
  [.store (.beginTransaction upgrade emptyDatabase), .store (.addRecord ascendingOrders 1 (some [7])),
    .openCursor descending, .store (.deleteRecord ascendingOrders 1)]

/-- The cursor has lost the only record: the reverse increment follows the absent iterator. -/
theorem reverse_objectStoreCursor_follows_absent :
    ∃ state, run (CursorState.step byteEngine 0) openedCursor onlyDeleted = some state ∧
      state.cursor.currentPositionKey = some 1 ∧ state.cursor.info.isDirectionForward = false ∧
      state.cursor.iterate state.write.store none 1 = none := by
  have reaches : ∃ state, run (CursorState.step byteEngine 0) openedCursor onlyDeleted = some state ∧
      state.cursor.currentPositionKey = some 1 ∧ state.cursor.info.isDirectionForward = false ∧
      (state.cursor.iterate state.write.store none 1).isNone = true := reaches_of_check (by decide +kernel)
  rcases reaches with ⟨state, reached, position, reverse, followed⟩
  exact ⟨state, reached, position, reverse, isNone_iff_eq_none.mp followed⟩

end Odyssey.IndexedDB
