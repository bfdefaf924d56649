import Odyssey.IndexedDB.IndexConsistencyRuns
import Odyssey.IndexedDB.MemoryIndexCursorLaw

namespace Odyssey.IndexedDB

open Containers Systems List Option MemoryIndexCursor

variable {K : Type} [IDBKeyOrder K]

namespace MemoryIndexCursor

open IndexValueStore PrimaryKeyIterator

theorem notify_fixed (cursor : MemoryIndexCursor K) (notice : IndexNotice K) :
    (cursor.notify notice).info = cursor.info ∧ (cursor.notify notice).currentKey = cursor.currentKey ∧
      (cursor.notify notice).currentPrimaryKey = cursor.currentPrimaryKey := by
  cases notice with
  | valueChanged indexKey primaryKey =>
    rw [notify]
    split <;> exact ⟨rfl, rfl, rfl⟩
  | recordsAllChanged | keyErased | primaryKeyErased | entryErased => exact ⟨rfl, rfl, rfl⟩

theorem notified_fixed (notices : List (IndexNotice K)) (cursor : MemoryIndexCursor K) :
    (notices.foldl notify cursor).info = cursor.info ∧ (notices.foldl notify cursor).currentKey = cursor.currentKey ∧
      (notices.foldl notify cursor).currentPrimaryKey = cursor.currentPrimaryKey := by
  induction notices generalizing cursor with
  | nil => exact ⟨rfl, rfl, rfl⟩
  | cons notice notices ih =>
    rcases notify_fixed cursor notice with ⟨info, key, primaryKey⟩
    rcases ih (cursor.notify notice) with ⟨infos, keys, primaryKeys⟩
    exact ⟨infos.trans info, keys.trans key, primaryKeys.trans primaryKey⟩

variable {cursor : MemoryIndexCursor K} {notices : List (IndexNotice K)} {position : K × K}
  {index : MemoryIndex K}

theorem notify_none (absent : cursor.currentIterator = none) (notice : IndexNotice K) :
    (cursor.notify notice).currentIterator = none := by
  cases notice with
  | valueChanged indexKey primaryKey =>
    rw [notify]
    split
    · exact absent
    · rfl
  | recordsAllChanged => rfl
  | keyErased | primaryKeyErased | entryErased => simp [notify, absent]

theorem notified_none (notices : List (IndexNotice K)) (absent : cursor.currentIterator = none) :
    (notices.foldl notify cursor).currentIterator = none := by
  induction notices generalizing cursor with
  | nil => exact absent
  | cons notice notices ih => exact ih (notify_none absent notice)

theorem notified_of_changed (key : cursor.currentKey = some position.1)
    (primaryKey : cursor.currentPrimaryKey = some position.2)
    (changed : .valueChanged position.1 position.2 ∈ notices) :
    (notices.foldl notify cursor).currentIterator = none := by
  induction notices generalizing cursor with
  | nil => cases changed
  | cons notice notices ih =>
    rcases notify_fixed cursor notice with ⟨_, sameKey, samePrimaryKey⟩
    rcases mem_cons.mp changed with same | later
    · apply notified_none notices
      rw [← same, notify, if_neg (by simp [key, primaryKey])]
    · exact ih (sameKey.trans key) (samePrimaryKey.trans primaryKey) later

def Spares (position : K × K) (notice : IndexNotice K) : Prop :=
  notice ≠ .keyErased position.1 ∧ notice ≠ .entryErased position.1 ∧
    notice ≠ .primaryKeyErased position.1 position.2

def StandsAt (unique : Bool) (position : K × K) (cursor : MemoryIndexCursor K) : Prop :=
  ∀ iterator, cursor.currentIterator = some iterator → Standing unique cursor.info position iterator

theorem StandsAt.notify {unique : Bool} (stands : cursor.StandsAt unique position) {notice : IndexNotice K}
    (spares : Spares position notice) : (cursor.notify notice).StandsAt unique position := by
  rcases spares with ⟨key, entry, primaryKey⟩
  cases notice with
  | recordsAllChanged => exact nofun
  | valueChanged indexKey primaryKey =>
    rw [MemoryIndexCursor.notify]
    split
    · exact stands
    · exact nofun
  | keyErased indexKey =>
    intro iterator current
    rcases map_eq_some_iff.mp current with ⟨held, before, rfl⟩
    have standing := stands held before
    refine ⟨standing.forward, standing.duplicity, standing.entry, ?_, standing.primaryKey, standing.forwardPrimaryKey⟩
    intro forward
    have apart : position.1 ≠ indexKey := fun same => key (same ▸ rfl)
    rw [standing.key forward, SetIterator.erase, if_neg apart]
  | primaryKeyErased indexKey erased =>
    intro iterator current
    rcases map_eq_some_iff.mp current with ⟨held, before, same⟩
    have standing := stands held before
    by_cases here : held.entry = indexKey
    · rw [if_pos here] at same
      subst same
      refine ⟨standing.forward, standing.duplicity, standing.entry, standing.key, ?_, ?_⟩
      · intro distinct
        rw [standing.primaryKey distinct]
        rfl
      · intro plain forward
        have apart : position.2 ≠ erased := by
          intro equal
          exact primaryKey (by rw [equal, ← standing.entry, here])
        rw [standing.forwardPrimaryKey plain forward, erase, SetIterator.erase, if_neg apart]
    · rw [if_neg here] at same
      subst same
      exact standing
  | entryErased indexKey =>
    intro iterator current
    rcases map_eq_some_iff.mp current with ⟨held, before, same⟩
    have standing := stands held before
    have apart : held.entry ≠ indexKey := by
      intro here
      exact entry (by rw [← here, standing.entry])
    rw [if_neg apart] at same
    subst same
    exact standing

theorem StandsAt.notified {unique : Bool} (stands : cursor.StandsAt unique position)
    (spared : ∀ notice ∈ notices, Spares position notice) :
    (notices.foldl MemoryIndexCursor.notify cursor).StandsAt unique position := by
  induction notices generalizing cursor with
  | nil => exact stands
  | cons notice notices ih =>
    exact ih (stands.notify (spared notice mem_cons_self))
      (fun later member => spared later (mem_cons_of_mem notice member))

theorem Follows.notified {before after : MemoryIndex K} (follows : cursor.Follows before)
    (valid : after.WellFormed) (info : after.info = before.info)
    (kept : ∀ position : K × K, before.Holds position.1 position.2 → .valueChanged position.1 position.2 ∈ notices ∨
      after.Holds position.1 position.2 ∧ ∀ notice ∈ notices, Spares position notice) :
    (notices.foldl notify cursor).Follows after := by
  rcases notified_fixed notices cursor with ⟨sameInfo, sameKey, samePrimaryKey⟩
  refine ⟨valid, ?_, ?_, ?_⟩
  · rw [sameInfo, sameKey]
    exact follows.inside
  · rw [sameKey, samePrimaryKey]
    exact follows.paired
  · rw [sameKey, samePrimaryKey, info]
    intro position key primaryKey iterator current
    cases held : cursor.currentIterator with
    | none =>
      rw [notified_none notices held] at current
      cases current
    | some old =>
      have holds := (follows.standing position key primaryKey old held).1
      rcases kept position holds with changed | ⟨still, spared⟩
      · rw [notified_of_changed key primaryKey changed] at current
        cases current
      · have stands : cursor.StandsAt before.info.unique position :=
          fun iterator current => (follows.standing position key primaryKey iterator current).2
        exact ⟨still, stands.notified spared iterator current⟩

theorem putIndexKey_spares (index : MemoryIndex K) (valueKey : K) (indexKey : IndexKey K)
    (position : K × K) : ∀ notice ∈ (index.putIndexKey valueKey indexKey).2.2, Spares position notice := by
  have created : ∀ notice ∈ (if index.records.isNone then [IndexNotice.recordsAllChanged] else
      ([] : List (IndexNotice K))), Spares position notice := by
    intro notice member
    split at member
    · rw [mem_singleton.mp member]
      simp [Spares]
    · cases member
  simp only [MemoryIndex.putIndexKey]
  split
  · split
    · exact created
    · exact forall_mem_append.mpr ⟨created, by simp [Spares]⟩
  · split
    · exact created
    · exact forall_mem_append.mpr ⟨created, by simp [Spares]⟩

theorem Follows.putIndexKey (follows : cursor.Follows index) (valueKey : K) (indexKey : IndexKey K) :
    ((index.putIndexKey valueKey indexKey).2.2.foldl notify cursor).Follows
      (index.putIndexKey valueKey indexKey).2.1 := by
  rcases MemoryIndex.putIndexKey_spec follows.wellFormed valueKey indexKey rfl with ⟨⟨valid, info⟩, cases⟩
  apply follows.notified valid info
  intro position holds
  refine Or.inr ⟨?_, putIndexKey_spares index valueKey indexKey position⟩
  rcases cases with ⟨_, _, _, same⟩ | ⟨_, _, added⟩
  · exact (same position.1 position.2).mpr holds
  · exact (added position.1 position.2).mpr (Or.inl holds)

theorem Follows.removeEntriesWithValueKey (follows : cursor.Follows index) (order : IterationOrder K) (valueKey : K) :
    ((index.removeEntriesWithValueKey order valueKey).2.foldl notify cursor).Follows
      (index.removeEntriesWithValueKey order valueKey).1 := by
  rcases MemoryIndex.removeEntriesWithValueKey_spec order follows.wellFormed valueKey with
    ⟨valid, info, remaining⟩
  apply follows.notified valid info
  intro position holds
  rcases holds with ⟨store, records, held⟩
  have notices : (index.removeEntriesWithValueKey order valueKey).2 =
      (store.removeEntriesWithValueKey order valueKey).2 := by
    rw [MemoryIndex.removeEntriesWithValueKey, records]
  rcases store.removeEntriesWithValueKey_notices order valueKey with ⟨announced, spared⟩
  rw [notices]
  by_cases removed : position.2 = valueKey
  · left
    rw [removed] at held ⊢
    exact announced position.1 held
  · right
    exact ⟨(remaining position.1 position.2).mpr ⟨⟨store, records, held⟩, removed⟩,
      fun notice member => spared notice member position.1 position.2 held removed⟩

theorem Follows.cleared {before after : MemoryIndex K} (follows : cursor.Follows before)
    (valid : after.WellFormed) : (cursor.notify .recordsAllChanged).Follows after :=
  ⟨valid, follows.inside, follows.paired, nofun⟩

theorem landed_follows (valid : index.WellFormed) {store : IndexValueStore K}
    (records : index.records = some store) (cursor : MemoryIndexCursor K) {record : Option (K × K)}
    (held : ∀ found, record = some found → store.Holds found.1 found.2) :
    (landed store cursor record).Follows index := by
  unfold landed
  cases found : record.filter (cursor.info.range.containsKey ·.1) with
  | none => exact ⟨valid, nofun, rfl, nofun⟩
  | some first =>
    rcases filter_eq_some_iff.mp found with ⟨same, contained⟩
    refine ⟨valid, ?_, rfl, ?_⟩
    · intro key current
      cases current
      exact contained
    · intro position key primaryKey iterator current
      have here : position = first := Prod.ext (some.inj key).symm (some.inj primaryKey).symm
      cases current
      rw [here, ← (valid store records).2]
      exact ⟨⟨store, records, held first same⟩, standing_iteratorFor store cursor.info first⟩

theorem firstRecord_holds {store : IndexValueStore K} {forward : Bool} {duplicity : CursorDuplicity}
    {key : Option K} {record : K × K} (found : key.bind (store.firstRecord forward duplicity) = some record) :
    store.Holds record.1 record.2 := by
  rcases bind_eq_some_iff.mp found with ⟨indexKey, _, first⟩
  rcases map_eq_some_iff.mp first with ⟨primaryKey, extreme, rfl⟩
  exact mem_primaryKeysOf.mp (firstKey_mem extreme)

theorem opened_follows (valid : index.WellFormed) {info : IDBCursorInfo K}
    (made : opened index info = some cursor) : cursor.Follows index := by
  unfold opened at made
  cases records : index.records with
  | none =>
    rw [records] at made
    cases made
    exact ⟨valid, nofun, rfl, nofun⟩
  | some store =>
    have storeValid := (valid store records).1
    rw [records] at made
    have settled : ∀ record : Option (K × K), (∀ found, record = some found → store.Holds found.1 found.2) →
        settle store ⟨info, none, none, none⟩
          (record.map (store.iteratorAt info.isDirectionForward (iteratorDuplicity info))) = some cursor →
        cursor.Follows index := by
      intro record held same
      cases (settle_eq storeValid ⟨info, none, none, none⟩ held).symm.trans same
      exact landed_follows valid records _ held
    unfold iteratorDuplicity at settled
    cases forward : info.isDirectionForward with
    | true =>
      simp only [forward, find_eq storeValid] at made settled
      exact settled _ (fun _ => firstRecord_holds) made
    | false =>
      simp only [forward, reverseFind_eq storeValid] at made settled
      exact settled _ (fun _ => firstRecord_holds) made

theorem seek_eq {store : IndexValueStore K} (valid : store.WellFormed) (cursor : MemoryIndexCursor K) (key : K)
    (primaryKey : Option K) : ∃ record, seek store cursor key primaryKey =
      some (record.map (iteratorFor store cursor.info)) ∧ ∀ found, record = some found → store.Holds found.1 found.2 := by
  unfold seek iteratorFor iteratorDuplicity
  cases cursor.info.isDirectionForward with
  | true =>
    cases primaryKey.filter IDBKeyOrder.isValid with
    | some primaryKey => exact ⟨_, findPrimaryKey_eq valid, fun _ arrives => (arrived_holds arrives).1⟩
    | none => exact ⟨_, find_eq valid (some key) false, fun _ => firstRecord_holds⟩
  | false =>
    cases primaryKey.filter IDBKeyOrder.isValid with
    | some primaryKey =>
      cases atMost : highestAtMost store.orderedKeys key with
      | none => exact ⟨none, reverseFindPrimaryKey_none atMost _ _, nofun⟩
      | some found =>
        exact ⟨_, reverseFindPrimaryKey_at valid atMost _, fun _ arrives => (arrived_holds arrives).1⟩
    | none => exact ⟨_, reverseFind_eq valid (some key) _ false, fun _ => firstRecord_holds⟩

/-- An iteration to a key follows no iterator, so it needs nothing of the cursor. -/
theorem iterateToKey_follows (valueForKey : K → ThreadSafeDataBuffer) (valid : index.WellFormed) (key : K)
    (primaryKey : Option K) (cursor : MemoryIndexCursor K) :
    ∃ after result, iterateToKey valueForKey index key primaryKey cursor = some (after, result) ∧
      after.Follows index := by
  unfold iterateToKey
  cases records : index.records with
  | none => exact ⟨_, _, rfl, valid, nofun, rfl, nofun⟩
  | some store =>
    rcases seek_eq (valid store records).1 cursor key primaryKey with ⟨record, sought, held⟩
    simp only [sought, bind_eq_bind, bind_some, settle_eq (valid store records).1 cursor held]
    exact ⟨_, _, rfl, landed_follows valid records cursor held⟩

theorem iterate_spec (valueForKey : K → ThreadSafeDataBuffer) (follows : cursor.Follows index)
    (key : cursor.currentKey = some position.1) (primaryKey : cursor.currentPrimaryKey = some position.2)
    (ready : ∀ store, index.records = some store → Ready store cursor position) {count : Nat} (single : count ≤ 1) :
    ∃ after result, iterate valueForKey index none none count cursor = some (after, result) ∧
      (∀ record, result.map (fun data => (data.keyData, data.primaryKeyData)) = some record ↔
        index.valueStore.Lands cursor.info position record) ∧ after.Follows index := by
  have inside := follows.inside position.1 key
  cases records : index.records with
  | none =>
    have empty : ∀ a b, ¬ index.Holds a b := by
      rintro _ _ ⟨_, found, _⟩
      rw [records] at found
      cases found
    have absent : cursor.currentIterator = none := by
      cases current : cursor.currentIterator with
      | none => rfl
      | some iterator => exact absurd (follows.standing position key primaryKey iterator current).1 (empty _ _)
    have stopped : iterate valueForKey index none none count cursor =
        some ({ cursor with currentKey := none, currentPrimaryKey := none }, none) := by
      show iterateByCount valueForKey index count cursor = _
      simp only [iterateByCount, absent, records]
    refine ⟨_, none, stopped, ?_, ⟨follows.wellFormed, nofun, rfl, nofun⟩⟩
    intro record
    refine ⟨nofun, ?_⟩
    intro lands
    exact absurd ((MemoryIndex.valueStore_holds index record.1 record.2).mp lands.1) (empty _ _)
  | some store =>
    have valid := (follows.wellFormed store records).1
    have same : index.valueStore = store := by rw [MemoryIndex.valueStore, records, getD_some]
    refine ⟨_, _, iterateByCount_eq valueForKey records follows key primaryKey (ready store records) single,
      ?_, landed_follows follows.wellFormed records cursor (fun found beyond => (recordBeyond_some valid beyond).1)⟩
    intro record
    rw [same, currentData_landed]
    exact landing_iff valid inside

end MemoryIndexCursor

structure IndexCursorState (K : Type) [IDBKeyOrder K] where
  index : MemoryIndex K
  cursor : MemoryIndexCursor K

/-- What happens to an index: records are added and deleted and its object store is cleared, by which
    the value store is moved away unless this transaction has cleared the index before. -/
inductive IndexCursorEvent (K : Type) where
  | put (valueKey : K) (indexKey : IndexKey K)
  | remove (order : IterationOrder K) (valueKey : K)
  | clear (moved : Bool)
  | openCursor (info : IDBCursorInfo K)
  | iterate (valueForKey : K → ThreadSafeDataBuffer) (key primaryKey : Option K) (count : Nat)

namespace IndexCursorState

variable (state : IndexCursorState K)

def step : IndexCursorEvent K → Option (IndexCursorState K)
  | .put valueKey indexKey =>
    let (_, index, notices) := state.index.putIndexKey valueKey indexKey
    some ⟨index, notices.foldl .notify state.cursor⟩
  | .remove order valueKey =>
    let (index, notices) := state.index.removeEntriesWithValueKey order valueKey
    some ⟨index, notices.foldl .notify state.cursor⟩
  | .clear moved =>
    some ⟨if moved then { state.index with records := none } else state.index,
      state.cursor.notify .recordsAllChanged⟩
  | .openCursor info =>
    (MemoryIndexCursor.opened state.index info).map (fun cursor => { state with cursor := cursor })
  | .iterate valueForKey key primaryKey count =>
    if state.cursor.currentKey.isNone then some state
    else (state.cursor.iterate valueForKey state.index key primaryKey count).map
      (fun result => { state with cursor := result.1 })

def opened (info : IDBIndexInfo) (cursorInfo : IDBCursorInfo K) : IndexCursorState K :=
  ⟨.create info, ⟨cursorInfo, none, none, none⟩⟩

def Ready (state : IndexCursorState K) : Prop :=
  ∀ store, state.index.records = some store → ∀ position : K × K,
    state.cursor.currentKey = some position.1 → state.cursor.currentPrimaryKey = some position.2 →
    MemoryIndexCursor.Ready store state.cursor position

def Meets : IndexCursorEvent K → Prop
  | .iterate _ key _ count => key.filter IDBKeyOrder.isValid = none → count ≤ 1 ∧ state.Ready
  | _ => True

theorem follows_step {state next : IndexCursorState K} {event : IndexCursorEvent K}
    (follows : state.cursor.Follows state.index) (met : state.Meets event)
    (stepped : state.step event = some next) : next.cursor.Follows next.index := by
  cases event with
  | put valueKey indexKey =>
    cases stepped
    exact follows.putIndexKey valueKey indexKey
  | remove order valueKey =>
    cases stepped
    exact follows.removeEntriesWithValueKey order valueKey
  | clear moved =>
    cases stepped
    apply follows.cleared
    cases moved with
    | true => exact nofun
    | false => exact follows.wellFormed
  | openCursor info =>
    rcases map_eq_some_iff.mp stepped with ⟨cursor, made, rfl⟩
    exact opened_follows follows.wellFormed made
  | iterate valueForKey target targetPrimaryKey count =>
    rw [step] at stepped
    cases key : state.cursor.currentKey with
    | none =>
      rw [key] at stepped
      cases stepped
      exact follows
    | some key' =>
      rw [key] at stepped
      rcases map_eq_some_iff.mp stepped with ⟨result, iterated, rfl⟩
      rw [MemoryIndexCursor.iterate] at iterated
      cases valid : target.filter IDBKeyOrder.isValid with
      | some target =>
        rcases iterateToKey_follows valueForKey follows.wellFormed target targetPrimaryKey state.cursor with
          ⟨after, data, same, following⟩
        rw [valid] at iterated
        cases iterated.symm.trans same
        exact following
      | none =>
        have paired := follows.paired
        rw [key] at paired
        rcases isSome_iff_exists.mp paired.symm with ⟨primaryKey, primary⟩
        rcases iterate_spec valueForKey follows key primary
          (fun store records => (met valid).2 store records (key', primaryKey) key primary) (met valid).1 with
          ⟨after, data, same, _, following⟩
        rw [valid] at iterated
        cases iterated.symm.trans same
        exact following

end IndexCursorState

theorem IndexCursorState.follows_run {info : IDBIndexInfo} {cursorInfo : IDBCursorInfo K}
    {events : List (IndexCursorEvent K)} {state : IndexCursorState K}
    (met : StepsMeet step Meets (opened info cursorInfo) events)
    (ran : run step (opened info cursorInfo) events = some state) : state.cursor.Follows state.index := by
  have start : (opened info cursorInfo).cursor.Follows (opened info cursorInfo).index := ⟨nofun, nofun, rfl, nofun⟩
  exact run_invariant_of_meets (fun _ _ _ => follows_step) events start met ran

theorem IndexCursorState.ready_of_plainForward {state : IndexCursorState K}
    (forward : state.cursor.info.direction = .Next)
    (plain : ∀ store, state.index.records = some store → store.unique = false) : state.Ready := by
  intro store records position _ _
  unfold MemoryIndexCursor.Ready
  cases state.cursor.currentIterator with
  | none =>
    simp only [MemoryIndexCursor.Skips, forward, plain store records]
    simp
  | some iterator =>
    intro reverse
    simp [IDBCursorInfo.isDirectionForward, forward] at reverse

open IndexCursorState in
/-- Over every history of an index, a cursor that is ready goes to the first record beyond its position
    in its order, and to its end where there is none. -/
theorem indexCursor_iterates_of_ready (info : IDBIndexInfo) (cursorInfo : IDBCursorInfo K)
    (events : List (IndexCursorEvent K)) (state : IndexCursorState K)
    (met : StepsMeet step Meets (opened info cursorInfo) events)
    (ran : run step (opened info cursorInfo) events = some state) (position : K × K)
    (key : state.cursor.currentKey = some position.1)
    (primaryKey : state.cursor.currentPrimaryKey = some position.2) (ready : state.Ready)
    (valueForKey : K → ThreadSafeDataBuffer) (count : Nat) (single : count ≤ 1) :
    ∃ after result, state.cursor.iterate valueForKey state.index none none count = some (after, result) ∧
      ∀ record, result.map (fun data => (data.keyData, data.primaryKeyData)) = some record ↔
        state.index.valueStore.Lands state.cursor.info position record := by
  have follows := follows_run met ran
  rcases iterate_spec valueForKey follows key primaryKey
    (fun store records => ready store records position key primaryKey) single with
    ⟨after, result, iterated, landed, _⟩
  exact ⟨after, result, iterated, landed⟩

def unboundedCursor (direction : CursorDirection) : IDBCursorInfo CanonicalKey :=
  ⟨⟨false, none, none, false, false⟩, direction, .KeyOnly⟩

def openedIndexCursor (direction : CursorDirection) : IndexCursorState CanonicalKey :=
  .opened (indexInfo 1 false) (unboundedCursor direction)

def secondOfThreeDeleted : List (IndexCursorEvent CanonicalKey) :=
  [.put 1 [5], .put 2 [5], .put 3 [5], .openCursor (unboundedCursor .Next), .iterate (fun _ => none) none none 1,
    .remove ascendingOrders.keys 2]

def IndexCursorState.meetsCheck (state : IndexCursorState CanonicalKey) : IndexCursorEvent CanonicalKey → Bool
  | .iterate _ _ _ count => decide (count ≤ 1) && decide (state.cursor.info.direction = .Next) &&
      state.index.records.all (! ·.unique)
  | _ => true

theorem IndexCursorState.meets_of_check (state : IndexCursorState CanonicalKey)
    (event : IndexCursorEvent CanonicalKey) (checked : state.meetsCheck event = true) : state.Meets event := by
  cases event with
  | iterate valueForKey key primaryKey count =>
    intro _
    simp only [meetsCheck, Bool.and_eq_true, decide_eq_true_eq] at checked
    refine ⟨checked.1.1, ready_of_plainForward checked.1.2 ?_⟩
    intro store records
    have plain := checked.2
    rw [records] at plain
    simpa using plain
  | put | remove | clear | openCursor => trivial

open IndexCursorState in
theorem indexCursor_iterates_past_deleted :
    ∃ state, run step (openedIndexCursor .Next) secondOfThreeDeleted = some state ∧
      state.cursor.currentIterator.isNone = true ∧
      ∃ after result, state.cursor.iterate (fun _ => none) state.index none none 1 = some (after, result) ∧
        ∀ record, result.map (fun data => (data.keyData, data.primaryKeyData)) = some record ↔
          state.index.valueStore.Lands state.cursor.info (5, 2) record := by
  have reaches : ∃ state,
      run step (openedIndexCursor .Next) secondOfThreeDeleted = some state ∧
      state.cursor.currentIterator.isNone = true ∧ state.cursor.currentKey = some 5 ∧
      state.cursor.currentPrimaryKey = some 2 ∧
      state.meetsCheck (.iterate (fun _ => none) none none 1) = true := reaches_of_check (by decide +kernel)
  rcases reaches with ⟨state, reached, lost, key, primaryKey, checked⟩
  have met : StepsMeet step Meets (openedIndexCursor .Next) secondOfThreeDeleted :=
    stepsMeet_of_check meets_of_check _ _ (by decide +kernel)
  have ready : state.Ready := (meets_of_check state _ checked rfl).2
  exact ⟨state, reached, lost, indexCursor_iterates_of_ready _ _ _ state met reached (5, 2) key primaryKey
    ready (fun _ => none) 1 le_rfl⟩

def currentOfTwoDeleted : List (IndexCursorEvent CanonicalKey) :=
  [.put 1 [5], .put 2 [3], .openCursor (unboundedCursor .Prev), .remove ascendingOrders.keys 1]

open IndexCursorState in
/-- The search asks the entry of the next index key for a primary key up to that of the lost record. -/
theorem reverse_indexCursor_skips_next :
    ∃ state, run step (openedIndexCursor .Prev) currentOfTwoDeleted = some state ∧
      state.cursor.currentKey = some 5 ∧ state.cursor.currentPrimaryKey = some 1 ∧
      state.index.valueStore.Lands state.cursor.info (5, 1) (3, 2) ∧
      (state.cursor.iterate (fun _ => none) state.index none none 1).map (·.2) = some none := by
  have reaches : ∃ state,
      run step (openedIndexCursor .Prev) currentOfTwoDeleted = some state ∧
      state.cursor.currentKey = some 5 ∧ state.cursor.currentPrimaryKey = some 1 ∧
      (state.index.valueStore.recordBeyond state.cursor.info (5, 1)).filter
        (state.cursor.info.range.containsKey ·.1) = some (3, 2) ∧
      (state.cursor.iterate (fun _ => none) state.index none none 1).any (·.2.isNone) = true :=
    reaches_of_check (by decide +kernel)
  rcases reaches with ⟨state, reached, key, primaryKey, landing, ended⟩
  have met : StepsMeet step Meets (openedIndexCursor .Prev) currentOfTwoDeleted :=
    stepsMeet_of_check meets_of_check _ _ (by decide +kernel)
  have follows := follows_run met reached
  have valid := follows.wellFormed.valueStore.1
  refine ⟨state, reached, key, primaryKey, ?_, ?_⟩
  · exact (IndexValueStore.landing_iff valid (follows.inside 5 key)).mp landing
  · cases iterated : state.cursor.iterate (fun _ => none) state.index none none 1 with
    | none =>
      rw [iterated] at ended
      cases ended
    | some result =>
      rw [iterated, any_some] at ended
      rw [map_some, isNone_iff_eq_none.mp ended]

end Odyssey.IndexedDB
