import Odyssey.IndexedDB.MemoryIndexCursorSpec
import Odyssey.IndexedDB.ObjectStoreCursorLaw

namespace Odyssey.IndexedDB

open Containers

variable {K : Type}

theorem duplicates_of_ne {info : IDBCursorInfo K} (all : ¬ info.duplicity = .NoDuplicates) :
    info.duplicity = .Duplicates := by
  cases duplicity : info.duplicity with
  | Duplicates => rfl
  | NoDuplicates => exact absurd duplicity all

variable [IDBKeyOrder K]

namespace IDBCursorInfo

/-- A record is beyond a position if its index key is, or, unless duplicates are left out, if its
    index key is the same and its primary key is beyond. -/
def RecordBeyond (info : IDBCursorInfo K) (position record : K × K) : Prop :=
  info.Beyond position.1 record.1 ∨
    info.duplicity = .Duplicates ∧ position.1 = record.1 ∧ info.Beyond position.2 record.2

def Precedes (info : IDBCursorInfo K) (first second : K × K) : Prop :=
  info.Beyond first.1 second.1 ∨ first.1 = second.1 ∧
    (first.2 = second.2 ∨ if info.direction = .Prev then second.2 < first.2 else first.2 < second.2)

theorem precedes_antisymm {info : IDBCursorInfo K} {first second : K × K}
    (left : info.Precedes first second) (right : info.Precedes second first) : first = second := by
  rcases left with before | ⟨same, left⟩
  · rcases right with after | ⟨same, _⟩
    · exact absurd (beyond_trans before after) (not_beyond_self info first.1)
    · exact absurd (same ▸ before) (not_beyond_self info first.1)
  · rcases right with after | ⟨_, right⟩
    · exact absurd (same ▸ after) (not_beyond_self info first.1)
    · rcases left with left | left
      · exact Prod.ext same left
      · rcases right with right | right
        · exact Prod.ext same right.symm
        · split_ifs at left right <;> exact absurd (lt_trans left right) (lt_irrefl _)

end IDBCursorInfo

namespace IndexValueStore

open PrimaryKeyIterator IDBCursorInfo

variable {info : IDBCursorInfo K} {keys : Finset K} {key : K} {store : IndexValueStore K}
  {record other position : K × K}

theorem following_eq_some {found : K} : following info.isDirectionForward keys key = some found ↔
      found ∈ keys ∧ info.Beyond key found ∧ ∀ other ∈ keys, info.Beyond key other → info.AtOrBeyond found other := by
  simp only [atOrBeyond_iff, Beyond]
  cases info.isDirectionForward with
  | true => exact upperBound_eq_some
  | false => exact highestBelow_eq_some

theorem following_eq_none :
    following info.isDirectionForward keys key = none ↔ ∀ other ∈ keys, ¬ info.Beyond key other := by
  simp only [following, Beyond]
  cases info.isDirectionForward with
  | true => simpa using upperBound_eq_none
  | false => simpa using highestBelow_eq_none

def iteratorDuplicity (info : IDBCursorInfo K) : CursorDuplicity :=
  if info.isDirectionForward then .Duplicates else info.duplicity

theorem firstKey_first {first other : K}
    (found : IndexValueEntry.firstKey info.isDirectionForward (iteratorDuplicity info) keys = some first)
    (member : other ∈ keys) : first = other ∨ if info.direction = .Prev then other < first else first < other := by
  have lowest : least keys = some first → first = other ∨ first < other :=
    fun lowest => le_iff_eq_or_lt.mp ((least_eq_some.mp lowest).2 other member)
  have highest : greatest keys = some first → first = other ∨ other < first := by
    intro highest
    rcases le_iff_eq_or_lt.mp ((greatest_eq_some.mp highest).2 other member) with same | below
    · exact .inl same.symm
    · exact .inr below
  unfold IndexValueEntry.firstKey iteratorDuplicity isDirectionForward duplicity at found
  cases direction : info.direction with
  | Next | Nextunique | Prevunique => simpa [direction] using lowest (by simpa [direction] using found)
  | Prev => simpa [direction] using highest (by simpa [direction] using found)

section

variable (store : IndexValueStore K) (info : IDBCursorInfo K)

def IsFirst (Beyond : K × K → Prop) : Option (K × K) → Prop
  | none => ∀ other : K × K, store.Holds other.1 other.2 → ¬ Beyond other
  | some record => store.Holds record.1 record.2 ∧ Beyond record ∧
      ∀ other : K × K, store.Holds other.1 other.2 → Beyond other → info.Precedes record other

def recordBeyond (position : K × K) : Option (K × K) :=
  if info.duplicity = .NoDuplicates then
    store.nextRecord info.isDirectionForward (iteratorDuplicity info) position.1
  else store.recordAfter info.isDirectionForward (iteratorDuplicity info) position

/-- Where a cursor at a position has to go: to the first record in the range beyond the position. -/
def Lands (position record : K × K) : Prop :=
  store.Holds record.1 record.2 ∧ info.range.containsKey record.1 = true ∧
    info.RecordBeyond position record ∧
    ∀ other : K × K, store.Holds other.1 other.2 → info.range.containsKey other.1 = true →
      info.RecordBeyond position other → info.Precedes record other

end

theorem IsFirst.congr {found : Option (K × K)} {Beyond Later : K × K → Prop} (first : store.IsFirst info Beyond found)
    (same : ∀ other : K × K, store.Holds other.1 other.2 → (Beyond other ↔ Later other)) :
    store.IsFirst info Later found := by
  cases found with
  | none => exact fun other holds later => first other holds ((same other holds).mpr later)
  | some record => exact ⟨first.1, (same record first.1).mp first.2.1,
      fun other holds later => first.2.2 other holds ((same other holds).mpr later)⟩

theorem nextRecord_first (valid : store.WellFormed) (indexKey : K) : store.IsFirst info (info.Beyond indexKey ·.1)
      (store.nextRecord info.isDirectionForward (iteratorDuplicity info) indexKey) := by
  have stored : ∀ other : K × K, store.Holds other.1 other.2 → other.1 ∈ store.orderedKeys :=
    fun other holds => valid.mem_orderedKeys.mpr ⟨other.2, holds⟩
  unfold nextRecord
  cases next : following info.isDirectionForward store.orderedKeys indexKey with
  | none => exact fun other holds => following_eq_none.mp next other.1 (stored other holds)
  | some key =>
    rcases following_eq_some.mp next with ⟨member, beyond, nearest⟩
    rcases valid.firstKey info.isDirectionForward (iteratorDuplicity info) member with ⟨first, extreme⟩
    rw [Option.bind_some, firstRecord, extreme]
    refine ⟨mem_primaryKeysOf.mp (firstKey_mem extreme), beyond, ?_⟩
    intro other holds later
    rcases nearest other.1 (stored other holds) later with same | further
    · exact .inr ⟨same, firstKey_first extreme (same ▸ mem_primaryKeysOf.mpr holds)⟩
    · exact .inl further

theorem precedes_of_beyond (all : info.duplicity = .Duplicates) {first second : K}
    (next : first = second ∨ info.Beyond first second) : info.Precedes (key, first) (key, second) := by
  refine .inr ⟨rfl, next.imp id ?_⟩
  unfold Beyond isDirectionForward
  unfold duplicity at all
  cases direction : info.direction with
  | Next | Prev => simp
  | Nextunique | Prevunique => simp [direction] at all

theorem recordBeyond_first (valid : store.WellFormed) (info : IDBCursorInfo K) (position : K × K) :
    store.IsFirst info (info.RecordBeyond position) (store.recordBeyond info position) := by
  unfold recordBeyond
  split_ifs with distinct
  · exact (nextRecord_first valid position.1).congr fun other _ => by simp [RecordBeyond, distinct]
  · have duplicates := duplicates_of_ne distinct
    unfold recordAfter
    cases within : following info.isDirectionForward (store.primaryKeysOf position.1) position.2 with
    | some primaryKey =>
      rcases following_eq_some.mp within with ⟨member, beyond, nearest⟩
      refine ⟨mem_primaryKeysOf.mp member, .inr ⟨duplicates, rfl, beyond⟩, ?_⟩
      intro other held later
      rcases later with later | ⟨_, same, later⟩
      · exact .inl later
      · have next := nearest other.2 (mem_primaryKeysOf.mpr (same ▸ held)) later
        have order : info.Precedes (position.1, primaryKey) (position.1, other.2) :=
          precedes_of_beyond duplicates next
        rw [same] at order ⊢
        exact order
    | none =>
      refine (nextRecord_first valid position.1).congr fun other held => ?_
      have nothing : ¬ (position.1 = other.1 ∧ info.Beyond position.2 other.2) := fun ⟨same, later⟩ =>
        following_eq_none.mp within other.2 (mem_primaryKeysOf.mpr (same ▸ held)) later
      simp [RecordBeyond, nothing]

theorem recordBeyond_some (valid : store.WellFormed) (found : store.recordBeyond info position = some record) :
    store.IsFirst info (info.RecordBeyond position) (some record) :=
  found ▸ recordBeyond_first valid info position

theorem beyond_range (inside : info.range.containsKey position.1 = true)
    (within : info.range.containsKey other.1 = true) (beyond : info.RecordBeyond position record)
    (before : info.Precedes record other) : info.range.containsKey record.1 = true := by
  rcases beyond with beyond | ⟨_, same, _⟩
  · rcases before with before | ⟨same, _⟩
    · unfold Beyond at beyond before
      split_ifs at beyond before
      · exact IDBKeyRangeData.containsKey_convex inside within (le_of_lt beyond) (le_of_lt before)
      · exact IDBKeyRangeData.containsKey_convex within inside (le_of_lt before) (le_of_lt beyond)
    · exact same ▸ within
  · exact same ▸ inside

theorem landing_iff (valid : store.WellFormed) (inside : info.range.containsKey position.1 = true) :
    (store.recordBeyond info position).filter (info.range.containsKey ·.1) = some record ↔
      store.Lands info position record := by
  rw [Option.filter_eq_some_iff]
  constructor
  · intro landed
    rcases landed with ⟨found, contained⟩
    rcases recordBeyond_some valid found with ⟨holds, beyond, nearest⟩
    exact ⟨holds, contained, beyond, fun other held _ later => nearest other held later⟩
  · intro lands
    rcases lands with ⟨holds, contained, beyond, nearest⟩
    cases found : store.recordBeyond info position with
    | none =>
      have nothing := recordBeyond_first valid info position
      rw [found] at nothing
      exact absurd beyond (nothing record holds)
    | some first =>
      rcases recordBeyond_some valid found with ⟨firstHolds, firstBeyond, firstNearest⟩
      have before := firstNearest record holds beyond
      have firstContained := beyond_range inside contained firstBeyond before
      have same := precedes_antisymm before (nearest first firstHolds firstContained firstBeyond)
      exact ⟨same ▸ rfl, contained⟩

end IndexValueStore

namespace MemoryIndexCursor

open IndexValueStore PrimaryKeyIterator IDBCursorInfo

structure Standing (unique : Bool) (info : IDBCursorInfo K) (position : K × K)
    (iterator : IndexValueIterator K) : Prop where
  forward : iterator.forward = info.isDirectionForward
  duplicity : iterator.duplicity = iteratorDuplicity info
  entry : iterator.entry = position.1
  key : info.isDirectionForward = true → iterator.keyIterator = .forward position.1
  primaryKey : unique = true → iterator.primaryKeyIterator = .unique
  forwardPrimaryKey : unique = false → info.isDirectionForward = true →
    iterator.primaryKeyIterator = .ordered (.forward position.2)

section

variable (store : IndexValueStore K) (info : IDBCursorInfo K)

/-- The search for the position of a cursor without an iterator passes over a record: of a unique
    entry at the position, or, backward, of the entry that it finds instead. -/
def Skips (position : K × K) : Prop :=
  match info.direction with
  | .Next => store.unique = true ∧ ∃ primaryKey, store.Holds position.1 primaryKey ∧ position.2 < primaryKey
  | .Prev => ∃ found primaryKey, highestAtMost store.orderedKeys position.1 = some found ∧
      info.range.containsKey found = true ∧ store.Holds found primaryKey ∧
      if found = position.1 then store.unique = true ∧ primaryKey < position.2
      else if store.unique = true then primaryKey ≠ position.2 else position.2 < primaryKey
  | .Nextunique | .Prevunique => False

def Arrives (position : K × K) (record : Option (K × K)) : Prop :=
  (∀ found, record = some found → store.Holds found.1 found.2) ∧
    (record = some position ∨ (∀ found, record = some found → found ≠ position) ∧
      record.filter (info.range.containsKey ·.1) =
        (store.recordBeyond info position).filter (info.range.containsKey ·.1))

def iteratorFor (record : K × K) : IndexValueIterator K :=
  store.iteratorAt info.isDirectionForward (iteratorDuplicity info) record

def Undisturbed (position : K × K) (iterator : IndexValueIterator K) : Prop :=
  info.isDirectionForward = false →
    iterator.keyIterator = .reverseAt store.orderedKeys position.1 ∧
      (info.duplicity = .Duplicates → store.unique = false →
        iterator.primaryKeyIterator = .ordered (.reverseAt (store.primaryKeysOf position.1) position.2))

theorem standing_iteratorFor (record : K × K) : Standing store.unique info record (iteratorFor store info record) := by
  refine ⟨rfl, rfl, rfl, ?_, ?_, ?_⟩
  · intro forward
    simp [iteratorFor, iteratorAt, forward]
  · intro unique
    simp [iteratorFor, iteratorAt, placedAt, unique]
  · intro plain forward
    simp [iteratorFor, iteratorAt, placedAt, plain, forward]

theorem undisturbed_iteratorFor (record : K × K) : Undisturbed store info record (iteratorFor store info record) := by
  intro reverse
  refine ⟨?_, ?_⟩
  · simp [iteratorFor, iteratorAt, reverse]
  · intro _ plain
    simp [iteratorFor, iteratorAt, placedAt, plain, reverse]

end

def landed (store : IndexValueStore K) (cursor : MemoryIndexCursor K) (record : Option (K × K)) :
    MemoryIndexCursor K :=
  match record.filter (cursor.info.range.containsKey ·.1) with
  | none => cursor.finished
  | some record => { cursor with
      currentIterator := some (iteratorFor store cursor.info record)
      currentKey := some record.1
      currentPrimaryKey := some record.2 }

variable {store : IndexValueStore K} {info : IDBCursorInfo K} {position record : K × K}
  {cursor : MemoryIndexCursor K}

theorem iteratorFor_keys (valid : store.WellFormed) (info : IDBCursorInfo K) (holds : store.Holds record.1 record.2) :
    (iteratorFor store info record).key store = some record.1 ∧
      (iteratorFor store info record).primaryKey store = some record.2 :=
  ⟨get_placed (valid.mem_orderedKeys.mpr ⟨record.2, holds⟩) _, primaryKey_iteratorAt valid _ _ holds⟩

theorem settle_eq (valid : store.WellFormed) (cursor : MemoryIndexCursor K) {record : Option (K × K)}
    (held : ∀ found, record = some found → store.Holds found.1 found.2) :
    settle store cursor (record.map (iteratorFor store cursor.info)) = some (landed store cursor record) := by
  cases record with
  | none => rfl
  | some found =>
    have holds := held found rfl
    rcases iteratorFor_keys valid cursor.info holds with ⟨key, primaryKey⟩
    unfold landed
    rw [Option.map_some, Option.filter_some, settle]
    simp only [key, primaryKey, Option.bind_eq_bind, Option.bind_some]
    cases cursor.info.range.containsKey found.1 <;> rfl

variable (valueForKey : K → ThreadSafeDataBuffer)

theorem currentData_landed (store : IndexValueStore K) (cursor : MemoryIndexCursor K) (record : Option (K × K)) :
    (currentData valueForKey (landed store cursor record)).map
        (fun result => (result.keyData, result.primaryKeyData)) =
      record.filter (cursor.info.range.containsKey ·.1) := by
  unfold landed
  cases record.filter (cursor.info.range.containsKey ·.1) with
  | none => rfl
  | some found => rfl

theorem not_recordBeyond_self (info : IDBCursorInfo K) (position : K × K) : ¬ info.RecordBeyond position position := by
  intro beyond
  rcases beyond with beyond | ⟨_, _, beyond⟩
  · exact not_beyond_self info position.1 beyond
  · exact not_beyond_self info position.2 beyond

theorem filter_outside {record : Option (K × K)}
    (outside : ∀ found, record = some found → info.range.containsKey found.1 = false) :
    record.filter (info.range.containsKey ·.1) = none := by
  cases record with
  | none => rfl
  | some found => rw [Option.filter_some, if_neg (by simp [outside found rfl])]

/-- What an iteration needs: reverse iterators that are undisturbed, or, without an iterator, a
    position that the search finds. -/
def Ready (store : IndexValueStore K) (cursor : MemoryIndexCursor K) (position : K × K) : Prop :=
  match cursor.currentIterator with
  | some iterator => Undisturbed store cursor.info position iterator
  | none => ¬ Skips store cursor.info position

structure Follows (index : MemoryIndex K) (cursor : MemoryIndexCursor K) : Prop where
  wellFormed : index.WellFormed
  inside : ∀ key, cursor.currentKey = some key → cursor.info.range.containsKey key = true
  paired : cursor.currentKey.isSome = cursor.currentPrimaryKey.isSome
  standing : ∀ position : K × K, cursor.currentKey = some position.1 →
    cursor.currentPrimaryKey = some position.2 → ∀ iterator, cursor.currentIterator = some iterator →
    index.Holds position.1 position.2 ∧ Standing index.info.unique cursor.info position iterator

section WellFormed

variable (valid : store.WellFormed)
include valid

theorem move_one {iterator : IndexValueIterator K} (holds : store.Holds position.1 position.2)
    (standing : Standing store.unique info position iterator) (undisturbed : Undisturbed store info position iterator) :
    move store info.duplicity 1 iterator =
      some ((store.recordBeyond info position).map (iteratorFor store info)) := by
  have member := valid.mem_orderedKeys.mpr ⟨position.2, holds⟩
  have placed : iterator.keyIterator = if iterator.forward then .forward position.1
      else .reverseAt store.orderedKeys position.1 := by
    rw [standing.forward]
    cases forward : info.isDirectionForward with
    | true => exact standing.key forward
    | false => exact (undisturbed forward).1
  have once : (if info.duplicity = .NoDuplicates then iterator.nextIndexEntry store
      else iterator.next store) =
      some ((store.recordBeyond info position).map (iteratorFor store info)) := by
    unfold recordBeyond
    by_cases distinct : info.duplicity = .NoDuplicates
    · rw [if_pos distinct, if_pos distinct, nextIndexEntry_eq valid member placed, standing.forward,
        standing.duplicity]
      rfl
    · have duplicates := duplicates_of_ne distinct
      have fresh : iterator = iteratorFor store info position := by
        have primaryKey : iterator.primaryKeyIterator = placedAt store.unique info.isDirectionForward
            (store.primaryKeysOf position.1) position.2 := by
          cases unique : store.unique with
          | true => exact standing.primaryKey unique
          | false =>
            cases forward : info.isDirectionForward with
            | true => exact standing.forwardPrimaryKey unique forward
            | false => exact (undisturbed forward).2 duplicates unique
        rw [standing.forward] at placed
        cases iterator
        simp only [iteratorFor, iteratorAt, IndexValueIterator.mk.injEq]
        exact ⟨standing.forward, standing.duplicity, placed, standing.entry, primaryKey⟩
      rw [if_neg distinct, if_neg distinct, fresh]
      exact next_eq valid _ _ holds
  rw [move, once]
  cases store.recordBeyond info position with
  | none => rfl
  | some record => rfl

theorem arrives_beyond (info : IDBCursorInfo K) (position : K × K) :
    Arrives store info position (store.recordBeyond info position) := by
  refine ⟨fun found same => (recordBeyond_some valid same).1, .inr ⟨?_, rfl⟩⟩
  intro found same here
  subst here
  exact not_recordBeyond_self info found (recordBeyond_some valid same).2.1

theorem arrives_from (all : info.duplicity = .Duplicates) (position : K × K) : Arrives store info position
      (store.recordFrom info.isDirectionForward (iteratorDuplicity info) position) := by
  unfold recordFrom
  split_ifs with held
  · refine ⟨?_, .inl rfl⟩
    intro found same
    cases same
    exact mem_primaryKeysOf.mp held
  · have after : store.recordAfter info.isDirectionForward (iteratorDuplicity info) position =
        store.recordBeyond info position := by
      rw [recordBeyond, if_neg (by simp [all])]
    rw [after]
    exact arrives_beyond valid info position

theorem restoreBack_arrives (direction : info.direction = .Prev)
    (inside : info.range.containsKey position.1 = true) (kept : ¬ Skips store info position) :
    ∃ record, store.reverseFindPrimaryKey position.1 position.2 .Duplicates =
      some (record.map (store.iteratorAt false .Duplicates)) ∧ Arrives store info position record := by
  have all : info.duplicity = .Duplicates := by simp [duplicity, direction]
  have started := arrives_from valid all position
  simp only [isDirectionForward, iteratorDuplicity, direction, all, reduceCtorEq, decide_false] at started
  have before : ∀ record, store.recordBeyond info position = some record →
      record.1 ∈ store.orderedKeys ∧ record.1 ≤ position.1 := by
    intro record found
    rcases recordBeyond_some valid found with ⟨holds, beyond, _⟩
    refine ⟨valid.mem_orderedKeys.mpr ⟨record.2, holds⟩, ?_⟩
    rcases beyond with beyond | ⟨_, same, _⟩
    · exact le_of_lt (by simpa [Beyond, isDirectionForward, direction] using beyond)
    · exact le_of_eq same.symm
  cases atMost : highestAtMost store.orderedKeys position.1 with
  | none =>
    have beyond : store.recordBeyond info position = none := by
      apply Option.eq_none_iff_forall_ne_some.mpr
      intro record found
      rcases before record found with ⟨member, below⟩
      exact absurd below (not_le.mpr (highestAtMost_eq_none.mp atMost record.1 member))
    exact ⟨none, reverseFindPrimaryKey_none atMost _ _, beyond ▸ arrives_beyond valid info position⟩
  | some found =>
    refine ⟨store.arrived false .Duplicates found position.2, reverseFindPrimaryKey_at valid atMost _, ?_⟩
    by_cases contained : info.range.containsKey found = true
    · have searched : store.SearchesBack position.1 position.2 found := by
        intro other holds
        unfold Skips at kept
        simp only [direction, not_exists, not_and] at kept
        have passed := kept found other atMost contained holds
        split_ifs at passed ⊢
        · exact fun unique => not_lt.mp fun less => passed ⟨unique, less⟩
        · exact not_not.mp passed
        · exact not_lt.mp passed
      rw [arrivedBack_eq valid atMost searched]
      exact started
    · have below := (highestAtMost_eq_some.mp atMost).2.1
      have lower : ∀ key, key ≤ found → info.range.containsKey key = false := by
        intro key lowest
        apply Bool.eq_false_of_not_eq_true
        exact fun covered => contained (IDBKeyRangeData.containsKey_convex covered inside lowest below)
      have outside : ∀ record, store.arrived false .Duplicates found position.2 = some record →
          info.range.containsKey record.1 = false := by
        intro record arrives
        apply lower
        rcases (arrived_holds arrives).2 with same | next
        · exact le_of_eq same
        · exact le_of_lt (highestBelow_eq_some.mp next).2.1
      refine ⟨fun record arrives => (arrived_holds arrives).1, .inr ⟨?_, ?_⟩⟩
      · intro record arrives same
        have apart := outside record arrives
        rw [same, inside] at apart
        cases apart
      · rw [filter_outside outside, filter_outside]
        intro record beyond
        rcases before record beyond with ⟨member, below⟩
        exact lower record.1 ((highestAtMost_eq_some.mp atMost).2.2 record.1 member below)

theorem restore_arrives (key : cursor.currentKey = some position.1)
    (primaryKey : cursor.currentPrimaryKey = some position.2)
    (inside : cursor.info.range.containsKey position.1 = true) (kept : ¬ Skips store cursor.info position) :
    ∃ record, restore store cursor = some (record.map (iteratorFor store cursor.info)) ∧
      Arrives store cursor.info position record := by
  have beyond := arrives_beyond valid cursor.info position
  unfold restore iteratorFor
  rw [key, primaryKey]
  cases direction : cursor.info.direction with
  | Next =>
    have all : cursor.info.duplicity = .Duplicates := by simp [duplicity, direction]
    have started := arrives_from valid all position
    have kept : store.unique = true → ∀ other, store.Holds position.1 other → other ≤ position.2 := by
      intro unique other holds
      by_contra later
      apply kept
      simp only [Skips, direction]
      exact ⟨unique, other, holds, not_le.mp later⟩
    simp only [iteratorDuplicity, isDirectionForward, direction, decide_true] at started ⊢
    exact ⟨_, findPrimaryKey_eq valid, arrived_eq kept ▸ started⟩
  | Nextunique =>
    refine ⟨_, ?_, beyond⟩
    simp only [recordBeyond, iteratorDuplicity, isDirectionForward, duplicity, direction, decide_true]
    exact find_eq valid (some position.1) true
  | Prev =>
    simp only [iteratorDuplicity, isDirectionForward, duplicity, direction, reduceCtorEq, decide_false]
    exact restoreBack_arrives valid direction inside kept
  | Prevunique =>
    refine ⟨_, ?_, beyond⟩
    simp only [recordBeyond, iteratorDuplicity, isDirectionForward, duplicity, direction, reduceCtorEq,
      decide_false, decide_true]
    exact reverseFind_eq valid (some position.1) .NoDuplicates true

theorem moveAndSettle_one {iterator : IndexValueIterator K} (holds : store.Holds position.1 position.2)
    (standing : Standing store.unique cursor.info position iterator)
    (undisturbed : Undisturbed store cursor.info position iterator) :
    moveAndSettle valueForKey store cursor 1 iterator =
      some (landed store cursor (store.recordBeyond cursor.info position),
        currentData valueForKey (landed store cursor (store.recordBeyond cursor.info position))) := by
  unfold moveAndSettle
  rw [move_one valid holds standing undisturbed]
  simp only [Option.bind_eq_bind, Option.bind_some]
  rw [settle_eq valid cursor (fun found same => (recordBeyond_some valid same).1)]
  rfl

end WellFormed

theorem landed_congr (store : IndexValueStore K) {first second : Option (K × K)}
    (same : first.filter (cursor.info.range.containsKey ·.1) = second.filter (cursor.info.range.containsKey ·.1)) :
    landed store cursor first = landed store cursor second := by
  unfold landed
  rw [same]

theorem iterateByCount_eq {index : MemoryIndex K} (records : index.records = some store)
    (follows : cursor.Follows index) (key : cursor.currentKey = some position.1)
    (primaryKey : cursor.currentPrimaryKey = some position.2) (ready : Ready store cursor position)
    {count : Nat} (single : count ≤ 1) :
    iterateByCount valueForKey index count cursor =
      some (landed store cursor (store.recordBeyond cursor.info position),
        currentData valueForKey (landed store cursor (store.recordBeyond cursor.info position))) := by
  rcases follows.wellFormed store records with ⟨valid, unique⟩
  have one : (if count = 0 then 1 else count) = 1 := by
    split
    · rfl
    · omega
  unfold iterateByCount
  unfold Ready at ready
  simp only [one, records]
  cases current : cursor.currentIterator with
  | some iterator =>
    rw [current] at ready
    rcases follows.standing position key primaryKey iterator current with ⟨holds, standing⟩
    rcases holds with ⟨_, found, holds⟩
    rw [records] at found
    cases found
    exact moveAndSettle_one valueForKey valid holds (unique ▸ standing) ready
  | none =>
    rw [current] at ready
    rcases restore_arrives valid key primaryKey (follows.inside position.1 key) ready with
      ⟨record, restored, held, arrives⟩
    simp only [restored]
    cases record with
    | none =>
      rcases arrives with same | ⟨_, same⟩
      · cases same
      · have ended := landed_congr store same
        rw [← ended]
        rfl
    | some found =>
      have holds := held found rfl
      rcases iteratorFor_keys valid cursor.info holds with ⟨here, primary⟩
      simp only [Option.map_some, here, primary, Option.bind_eq_bind, Option.bind_some, key, primaryKey, ne_eq,
        Option.some.injEq]
      rcases arrives with same | ⟨apart, same⟩
      · cases same
        simp only [or_self]
        exact moveAndSettle_one valueForKey valid holds (standing_iteratorFor store cursor.info position)
          (undisturbed_iteratorFor store cursor.info position)
      · have different : ¬ position.1 = found.1 ∨ ¬ position.2 = found.2 := by
          by_contra equal
          push Not at equal
          exact apart found rfl (Prod.ext equal.1 equal.2).symm
        have settled := settle_eq valid cursor held
        simp only [Option.map_some] at settled
        simp only [if_pos different, Nat.sub_self, moveAndSettle, move, Option.bind_eq_bind,
          Option.bind_some, settled, landed_congr store same]
        rfl

end MemoryIndexCursor

end Odyssey.IndexedDB
