import Odyssey.IndexedDB.MemoryIndexCursorSpec
import Odyssey.IndexedDB.ObjectStoreCursorSpec
import Odyssey.IndexedDB.PutRequests

namespace Odyssey.IndexedDB

open Containers Finset IDBKeyRangeData IndexValueStore StoreWrite MemoryObjectStore

variable {K R σ : Type} [IDBKeyOrder K]

/-- The loop of the range queries: the lowest key in the range is visited and becomes its open lower end. A
    loop that is not over after `fuel` rounds has no result. -/
def visitRange (search : IDBKeyRangeData K → Option K) (more : σ → Bool) (visit : K → σ → σ) :
    Nat → IDBKeyRangeData K → σ → Option σ
  | 0, _, _ => none
  | fuel + 1, range, state =>
    if more state then
      match search range with
      | none => some state
      | some key =>
        visitRange search more visit fuel { range with lowerKey := some key, lowerOpen := true } (visit key state)
    else some state

inductive GetAllType where
  | Keys | Values

/-- What `getAllRecords` adds to its result: `addKey` or `addValue`. -/
def GetAllType.entry (type : GetAllType) (key : K) (value : ThreadSafeDataBuffer) : K ⊕ ThreadSafeDataBuffer :=
  match type with
  | .Keys => .inl key
  | .Values => .inr value

def targetCount (count : Option UInt32) : Nat :=
  match count with
  | some count => if count = 0 then 2^32 - 1 else count.toNat
  | none => 2^32 - 1

namespace IndexValueStore

def keysFrom (entry : IndexValueEntry K) : Nat → Option (PrimaryKeyIterator K) → List K
  | limit + 1, some iterator =>
    match iterator.key entry with
    | some key => key :: keysFrom entry limit (iterator.next entry).join
    | none => []
  | _, _ => []

variable (store : IndexValueStore K)

def allValuesForKey (key : K) (limit : Nat) : List K :=
  match store.records.lookup key with
  | none => []
  | some entry => keysFrom entry limit entry.begin

def countForKey (key : K) : Nat :=
  match store.records.lookup key with
  | none => 0
  | some entry => entry.getCount

def lowestKeyWithRecordInRange (range : IDBKeyRangeData K) : Option K :=
  if range.isExactlyOneKey then range.lowerKey.filter (store.contains ·) else store.lowestIteratorInRange range

end IndexValueStore

namespace MemoryIndex

def countForKeyRange (index : MemoryIndex K) (range : IDBKeyRangeData K) : Option Nat :=
  match index.records with
  | none => some 0
  | some records =>
    visitRange records.lowestKeyWithRecordInRange (fun _ => true) (fun key count => count + records.countForKey key)
      (records.orderedKeys.card + 1) range 0

def getAllRecords (store : MemoryObjectStore K) (index : MemoryIndex K) (range : IDBKeyRangeData K)
    (count : Option UInt32) (type : GetAllType) : Option (List (K ⊕ ThreadSafeDataBuffer)) :=
  match index.records with
  | none => some []
  | some records =>
    visitRange records.lowestKeyWithRecordInRange (·.length < targetCount count)
      (fun key result => result ++ (records.allValuesForKey key (targetCount count - result.length)).map
        fun primaryKey => type.entry primaryKey (store.valueForKeyRange (.ofKey primaryKey)))
      (records.orderedKeys.card + 1) range []

end MemoryIndex

namespace MemoryObjectStore

/-- There is no result where the source asserts that the index exists. -/
def countForKeyRange (store : MemoryObjectStore K) (indexIdentifier : UInt64) (range : IDBKeyRangeData K) :
    Option Nat :=
  if indexIdentifier = 0 then
    match store.keyValueStore with
    | none => some 0
    | some _ =>
      visitRange store.lowestKeyWithRecordInRange (fun _ => true) (fun _ count => count + 1)
        ((store.orderedKeys.getD ∅).card + 1) range 0
  else (store.indexesByIdentifier.lookup indexIdentifier).bind (store.indexes · |>.countForKeyRange range)

def valueForKey (store : MemoryObjectStore K) (key : K) : ThreadSafeDataBuffer :=
  (store.keyValueStore.bind (·.lookup key)).join

def getAllRecords (store : MemoryObjectStore K) (range : IDBKeyRangeData K) (count : Option UInt32)
    (type : GetAllType) : Option (List (K ⊕ ThreadSafeDataBuffer)) :=
  visitRange store.lowestKeyWithRecordInRange (·.length < targetCount count)
    (fun key result => result ++ [type.entry key (store.valueForKey key)])
    ((store.orderedKeys.getD ∅).card + 1) range []

end MemoryObjectStore

section Loop

variable {keys : Finset K} {range : IDBKeyRangeData K} {search : IDBKeyRangeData K → Option K} {more : σ → Bool}
  {visit : K → σ → σ} {fuel : Nat} (searches : ∀ range, search range = least (keys.filter range.Bounds))
  (enough : (keys.filter range.Bounds).card < fuel)
include searches enough

theorem visitRange_eq (result : List K → σ → σ) (nil : ∀ state, result [] state = state)
    (stop : ∀ keys state, more state = false → result keys state = state)
    (step : ∀ key keys state, more state = true → result (key :: keys) state = result keys (visit key state))
    (state : σ) :
    visitRange search more visit fuel range state = some (result (keys.filter range.Bounds).sort state) := by
  induction fuel generalizing range state with
  | zero => omega
  | succ fuel ih =>
    rw [visitRange, searches]
    cases going : more state with
    | false => rw [stop _ _ going]; rfl
    | true =>
      cases lowest : least (keys.filter range.Bounds) with
      | none => simp [least_eq_none.mp lowest, nil]
      | some first =>
        have narrow : (keys.filter range.Bounds).filter (first < ·) = keys.filter
            ({ range with lowerKey := some first, lowerOpen := true } : IDBKeyRangeData K).Bounds := by
          simp only [narrowed_bounds (mem_filter.mp (least_eq_some.mp lowest).1).2, filter_filter]
        have sorted := sort_least lowest
        have fewer := congrArg List.length sorted
        rw [narrow] at sorted fewer
        rw [List.length_cons, length_sort, length_sort] at fewer
        rw [sorted, step _ _ _ going]
        exact ih (by omega) _

theorem visitRange_count (size : K → Nat) :
    visitRange search (fun _ => true) (fun key count => count + size key) fuel range 0 =
      some ((keys.filter range.Bounds).sort.map size).sum := by
  rw [visitRange_eq searches enough (fun keys count => count + (keys.map size).sum) (by simp) (by simp), zero_add]
  simp [add_assoc]

theorem visitRange_collect {target : Nat} (batch : K → List R) {visit : K → List R → List R}
    (visits : ∀ key result, result.length < target →
      visit key result = result ++ (batch key).take (target - result.length)) :
    visitRange search (·.length < target) visit fuel range [] =
      some (((keys.filter range.Bounds).sort.flatMap batch).take target) := by
  rw [visitRange_eq searches enough (fun keys result => result ++ (keys.flatMap batch).take (target - result.length))
    (by simp)]
  · rfl
  · intro keys result full
    simp only [decide_eq_false_iff_not, not_lt] at full
    simp [Nat.sub_eq_zero_of_le full]
  · intro key keys result room
    rw [visits key result (of_decide_eq_true room), List.flatMap_cons, List.take_append, List.append_assoc,
      List.length_append, List.length_take]
    congr 3
    omega

end Loop

namespace IndexValueStore

open IndexValueEntry PrimaryKeyIterator

theorem keysFrom_begin {entry : IndexValueEntry K} (nonempty : entry.primaryKeys.Nonempty) (limit : Nat) :
    keysFrom entry limit entry.begin = entry.primaryKeys.sort.take limit := by
  have loop (limit : Nat) : ∀ key ∈ entry.primaryKeys,
      keysFrom entry limit (some (placedAt entry.isUnique true entry.primaryKeys key)) =
        (key :: (entry.primaryKeys.filter (key < ·)).sort).take limit := by
    induction limit with
    | zero => exact fun _ _ => rfl
    | succ limit ih =>
      intro key member
      rw [keysFrom, key_placedAt member, next_placedAt member, List.take_succ_cons]
      simp only [following, if_true, Option.join_some, upperBound]
      cases found : least (entry.primaryKeys.filter (key < ·)) with
      | none => cases limit <;> simp [least_eq_none.mp found, keysFrom]
      | some next =>
        have above := mem_filter.mp (least_eq_some.mp found).1
        rw [Option.map_some, ih next above.1, sort_least found, filter_filter]
        simp only [and_iff_right_of_imp above.2.trans]
  obtain ⟨first, lowest⟩ := Option.ne_none_iff_exists'.mp (mt least_eq_none.mp nonempty.ne_empty)
  rw [begin_eq lowest, loop limit first (least_eq_some.mp lowest).1, ← sort_least lowest]

theorem allValuesForKey_eq {store : IndexValueStore K} (valid : store.WellFormed) (key : K) (limit : Nat) :
    store.allValuesForKey key limit = (store.primaryKeysOf key).sort.take limit := by
  unfold allValuesForKey primaryKeysOf
  cases found : store.records.lookup key with
  | none => simp
  | some entry => exact keysFrom_begin (valid.nonempty key entry found) limit

theorem lowestKeyWithRecordInRange_least {store : IndexValueStore K} (valid : store.WellFormed)
    (range : IDBKeyRangeData K) :
    store.lowestKeyWithRecordInRange range = least (store.orderedKeys.filter range.Bounds) := by
  unfold lowestKeyWithRecordInRange
  split_ifs with one
  · rw [← (exactlyOne_search store.orderedKeys one).1, valid.ordered]
    rfl
  · exact firstInRange_eq _ range

variable (store : IndexValueStore K)

theorem countForKey_eq (key : K) : store.countForKey key = (store.primaryKeysOf key).card := by
  unfold countForKey primaryKeysOf
  cases store.records.lookup key with
  | none => rfl
  | some entry => exact getCount_eq entry

def recordsInRange (range : IDBKeyRangeData K) : List (K × K) :=
  (store.orderedKeys.filter range.Bounds).sort.flatMap fun key => (store.primaryKeysOf key).sort.map (key, ·)

theorem recordsInRange_sorted (range : IDBKeyRangeData K) :
    (store.recordsInRange range).Pairwise (Prod.Lex (· < ·) (· < ·)) := by
  rw [recordsInRange, List.pairwise_flatMap]
  refine ⟨fun key _ => ?_, ?_⟩
  · rw [List.pairwise_map]
    exact (sortedLT_sort _).pairwise.imp (Prod.Lex.right key)
  · refine (sortedLT_sort _).pairwise.imp fun less pair first other second => ?_
    obtain ⟨_, _, rfl⟩ := List.mem_map.mp first
    obtain ⟨_, _, rfl⟩ := List.mem_map.mp second
    exact Prod.Lex.left _ _ less

variable {store : IndexValueStore K} (valid : store.WellFormed) (range : IDBKeyRangeData K)
include valid

theorem mem_recordsInRange (pair : K × K) :
    pair ∈ store.recordsInRange range ↔ store.Holds pair.1 pair.2 ∧ range.Bounds pair.1 := by
  rw [recordsInRange, List.mem_flatMap, and_comm]
  constructor
  · rintro ⟨key, inside, member⟩
    obtain ⟨primaryKey, held, rfl⟩ := List.mem_map.mp member
    exact ⟨(mem_filter.mp ((mem_sort _).mp inside)).2, mem_primaryKeysOf.mp ((mem_sort _).mp held)⟩
  · rintro ⟨inside, held⟩
    have present : pair.1 ∈ store.orderedKeys := valid.ordered ▸ valid.contains_iff.mpr ⟨_, held⟩
    exact ⟨pair.1, (mem_sort _).mpr (mem_filter.mpr ⟨present, inside⟩),
      List.mem_map.mpr ⟨pair.2, (mem_sort _).mpr (mem_primaryKeysOf.mpr held), rfl⟩⟩

theorem recordsInRange_head :
    store.lowestKeyWithRecordInRange range = (store.recordsInRange range).head?.map Prod.fst := by
  rw [lowestKeyWithRecordInRange_least valid, recordsInRange]
  cases lowest : least (store.orderedKeys.filter range.Bounds) with
  | none => simp [least_eq_none.mp lowest]
  | some first =>
    obtain ⟨_, _, _, _, nonempty⟩ := valid.entry (mem_filter.mp (least_eq_some.mp lowest).1).1
    obtain ⟨primaryKey, next⟩ := Option.ne_none_iff_exists'.mp (mt least_eq_none.mp nonempty.ne_empty)
    rw [sort_least lowest, List.flatMap_cons, sort_least next]
    rfl

end IndexValueStore

namespace MemoryObjectStore

variable {store : MemoryObjectStore K} (valid : store.WellFormed)
include valid

theorem valueForKeyRange_ofKey (key : K) : store.valueForKeyRange (.ofKey key) = store.valueForKey key := by
  simp only [valueForKeyRange, lowestKeyWithRecordInRange_eq valid, ofKey_bounds, filter_eq']
  split_ifs with present
  · simp [least, valueForKey]
  · have absent : store.records.lookup key = none := HashMap.not_mem_keys_iff.mp present
    rw [records] at absent
    unfold valueForKey
    cases stored : store.keyValueStore with
    | none => rfl
    | some map =>
      simp only [stored, Option.getD_some] at absent
      simp [least, absent]

end MemoryObjectStore

structure MemoryObjectStore.Answers (store : MemoryObjectStore K) (key primaryKey : R → K) (records : List R)
    (lowest : Option K) (number : Option Nat)
    (all : Option UInt32 → GetAllType → Option (List (K ⊕ ThreadSafeDataBuffer))) : Prop where
  lowest : lowest = records.head?.map key
  number : number = some records.length
  all : ∀ count type, all count type = some ((records.take (targetCount count)).map fun record =>
    type.entry (primaryKey record) (store.valueForKey (primaryKey record)))

section Answers

variable {store : MemoryObjectStore K} (valid : store.WellFormed) (range : IDBKeyRangeData K)
include valid

theorem MemoryIndex.WellFormed.answers {index : MemoryIndex K} (known : index.WellFormed) :
    store.Answers Prod.fst Prod.snd (index.valueStore.recordsInRange range)
      (index.records.bind (·.lowestKeyWithRecordInRange range)) (index.countForKeyRange range)
      (index.getAllRecords store range) := by
  unfold countForKeyRange getAllRecords MemoryIndex.valueStore
  cases found : index.records with
  | none =>
    have nothing : (IndexValueStore.create index.info.unique : IndexValueStore K).recordsInRange range = [] := by
      simp [recordsInRange, IndexValueStore.create]
    refine ⟨?_, ?_, ?_⟩ <;> simp [nothing]
  | some records =>
    have known := (known records found).1
    have searches := lowestKeyWithRecordInRange_least known
    have enough := Nat.lt_succ_of_le (card_filter_le records.orderedKeys range.Bounds)
    refine ⟨recordsInRange_head known range, ?_, fun count type => ?_⟩
    · simp [visitRange_count searches enough, recordsInRange, countForKey_eq]
    · simp only [allValuesForKey_eq known, valueForKeyRange_ofKey valid]
      rw [visitRange_collect searches enough (fun key => (records.primaryKeysOf key).sort.map
        fun primaryKey => type.entry primaryKey (store.valueForKey primaryKey))]
      · rw [List.map_take, recordsInRange, List.map_flatMap]
        simp only [List.map_map]
        rfl
      · intro key result _
        rw [List.map_take]

theorem MemoryObjectStore.WellFormed.answers :
    store.Answers id id (store.records.keys.filter range.Bounds).sort (store.lowestKeyWithRecordInRange range)
      (store.countForKeyRange 0 range) (store.getAllRecords range) := by
  have searches := lowestKeyWithRecordInRange_eq valid
  have enough := Nat.lt_succ_of_le (card_filter_le store.records.keys range.Bounds)
  unfold countForKeyRange getAllRecords
  rw [valid.orderedKeys_eq]
  refine ⟨?_, ?_, fun count type => ?_⟩
  · rw [searches, least_eq_head, Option.map_id, id]
  · rw [visitRange_count searches enough (fun _ => 1)]
    cases stored : store.keyValueStore with
    | none => simp [records, stored]
    | some map => simp
  · rw [visitRange_collect searches enough (fun key => [type.entry key (store.valueForKey key)])]
    · rw [List.map_take, List.map_eq_flatMap]
      rfl
    · intro key result room
      rw [List.take_of_length_le]
      exact Nat.sub_pos_of_lt room

end Answers

def oneKeyStore : MemoryObjectStore CanonicalKey := { MemoryObjectStore.create plainStore with
  keyValueStore := some (Finmap.singleton 1 none), orderedKeys := some {1} }

/-- The invalid key, which is below every other, as the upper bound. -/
def invalidBound : IDBKeyRangeData CanonicalKey := ⟨false, none, some ⟨.invalid, .invalid, rfl⟩, false, false⟩

end Odyssey.IndexedDB
