import Odyssey.IndexedDB.MemoryIndexCursor
import Odyssey.IndexedDB.MemoryIndexSpec

namespace Odyssey.IndexedDB

open Containers Option Finset IndexValueEntry SetIterator IDBKeyOrder

variable {K : Type} [IDBKeyOrder K]

namespace PrimaryKeyIterator

def placedAt (unique forward : Bool) (keys : Finset K) (primaryKey : K) : PrimaryKeyIterator K :=
  if unique then .unique
  else .ordered (if forward then .forward primaryKey else .reverseAt keys primaryKey)

def following (forward : Bool) (keys : Finset K) (primaryKey : K) : Option K :=
  if forward then upperBound keys primaryKey else highestBelow keys primaryKey

variable {keys : Finset K} {key : K}

theorem following_mem {forward : Bool} {next : K} (found : following forward keys key = some next) : next ∈ keys := by
  unfold following at found
  split at found
  · exact (upperBound_eq_some.mp found).1
  · exact (highestBelow_eq_some.mp found).1

theorem get_placed (member : key ∈ keys) (forward : Bool) :
    get keys (if forward then .forward key else .reverseAt keys key) = some key := by
  cases forward with
  | true => rfl
  | false => exact get_reverseAt member

theorem next_placed (member : key ∈ keys) (forward : Bool) :
    SetIterator.next keys (if forward then .forward key else .reverseAt keys key) =
      some ((following forward keys key).map fun next => if forward then .forward next else .reverseAt keys next) := by
  cases forward with
  | true => rfl
  | false => exact next_reverseAt member

end PrimaryKeyIterator

namespace IndexValueEntry

open PrimaryKeyIterator

def firstKey (forward : Bool) (duplicity : CursorDuplicity) (keys : Finset K) : Option K :=
  if forward = true ∨ duplicity = .NoDuplicates then least keys else greatest keys

variable {entry : IndexValueEntry K}

theorem begin_eq {first : K} (lowest : least entry.primaryKeys = some first) :
    entry.begin = some (placedAt entry.isUnique true entry.primaryKeys first) := by
  cases entry with
  | unique held => rfl
  | ordered orderedKeys =>
    rw [begin, show least orderedKeys = some first from lowest]
    rfl

theorem reverseBegin_eq {duplicity : CursorDuplicity} {first : K}
    (found : firstKey false duplicity entry.primaryKeys = some first) :
    entry.reverseBegin duplicity = placedAt entry.isUnique false entry.primaryKeys first := by
  cases entry with
  | unique held => rfl
  | ordered orderedKeys =>
    cases duplicity with
    | Duplicates =>
      have last : greatest orderedKeys = some first := by simpa [firstKey, primaryKeys] using found
      simp [reverseBegin, placedAt, isUnique, primaryKeys, reverseAt_greatest last]
    | NoDuplicates =>
      have lowest : least orderedKeys = some first := by simpa [firstKey, primaryKeys] using found
      simp [reverseBegin, placedAt, isUnique, primaryKeys, lowest, reverseAt]

theorem find_ordered (plain : entry.isUnique = false) (key : K) :
    entry.find key = (lowerBound entry.primaryKeys key).map (placedAt false true entry.primaryKeys) := by
  cases entry with
  | unique held => cases plain
  | ordered orderedKeys => rfl

theorem reverseFind_ordered (plain : entry.isUnique = false) (key : K) : entry.reverseFind key =
      (highestAtMost entry.primaryKeys key).map (placedAt false false entry.primaryKeys) := by
  cases entry with
  | unique held => cases plain
  | ordered orderedKeys =>
    rw [reverseFind, primaryKeys]
    cases atMost : highestAtMost orderedKeys key with
    | none => rfl
    | some found =>
      rw [map_some, map_some, placedAt, reverseAt_highestAtMost atMost]
      rfl

theorem find_unique (unique : entry.isUnique = true) (key : K) :
    entry.find key = (if key ∈ entry.primaryKeys then some .unique else none) ∧
      entry.reverseFind key = (if key ∈ entry.primaryKeys then some .unique else none) := by
  cases entry with
  | unique held => simp [find, reverseFind, primaryKeys]
  | ordered orderedKeys => cases unique

theorem key_placedAt {primaryKey : K} (member : primaryKey ∈ entry.primaryKeys) (forward : Bool) :
    (placedAt entry.isUnique forward entry.primaryKeys primaryKey).key entry = some primaryKey := by
  cases entry with
  | unique held => exact mem_toFinset.mp member
  | ordered orderedKeys =>
    have present : primaryKey ∈ orderedKeys := member
    exact get_placed present forward

theorem next_placedAt {primaryKey : K} (member : primaryKey ∈ entry.primaryKeys) (forward : Bool) :
    (placedAt entry.isUnique forward entry.primaryKeys primaryKey).next entry =
      some ((following forward entry.primaryKeys primaryKey).map
        (placedAt entry.isUnique forward entry.primaryKeys)) := by
  cases entry with
  | unique held =>
    have only : (unique held).primaryKeys = {primaryKey} := unique_primaryKeys rfl member
    have nothing : following forward (unique held).primaryKeys primaryKey = none := by
      rw [only, following]
      split
      · exact upperBound_eq_none.mpr (fun other same => le_of_eq (mem_singleton.mp same))
      · exact highestBelow_eq_none.mpr (fun other same => le_of_eq (mem_singleton.mp same).symm)
    rw [nothing]
    rfl
  | ordered orderedKeys =>
    have present : primaryKey ∈ orderedKeys := member
    refine (congrArg (Option.map (Option.map PrimaryKeyIterator.ordered)) (next_placed present forward)).trans ?_
    rw [map_some, Option.map_map]
    rfl

end IndexValueEntry

namespace IndexValueStore

open PrimaryKeyIterator

section Records

variable (store : IndexValueStore K)

def primaryKeysOf (indexKey : K) : Finset K :=
  ((store.records.lookup indexKey).map (·.primaryKeys)).getD ∅

variable (forward : Bool) (duplicity : CursorDuplicity)

def iteratorAt (record : K × K) : IndexValueIterator K :=
  ⟨forward, duplicity, if forward then .forward record.1 else .reverseAt store.orderedKeys record.1, record.1,
    placedAt store.unique forward (store.primaryKeysOf record.1) record.2⟩

def firstRecord (indexKey : K) : Option (K × K) :=
  (IndexValueEntry.firstKey forward duplicity (store.primaryKeysOf indexKey)).map (indexKey, ·)

def nextRecord (indexKey : K) : Option (K × K) :=
  (following forward store.orderedKeys indexKey).bind (store.firstRecord forward duplicity)

def recordAfter (record : K × K) : Option (K × K) :=
  match following forward (store.primaryKeysOf record.1) record.2 with
  | some primaryKey => some (record.1, primaryKey)
  | none => store.nextRecord forward duplicity record.1

def recordFrom (record : K × K) : Option (K × K) :=
  if record.2 ∈ store.primaryKeysOf record.1 then some record
  else store.recordAfter forward duplicity record

def searched (found primaryKey : K) : Option K :=
  if store.unique = true then if primaryKey ∈ store.primaryKeysOf found then some primaryKey else none
  else if forward then lowerBound (store.primaryKeysOf found) primaryKey
  else highestAtMost (store.primaryKeysOf found) primaryKey

/-- Where a search for a primary key ends that has come to an index key. -/
def arrived (found primaryKey : K) : Option (K × K) :=
  match store.searched forward found primaryKey with
  | some other => some (found, other)
  | none => store.nextRecord forward duplicity found

end Records

variable {store : IndexValueStore K} {indexKey primaryKey key : K} {record : K × K}

theorem mem_primaryKeysOf : primaryKey ∈ store.primaryKeysOf indexKey ↔ store.Holds indexKey primaryKey := by
  unfold primaryKeysOf Holds
  cases store.records.lookup indexKey with
  | none | some entry => simp

theorem firstKey_mem {forward : Bool} {duplicity : CursorDuplicity} {keys : Finset K} {first : K}
    (found : IndexValueEntry.firstKey forward duplicity keys = some first) : first ∈ keys := by
  unfold firstKey at found
  split at found
  · exact (least_eq_some.mp found).1
  · exact (greatest_eq_some.mp found).1

theorem filter_of_true {α : Type} {found : Option α} {p : α → Bool} (passes : ∀ x, p x = true) :
    found.filter p = found := by
  cases found <;> simp [passes]

section

variable (store)

theorem lowestIteratorInRange_eq (key : K) (isOpen : Bool) :
    store.lowestIteratorInRange ⟨true, some key, none, isOpen, false⟩ =
      if isOpen then upperBound store.orderedKeys key else lowerBound store.orderedKeys key :=
  filter_of_true fun _ => rfl

theorem highestReverseIteratorInRange_eq (key : K) (isOpen : Bool) :
    store.highestReverseIteratorInRange ⟨true, none, some key, false, isOpen⟩ =
      (if isOpen then highestBelow store.orderedKeys key else highestAtMost store.orderedKeys key).map
        (fun found => (found, .reverseAt store.orderedKeys found)) := by
  have atMost : (highestAtMost store.orderedKeys key).map
        (fun found => (found, reverse (upperBound store.orderedKeys key))) =
      (highestAtMost store.orderedKeys key).map (fun found => (found, .reverseAt store.orderedKeys found)) := by
    cases found : highestAtMost store.orderedKeys key with
    | none => rfl
    | some last => rw [map_some, map_some, reverseAt_highestAtMost found]
  refine (filter_of_true fun _ => rfl).trans ?_
  rw [bind_some]
  cases isOpen with
  | false =>
    exact atMost
  | true =>
    simp only [Bool.true_and, decide_eq_true_eq, if_true]
    by_cases here : key ∈ store.orderedKeys
    · rw [if_pos (by rw [highestAtMost_eq_ite, if_pos here])]
      cases below : highestBelow store.orderedKeys key with
      | none => rfl
      | some lower => rw [map_some, map_some, reverseAt, upperBound_highestBelow here below]
    · rw [if_neg (fun same => here (highestAtMost_eq_some.mp same).1), atMost, highestAtMost_eq_ite, if_neg here]

end

section WellFormed

variable (valid : store.WellFormed) (forward : Bool) (duplicity : CursorDuplicity)
include valid

theorem WellFormed.entry (member : indexKey ∈ store.orderedKeys) :
    ∃ entry, store.records.lookup indexKey = some entry ∧ entry.isUnique = store.unique ∧
      entry.primaryKeys = store.primaryKeysOf indexKey ∧ (store.primaryKeysOf indexKey).Nonempty := by
  rw [valid.ordered] at member
  rcases HashMap.mem_keys_iff.mp member with ⟨entry, found⟩
  have keys : entry.primaryKeys = store.primaryKeysOf indexKey := by simp [primaryKeysOf, found]
  exact ⟨entry, found, valid.tagged indexKey entry found, keys, keys ▸ valid.nonempty indexKey entry found⟩

theorem WellFormed.firstKey (member : indexKey ∈ store.orderedKeys) :
    ∃ first, IndexValueEntry.firstKey forward duplicity (store.primaryKeysOf indexKey) = some first := by
  rcases valid.entry member with ⟨_, _, _, _, nonempty⟩
  apply ne_none_iff_exists'.mp
  unfold IndexValueEntry.firstKey
  split
  · exact fun nothing => nonempty.ne_empty (least_eq_none.mp nothing)
  · exact fun nothing => nonempty.ne_empty (greatest_eq_none.mp nothing)

theorem primaryKey_iteratorAt (holds : store.Holds record.1 record.2) :
    (store.iteratorAt forward duplicity record).primaryKey store = some record.2 := by
  rcases valid.entry (valid.mem_orderedKeys.mpr ⟨record.2, holds⟩) with ⟨entry, found, tag, keys, _⟩
  have member : record.2 ∈ entry.primaryKeys := keys ▸ mem_primaryKeysOf.mpr holds
  show (store.records.lookup record.1).bind
    (placedAt store.unique forward (store.primaryKeysOf record.1) record.2).key = _
  rw [found, ← tag, ← keys]
  exact key_placedAt member forward

section

variable (member : indexKey ∈ store.orderedKeys)
include member

theorem WellFormed.beginIn :
    ∃ first, IndexValueEntry.firstKey forward duplicity (store.primaryKeysOf indexKey) = some first ∧
      ∃ entry, store.records.lookup indexKey = some entry ∧ entry.beginIn forward duplicity =
        some (placedAt store.unique forward (store.primaryKeysOf indexKey) first) := by
  rcases valid.entry member with ⟨entry, found, tag, keys, _⟩
  rcases valid.firstKey forward duplicity member with ⟨first, extreme⟩
  refine ⟨first, extreme, entry, found, ?_⟩
  rw [← keys] at extreme ⊢
  rw [← tag]
  cases forward with
  | true => exact begin_eq (by simpa [IndexValueEntry.firstKey] using extreme)
  | false => exact congrArg some (reverseBegin_eq extreme)

theorem beginAt_eq : (store.beginAt indexKey).map some = some
      ((store.firstRecord true .Duplicates indexKey).map (store.iteratorAt true .Duplicates)) := by
  rcases valid.beginIn true .Duplicates member with ⟨first, lowest, entry, found, begins⟩
  rw [firstRecord, lowest, beginAt, found]
  show ((entry.beginIn true .Duplicates).bind _).map some = _
  rw [begins]
  rfl

theorem reverseBeginAt_eq :
    (store.reverseBeginAt duplicity indexKey (.reverseAt store.orderedKeys indexKey)).map some = some
      ((store.firstRecord false duplicity indexKey).map (store.iteratorAt false duplicity)) := by
  rcases valid.beginIn false duplicity member with ⟨first, extreme, entry, found, begins⟩
  rw [firstRecord, extreme, reverseBeginAt, found]
  show some (some (IndexValueIterator.mk false duplicity _ indexKey (entry.reverseBegin duplicity))) = _
  rw [show entry.reverseBegin duplicity = _ from some.inj begins]
  rfl

end

theorem find_eq (key : Option K) (isOpen : Bool) :
    store.find key isOpen = some (((if isOpen then upperBound store.orderedKeys (key.getD IDBKeyOrder.minimum)
          else lowerBound store.orderedKeys (key.getD IDBKeyOrder.minimum)).bind
        (store.firstRecord true .Duplicates)).map (store.iteratorAt true .Duplicates)) := by
  unfold find
  rw [lowestIteratorInRange_eq]
  cases found : (if isOpen then upperBound store.orderedKeys (key.getD minimum)
      else lowerBound store.orderedKeys (key.getD minimum)) with
  | none => rfl
  | some first =>
    apply beginAt_eq valid
    cases isOpen with
    | true => exact (upperBound_eq_some.mp found).1
    | false => exact (lowerBound_eq_some.mp found).1

theorem reverseFind_eq (key : Option K) (duplicity : CursorDuplicity) (isOpen : Bool) :
    store.reverseFind key duplicity isOpen = some
      (((if isOpen then highestBelow store.orderedKeys (key.getD IDBKeyOrder.maximum)
          else highestAtMost store.orderedKeys (key.getD IDBKeyOrder.maximum)).bind
        (store.firstRecord false duplicity)).map (store.iteratorAt false duplicity)) := by
  unfold reverseFind
  rw [highestReverseIteratorInRange_eq]
  cases found : (if isOpen then highestBelow store.orderedKeys (key.getD maximum)
      else highestAtMost store.orderedKeys (key.getD maximum)) with
  | none => rfl
  | some last =>
    apply reverseBeginAt_eq valid duplicity
    cases isOpen with
    | true => exact (highestBelow_eq_some.mp found).1
    | false => exact (highestAtMost_eq_some.mp found).1

theorem nextIndexEntry_eq {iterator : IndexValueIterator K} (member : key ∈ store.orderedKeys)
    (placed : iterator.keyIterator = if iterator.forward then .forward key else .reverseAt store.orderedKeys key) :
    iterator.nextIndexEntry store = some ((store.nextRecord iterator.forward iterator.duplicity key).map
      (store.iteratorAt iterator.forward iterator.duplicity)) := by
  have stepped : iterator.keyIterator.next store.orderedKeys =
      some ((following iterator.forward store.orderedKeys key).map (fun following =>
        if iterator.forward then .forward following else .reverseAt store.orderedKeys following)) := by
    rw [placed]
    exact next_placed member iterator.forward
  unfold IndexValueIterator.nextIndexEntry nextRecord
  rw [stepped]
  cases found : following iterator.forward store.orderedKeys key with
  | none => rfl
  | some following =>
    have present := following_mem found
    rcases valid.beginIn iterator.forward iterator.duplicity present with
      ⟨first, extreme, entry, looked, made⟩
    have here := get_placed present iterator.forward
    simp only [map_some, here, bind_eq_bind, bind_some, looked, made, firstRecord, extreme]
    rfl

theorem next_eq (holds : store.Holds record.1 record.2) :
    (store.iteratorAt forward duplicity record).next store = some
      ((store.recordAfter forward duplicity record).map (store.iteratorAt forward duplicity)) := by
  have member := valid.mem_orderedKeys.mpr ⟨record.2, holds⟩
  rcases valid.entry member with ⟨entry, found, tag, keys, _⟩
  have present : record.2 ∈ entry.primaryKeys := keys ▸ mem_primaryKeysOf.mpr holds
  have stepped : (store.records.lookup (store.iteratorAt forward duplicity record).entry).bind
      (store.iteratorAt forward duplicity record).primaryKeyIterator.next =
      some ((following forward (store.primaryKeysOf record.1) record.2).map
        (placedAt store.unique forward (store.primaryKeysOf record.1))) := by
    show (store.records.lookup record.1).bind
      (placedAt store.unique forward (store.primaryKeysOf record.1) record.2).next = _
    rw [found, ← tag, ← keys]
    exact next_placedAt present forward
  unfold IndexValueIterator.next recordAfter
  rw [stepped]
  cases after : following forward (store.primaryKeysOf record.1) record.2 with
  | some primaryKey => rfl
  | none => exact nextIndexEntry_eq valid member rfl

theorem WellFormed.primaryKeysOf_empty (absent : indexKey ∉ store.orderedKeys) : store.primaryKeysOf indexKey = ∅ := by
  apply eq_empty_of_forall_notMem
  intro primaryKey member
  exact absent (valid.mem_orderedKeys.mpr ⟨primaryKey, mem_primaryKeysOf.mp member⟩)

theorem recordFrom_of_absent (absent : record.1 ∉ store.orderedKeys) :
    store.recordFrom forward duplicity record = store.nextRecord forward duplicity record.1 := by
  have nothing : following forward ∅ record.2 = none := by
    unfold following
    split
    · exact upperBound_eq_none.mpr (by simp)
    · exact highestBelow_eq_none.mpr (by simp)
  rw [recordFrom, recordAfter, valid.primaryKeysOf_empty absent, nothing, if_neg (notMem_empty _)]

theorem findPrimaryKey_eq : store.findPrimaryKey key primaryKey =
    some ((store.arrived true .Duplicates key primaryKey).map (store.iteratorAt true .Duplicates)) := by
  unfold findPrimaryKey arrived
  rw [lowestIteratorInRange_eq, lowerBound_eq_ite]
  simp only [Bool.false_eq_true, if_false]
  by_cases member : key ∈ store.orderedKeys
  · rcases valid.entry member with ⟨entry, found, tag, keys, _⟩
    have search : entry.find primaryKey = (store.searched true key primaryKey).map
        (placedAt store.unique true (store.primaryKeysOf key)) := by
      unfold searched
      cases unique : store.unique with
      | true =>
        rw [(find_unique (tag.trans unique) _).1, keys]
        split <;> rfl
      | false =>
        rw [find_ordered (tag.trans unique), keys, if_neg nofun]
        rfl
    simp only [if_pos member, ne_eq, not_true_eq_false, if_false, found, bind_some, search]
    cases store.searched true key primaryKey with
    | some other => rfl
    | none =>
      simp only [nextRecord, following]
      cases above : upperBound store.orderedKeys key with
      | none => rfl
      | some following => exact beginAt_eq valid (upperBound_eq_some.mp above).1
  · have nothing : store.searched true key primaryKey = none := by
      have none_above : lowerBound (∅ : Finset K) primaryKey = none := lowerBound_eq_none.mpr (by simp)
      simp [searched, valid.primaryKeysOf_empty member, none_above]
    rw [nothing]
    simp only [if_neg member, nextRecord, following]
    cases above : upperBound store.orderedKeys key with
    | none => rfl
    | some found =>
      rcases upperBound_eq_some.mp above with ⟨present, beyond, _⟩
      simp only [ne_eq, ne_of_gt beyond]
      exact beginAt_eq valid present

theorem reverseFindPrimaryKey_at {found : K} (atMost : highestAtMost store.orderedKeys key = some found)
    (duplicity : CursorDuplicity) : store.reverseFindPrimaryKey key primaryKey duplicity =
      some ((store.arrived false duplicity found primaryKey).map (store.iteratorAt false duplicity)) := by
  have member := (highestAtMost_eq_some.mp atMost).1
  rcases valid.entry member with ⟨entry, looked, tag, keys, _⟩
  have search : entry.reverseFind primaryKey = (store.searched false found primaryKey).map
      (placedAt store.unique false (store.primaryKeysOf found)) := by
    unfold searched
    cases unique : store.unique with
    | true =>
      rw [(find_unique (tag.trans unique) _).2, keys]
      split <;> rfl
    | false =>
      rw [reverseFind_ordered (tag.trans unique), keys, if_neg nofun]
      rfl
  unfold reverseFindPrimaryKey arrived
  rw [highestReverseIteratorInRange_eq]
  simp only [Bool.false_eq_true, if_false, atMost, map_some, looked, bind_some, search]
  cases store.searched false found primaryKey with
  | some other => rfl
  | none =>
    simp only [nextRecord, following]
    cases below : highestBelow store.orderedKeys found with
    | none => rfl
    | some lower =>
      have made := reverseBeginAt_eq valid duplicity (highestBelow_eq_some.mp below).1
      rw [reverseAt, upperBound_highestBelow member below] at made
      exact made

end WellFormed

theorem reverseFindPrimaryKey_none (nothing : highestAtMost store.orderedKeys key = none) (primaryKey : K)
    (duplicity : CursorDuplicity) : store.reverseFindPrimaryKey key primaryKey duplicity = some none := by
  unfold reverseFindPrimaryKey
  rw [highestReverseIteratorInRange_eq]
  simp only [nothing]
  rfl

theorem arrived_holds {forward : Bool} {duplicity : CursorDuplicity} {found : K}
    (arrives : store.arrived forward duplicity found primaryKey = some record) :
    store.Holds record.1 record.2 ∧
      (record.1 = found ∨ following forward store.orderedKeys found = some record.1) := by
  unfold arrived at arrives
  cases searched : store.searched forward found primaryKey with
  | none =>
    rw [searched] at arrives
    rcases bind_eq_some_iff.mp arrives with ⟨key, next, first⟩
    rcases map_eq_some_iff.mp first with ⟨primaryKey, extreme, rfl⟩
    exact ⟨mem_primaryKeysOf.mp (firstKey_mem extreme), .inr next⟩
  | some other =>
    rw [searched] at arrives
    cases arrives
    refine ⟨mem_primaryKeysOf.mp ?_, .inl rfl⟩
    unfold IndexValueStore.searched at searched
    split at searched
    · split at searched
      · rename_i member
        exact some.inj searched ▸ member
      · cases searched
    · split at searched
      · exact (lowerBound_eq_some.mp searched).1
      · exact (highestAtMost_eq_some.mp searched).1

theorem arrived_eq (kept : store.unique = true → ∀ other, store.Holds key other → other ≤ primaryKey) :
    store.arrived true .Duplicates key primaryKey = store.recordFrom true .Duplicates (key, primaryKey) := by
  unfold arrived searched recordFrom
  by_cases held : primaryKey ∈ store.primaryKeysOf key
  · simp [held, lowerBound_eq_ite]
  · rw [if_neg held, if_neg held, recordAfter, following]
    cases unique : store.unique with
    | true =>
      have nothing : upperBound (store.primaryKeysOf key) primaryKey = none :=
        upperBound_eq_none.mpr (fun other present => kept unique other (mem_primaryKeysOf.mp present))
      simp [nothing]
    | false => simp [lowerBound_eq_ite, held]

def SearchesBack (store : IndexValueStore K) (key primaryKey found : K) : Prop :=
  ∀ other, store.Holds found other →
    if found = key then store.unique = true → primaryKey ≤ other
    else if store.unique = true then other = primaryKey else other ≤ primaryKey

theorem arrivedBack_eq (valid : store.WellFormed) {found : K}
    (atMost : highestAtMost store.orderedKeys key = some found) (kept : store.SearchesBack key primaryKey found) :
    store.arrived false .Duplicates found primaryKey = store.recordFrom false .Duplicates (key, primaryKey) := by
  have member := (highestAtMost_eq_some.mp atMost).1
  rcases valid.entry member with ⟨_, _, _, _, nonempty⟩
  unfold arrived searched
  by_cases same : found = key
  · subst same
    unfold recordFrom
    by_cases held : primaryKey ∈ store.primaryKeysOf found
    · simp [held, highestAtMost_eq_ite]
    · rw [if_neg held, if_neg held, recordAfter, following]
      cases unique : store.unique with
      | true =>
        have nothing : highestBelow (store.primaryKeysOf found) primaryKey = none := by
          apply highestBelow_eq_none.mpr
          intro other present
          have apart := kept other (mem_primaryKeysOf.mp present)
          rw [if_pos rfl] at apart
          exact apart unique
        simp [nothing]
      | false => simp [highestAtMost_eq_ite, held]
  · have absent : key ∉ store.orderedKeys := by
      intro present
      rw [highestAtMost_eq_ite, if_pos present] at atMost
      exact same (some.inj atMost).symm
    rw [highestAtMost_eq_ite, if_neg absent] at atMost
    have lower : store.nextRecord false .Duplicates key = (greatest (store.primaryKeysOf found)).map (found, ·) := by
      simp [nextRecord, following, atMost, firstRecord, firstKey]
    rw [recordFrom_of_absent valid false .Duplicates absent, lower]
    have kept : ∀ other ∈ store.primaryKeysOf found,
        if store.unique = true then other = primaryKey else other ≤ primaryKey := by
      intro other present
      have passed := kept other (mem_primaryKeysOf.mp present)
      rwa [if_neg same] at passed
    cases unique : store.unique with
    | true =>
      simp only [unique] at kept
      have only : store.primaryKeysOf found = {primaryKey} :=
        eq_singleton_iff_nonempty_unique_mem.mpr ⟨nonempty, kept⟩
      have last : greatest {primaryKey} = some primaryKey := greatest_eq_some.mpr (by simp)
      simp [only, last]
    | false =>
      simp only [unique, Bool.false_eq_true, if_false] at kept
      rw [highestAtMost, filter_true_of_mem kept]
      cases last : greatest (store.primaryKeysOf found) with
      | none => exact absurd (greatest_eq_none.mp last) nonempty.ne_empty
      | some other => rfl

end IndexValueStore

end Odyssey.IndexedDB
