import Odyssey.Structures.PropertyTableSpec

namespace Odyssey.Structures.PropertyTable

open Containers List Option Function PropertyMapEntry

variable {K : Type} {hash : K → Nat} {table : PropertyTable K} {key : K}
  {entries : List (PropertyMapEntry K)} {deleted : List Int}

structure Holds (hash : K → Nat) (table : PropertyTable K) (entries : List (PropertyMapEntry K))
    (deleted : List Int) : Prop where
  wellFormed : table.WellFormed hash
  entries : table.entries = entries
  deleted : table.deletedOffsets = deleted

theorem Holds.keyCount (holds : table.Holds hash entries deleted) : table.keyCount = entries.length := by
  rw [holds.wellFormed.count, holds.entries]

theorem Holds.absent (holds : table.Holds hash entries deleted)
    (absent : ∀ value ∈ entries, value.key ≠ key) : table.Absent key := by
  rw [Absent, holds.entries]
  exact absent

theorem WellFormed.changeValues (wellFormed : table.WellFormed hash) {values : Nat → Option (PropertyMapEntry K)}
    (keys : ∀ number, (values number).map PropertyMapEntry.key =
      (table.values number).map PropertyMapEntry.key) : WellFormed hash { table with values := values } := by
  have lives : ∀ number, (values number).isSome = (table.values number).isSome := by
    intro number
    rw [← isSome_map, keys, isSome_map]
  have slots : slot { table with values := values } = table.slot := by
    unfold slot
    simp only [lives]
  have homes : ∀ number, home hash { table with values := values } number = table.home hash number := by
    intro number
    have hashes := congrArg (Option.map hash) (keys number)
    rw [Option.map_map, Option.map_map] at hashes
    exact congrArg (Option.getD · 0) hashes
  refine ⟨wellFormed.power, wellFormed.used, ?_, wellFormed.outside, ?_, ?_, ?_, ?_, ?_⟩
  · intro number beyond
    have none := keys number
    rw [wellFormed.unused number beyond] at none
    exact map_eq_none_iff.mp none
  · intro place number pointed
    rcases wellFormed.pointed place number pointed with isLive | isEnd
    · exact Or.inl ((lives number).trans isLive)
    · exact Or.inr isEnd
  · rw [slots]
    refine wellFormed.stores.congr ?_ (fun number _ => homes number)
    intro number
    rw [Live, Live, lives]
  · rw [slots]
    exact wellFormed.indexed
  · intro first second one two atFirst atSecond same
    have atFirst : values first = some one := atFirst
    have atSecond : values second = some two := atSecond
    have firstKey := keys first
    have secondKey := keys second
    rw [atFirst] at firstKey
    rw [atSecond] at secondKey
    obtain ⟨oldOne, storedOne, isOne⟩ := map_eq_some_iff.mp firstKey.symm
    obtain ⟨oldTwo, storedTwo, isTwo⟩ := map_eq_some_iff.mp secondKey.symm
    exact wellFormed.distinct first second oldOne oldTwo storedOne storedTwo (isOne.trans (same.trans isTwo.symm))
  · have same : (entries { table with values := values }).map key = table.entries.map key := by
      rw [entries, entries, map_filterMap, map_filterMap]
      exact filterMap_congr (fun number _ => keys number)
    have lengths := congrArg length same
    rw [length_map, length_map] at lengths
    exact wellFormed.count.trans lengths.symm

section Renumber

variable {inlineCapacity : Nat}

def numbered (inlineCapacity : Nat) : List (PropertyMapEntry K) → Nat → List (PropertyMapEntry K)
  | [], _ => []
  | value :: rest, number =>
    { value with offset := offsetForPropertyNumber number inlineCapacity } ::
      numbered inlineCapacity rest (number + 1)

theorem renumber_spec (table : PropertyTable K) {list : List Nat} (nodup : list.Nodup) (number : Nat) (offset : Int) :
    ∃ values, renumber inlineCapacity list number offset table =
        ({ table with values := values }, if list.filterMap table.values = [] then offset
          else lastOffset (number + (list.filterMap table.values).length) inlineCapacity) ∧
      (∀ other, (values other).map PropertyMapEntry.key = (table.values other).map PropertyMapEntry.key) ∧
      (∀ other ∉ list, values other = table.values other) ∧
      list.filterMap values = numbered inlineCapacity (list.filterMap table.values) number := by
  induction list generalizing table number offset with
  | nil => exact ⟨table.values, rfl, fun _ => rfl, fun _ _ => rfl, rfl⟩
  | cons entry rest ih =>
    obtain ⟨notLater, nodup⟩ := nodup_cons.mp nodup
    cases here : table.values entry with
    | none =>
      obtain ⟨values, done, keys, others, offsets⟩ := ih table nodup number offset
      refine ⟨values, ?_, keys, ?_, ?_⟩
      · rw [renumber, here, filterMap_cons_none here]
        exact done
      · intro other outside
        exact others other (fun later => outside (mem_cons_of_mem _ later))
      · rw [filterMap_cons_none ((others entry notLater).trans here), filterMap_cons_none here]
        exact offsets
    | some value =>
      have moved : ∀ other ∈ rest, update table.values entry
          (some { value with offset := offsetForPropertyNumber number inlineCapacity }) other =
            table.values other := by
        intro other later
        refine update_of_ne ?_ ..
        rintro rfl
        exact notLater later
      have same := filterMap_congr moved
      obtain ⟨values, done, keys, others, offsets⟩ := ih { table with
          values := update table.values entry
            (some { value with offset := offsetForPropertyNumber number inlineCapacity }) }
        nodup (number + 1) (offsetForPropertyNumber number inlineCapacity)
      simp only [same] at done keys others offsets
      have atEntry := others entry notLater
      rw [update_self] at atEntry
      refine ⟨values, ?_, ?_, ?_, ?_⟩
      · rw [renumber, here, filterMap_cons_some here]
        refine done.trans (congrArg (Prod.mk _) ?_)
        rw [if_neg (cons_ne_nil _ _), length_cons]
        split_ifs with last
        · rw [last]
          rfl
        · congr 1
          omega
      · intro other
        rw [keys other]
        by_cases isEntry : other = entry
        · rw [isEntry, update_self, here]
          rfl
        · rw [update_of_ne isEntry]
      · intro other outside
        rw [mem_cons, not_or] at outside
        rw [others other outside.2, update_of_ne outside.1]
      · rw [filterMap_cons_some atEntry, filterMap_cons_some here, offsets]
        rfl

variable (list : List (PropertyMapEntry K))

theorem length_numbered (number : Nat) : (numbered inlineCapacity list number).length = list.length := by
  induction list generalizing number with
  | nil => rfl
  | cons value rest ih => rw [numbered, length_cons, ih, length_cons]

theorem offsets_numbered (number : Nat) : (numbered inlineCapacity list number).map PropertyMapEntry.offset =
      (List.range' number list.length).map (offsetForPropertyNumber · inlineCapacity) := by
  induction list generalizing number with
  | nil => rfl
  | cons value rest ih =>
    rw [numbered, map_cons, ih, length_cons, range'_succ, map_cons]

theorem keys_numbered (number : Nat) :
    (numbered inlineCapacity list number).map PropertyMapEntry.key = list.map PropertyMapEntry.key := by
  induction list generalizing number with
  | nil => rfl
  | cons value rest ih =>
    rw [numbered, map_cons, ih, map_cons]

end Renumber

section Holds

variable (holds : table.Holds hash entries deleted)
include holds

theorem Holds.mapAttributes (change : BitVec 8 → BitVec 8) : (table.mapAttributes change).Holds hash
      (entries.map (fun value => { value with attributes := change value.attributes })) deleted where
  wellFormed := by
    refine holds.wellFormed.changeValues ?_
    intro number
    rw [Option.map_map]
    rfl
  entries := by
    rw [← holds.entries, PropertyTable.entries, PropertyTable.entries, map_filterMap]
    rfl
  deleted := holds.deleted

theorem Holds.addDeletedOffset (offset : Int) :
    (table.addDeletedOffset offset).Holds hash entries (deleted ++ [offset]) :=
  ⟨holds.wellFormed.setDeletedOffsets _, holds.entries, by rw [← holds.deleted]; rfl⟩

theorem Holds.clearDeletedOffsets : table.clearDeletedOffsets.Holds hash entries [] :=
  ⟨holds.wellFormed.setDeletedOffsets _, holds.entries, rfl⟩

theorem Holds.renumber :
    ∃ result, PropertyTable.renumber inlineCapacity (List.range table.usedCount) 0 invalidOffset table =
        (result, lastOffset entries.length inlineCapacity) ∧
      result.Holds hash (numbered inlineCapacity entries 0) deleted := by
  obtain ⟨values, done, keys, _, offsets⟩ := renumber_spec table (nodup_range (n := table.usedCount)) 0 invalidOffset
  have same : (range table.usedCount).filterMap table.values = entries := holds.entries
  rw [same] at done offsets
  refine ⟨{ table with values := values }, done.trans ?_, holds.wellFormed.changeValues keys, offsets, holds.deleted⟩
  cases entries with
  | nil => rfl
  | cons value rest => rw [if_neg (cons_ne_nil _ _), zero_add]

end Holds

variable {found place : Nat} {value : PropertyMapEntry K}

def clearAt (table : PropertyTable K) (found place : Nat) : PropertyTable K :=
  { table with
    index := Function.update table.index place table.deletedEntryIndex
    values := Function.update table.values found none
    keyCount := table.keyCount - 1
    deletedCount := table.deletedCount + 1 }

theorem perm_filter_key [DecidableEq K] {list : List (PropertyMapEntry K)}
    (nodup : (list.map PropertyMapEntry.key).Nodup) (member : value ∈ list) :
    list.Perm (list.filter (·.key ≠ value.key) ++ [value]) := by
  induction list with
  | nil => cases member
  | cons head rest ih =>
    rw [map_cons, nodup_cons] at nodup
    obtain ⟨notLater, nodup⟩ := nodup
    rcases mem_cons.mp member with rfl | later
    · have all : rest.filter (·.key ≠ value.key) = rest := by
        refine filter_eq_self.mpr ?_
        intro other isLater
        refine decide_eq_true ?_
        intro same
        exact notLater (same ▸ mem_map_of_mem isLater)
      rw [filter_cons_of_neg (by simp), all]
      exact (perm_append_singleton value rest).symm
    · have apart : head.key ≠ value.key := by
        intro same
        exact notLater (same ▸ mem_map_of_mem later)
      rw [filter_cons_of_pos (by simpa using apart)]
      exact (ih nodup later).cons head

section Clear

variable (wellFormed : table.WellFormed hash)
include wellFormed

theorem WellFormed.pointed_ne (within : place < table.indexSize) (atPlace : table.slot place = .full found)
    {other pointed : Nat} (number : table.index other = pointed + 1) (apart : other ≠ place) : pointed ≠ found := by
  rintro rfl
  have inside : other < table.indexSize := by
    by_contra beyond
    rw [wellFormed.outside other (Nat.le_of_not_lt beyond)] at number
    cases number
  have atOther : table.slot other = .full pointed := slot_eq_full.mpr ⟨number, (slot_eq_full.mp atPlace).2⟩
  exact apart (wellFormed.stores.once other inside place within pointed atOther atPlace)

theorem WellFormed.slot_clearAt (within : place < table.indexSize) (atPlace : table.slot place = .full found) :
    (table.clearAt found place).slot = Function.update table.slot place .deleted := by
  funext other
  by_cases same : other = place
  · subst same
    have none : (table.clearAt found other).values table.tableCapacity = none := by
      show update table.values found none table.tableCapacity = none
      by_cases isFound : table.tableCapacity = found
      · rw [isFound, update_self]
      · rw [update_of_ne isFound, wellFormed.unused _ wellFormed.used]
    have index : (table.clearAt found other).index other = table.tableCapacity + 1 := update_self ..
    rw [update_self, slot, index]
    simp only [none]
    rfl
  · rw [update_of_ne same]
    have index : (table.clearAt found place).index other = table.index other := update_of_ne same ..
    unfold slot
    rw [index]
    cases number : table.index other with
    | zero => rfl
    | succ pointed =>
      have apart := wellFormed.pointed_ne within atPlace number same
      have values : (table.clearAt found place).values pointed = table.values pointed := update_of_ne apart ..
      simp only [values]

variable (stored : table.values found = some value)
include stored

theorem WellFormed.usedCount_clearAt : (table.clearAt found place).usedCount = table.usedCount := by
  have positive : 0 < table.keyCount := by
    rw [wellFormed.count]
    exact length_pos_of_mem ((mem_entries wellFormed).mpr ⟨found, stored⟩)
  show table.keyCount - 1 + (table.deletedCount + 1) = table.keyCount + table.deletedCount
  omega

variable [DecidableEq K]

theorem WellFormed.filterMap_update (change : PropertyMapEntry K → Option (PropertyMapEntry K)) (numbers : List Nat) :
    numbers.filterMap (update table.values found (change value)) = (numbers.filterMap table.values).filterMap
      (fun other => if other.key = value.key then change other else some other) := by
  rw [filterMap_filterMap]
  refine filterMap_congr ?_
  intro number _
  by_cases isFound : number = found
  · subst isFound
    simp [stored]
  · rw [update_of_ne isFound]
    cases here : table.values number with
    | none => rfl
    | some other =>
      have apart : other.key ≠ value.key :=
        fun same => isFound (wellFormed.distinct number found other value here stored same)
      rw [bind_some, if_neg apart]

theorem WellFormed.entries_clearAt :
    (table.clearAt found place).entries = table.entries.filter (·.key ≠ value.key) := by
  rw [entries, wellFormed.usedCount_clearAt stored, ← filterMap_eq_filter]
  refine (wellFormed.filterMap_update stored (fun _ => none) _).trans (filterMap_congr fun other _ => ?_)
  by_cases same : other.key = value.key <;> simp [same, Option.guard]

theorem WellFormed.clearAt (within : place < table.indexSize)
    (atPlace : table.slot place = .full found) : (table.clearAt found place).WellFormed hash := by
  have slots := wellFormed.slot_clearAt within atPlace
  have member : value ∈ table.entries := (mem_entries wellFormed).mpr ⟨found, stored⟩
  have used : (table.clearAt found place).usedCount = table.usedCount := wellFormed.usedCount_clearAt stored
  have index : ∀ other, (table.clearAt found place).index other =
      if other = place then table.tableCapacity + 1 else table.index other :=
    fun other => update_apply ..
  have values : ∀ number, (table.clearAt found place).values number =
      if number = found then none else table.values number :=
    fun number => update_apply ..
  refine ⟨wellFormed.power, ?_, ?_, ?_, ?_, ?_, ?_, ?_, ?_⟩
  · rw [used]
    exact wellFormed.used
  · intro number beyond
    rw [used] at beyond
    rw [values, wellFormed.unused number beyond, ite_self]
  · intro other beyond
    have beyond : table.indexSize ≤ other := beyond
    rw [index, if_neg (by omega)]
    exact wellFormed.outside other beyond
  · intro other number pointed
    rw [index] at pointed
    by_cases here : other = place
    · right
      rw [if_pos here] at pointed
      exact (add_right_cancel pointed).symm
    · rw [if_neg here] at pointed
      have apart := wellFormed.pointed_ne within atPlace pointed here
      rw [Live, values, if_neg apart]
      exact wellFormed.pointed other number pointed
  · rw [slots]
    refine (wellFormed.stores.erase within atPlace).congr ?_ ?_
    · intro number
      rw [Live, values]
      by_cases isFound : number = found
      · simp [isFound]
      · simp [isFound, Live]
    · rintro number ⟨_, apart⟩
      rw [home, values, if_neg apart, home]
  · rw [slots, used, ← wellFormed.indexed]
    refine occupied_replace ?_ Slot.deleted_ne_empty
    rw [atPlace]
    exact Slot.full_ne_empty _
  · intro first second one two atFirst atSecond same
    rw [values] at atFirst atSecond
    split at atFirst
    · cases atFirst
    · split at atSecond
      · cases atSecond
      · exact wellFormed.distinct first second one two atFirst atSecond same
  · have lengths := (perm_filter_key wellFormed.nodup_keys member).length_eq
    rw [length_append, ← wellFormed.count] at lengths
    rw [wellFormed.entries_clearAt stored]
    exact Nat.sub_eq_of_eq_add lengths

end Clear

variable [DecidableEq K]

theorem WellFormed.reserve_returns (wellFormed : table.WellFormed hash) (absent : table.Absent key)
    (search : table.FindResult hash key (none, place)) :
    ∃ result free, table.reserve hash key place = some (result, free) ∧
      result.WellFormed hash ∧ result.entries = table.entries ∧
      result.deletedOffsets = table.deletedOffsets ∧ result.usedCount < result.tableCapacity ∧
      result.FindResult hash key (none, free) := by
  unfold reserve
  by_cases room : table.canInsert = true
  · rw [if_pos room]
    exact ⟨table, place, rfl, wellFormed, rfl, rfl, of_decide_eq_true room, search⟩
  · rw [if_neg room]
    obtain ⟨result, done, kept, same, offsets, large, used⟩ := wellFormed.rehash_returns (Nat.le_succ table.keyCount)
    have stillAbsent : result.Absent key := by
      rw [Absent, same]
      exact absent
    obtain ⟨free, searched, facts⟩ := kept.find_absent stillAbsent
    refine ⟨result, free, ?_, kept, same, offsets, by omega, facts⟩
    simp [done, searched]

variable (holds : table.Holds hash entries deleted)
include holds

theorem Holds.copy_returns {newCapacity : Nat} (enough : entries.length ≤ newCapacity) :
    ∃ result, table.copy hash newCapacity = some result ∧ result.Holds hash entries deleted := by
  unfold copy
  by_cases same : sizeForCapacity newCapacity = table.indexSize
  · exact ⟨table, if_pos same, holds⟩
  · rw [if_neg same]
    obtain ⟨result, done, kept, sameEntries, offsets, _⟩ := holds.wellFormed.rehash_returns (holds.keyCount ▸ enough)
    exact ⟨result, done, kept, sameEntries.trans holds.entries, offsets.trans holds.deleted⟩

theorem Holds.add_absent {entry : PropertyMapEntry K} (absent : ∀ value ∈ entries, value.key ≠ entry.key)
    (offset : Int) (offsetEffect : EffectOnPropertyOffset) :
    ∃ result, result.Holds hash (entries ++ [entry]) deleted ∧ table.add hash entry offset offsetEffect =
        match offsetEffect with
        | .propertyOffsetMayChange => some (result, max offset entry.offset)
        | .propertyOffsetMustNotChange =>
          if offset ≥ entry.offset then some (result, offset) else none := by
  obtain ⟨place, search, facts⟩ := holds.wellFormed.find_absent (holds.absent absent)
  obtain ⟨middle, free, reserved, kept, same, offsets, room, missing⟩ :=
    holds.wellFormed.reserve_returns (holds.absent absent) facts
  refine ⟨middle.insertAt free entry, ⟨?_, ?_, ?_⟩, ?_⟩
  · exact kept.insertAt room missing.2.1 missing.2.2 missing.1
  · rw [entries_insertAt, same, holds.entries]
  · exact offsets.trans holds.deleted
  · unfold add
    simp only [bind_eq_bind, search, bind_some, reserved]
    cases offsetEffect <;> rfl

theorem Holds.find_absent (absent : ∀ value ∈ entries, value.key ≠ key) :
    ∃ place, table.find hash key = some (none, place) := by
  obtain ⟨place, search, _⟩ := holds.wellFormed.find_absent (holds.absent absent)
  exact ⟨place, search⟩

theorem Holds.find_present (member : value ∈ entries) :
    ∃ found place, table.find hash value.key = some (some found, place) ∧
      table.values found = some value ∧ place < table.indexSize ∧ table.slot place = .full found := by
  rw [← holds.entries] at member
  obtain ⟨number, stored⟩ := (mem_entries holds.wellFormed).mp member
  have has := hasKey_eq_true.mpr ⟨value, stored, rfl⟩
  obtain ⟨⟨found, place⟩, search, facts⟩ := holds.wellFormed.find_returns value.key
  cases found with
  | none => exact absurd has (Bool.eq_false_iff.mp (facts.1 number))
  | some found =>
    obtain ⟨hasKey, within, slot⟩ := facts
    obtain ⟨other, atFound, same⟩ := hasKey_eq_true.mp hasKey
    obtain rfl := holds.wellFormed.distinct number found value other stored atFound same
    exact ⟨number, place, search, stored, within, slot⟩

theorem Holds.remove_present (stored : table.values found = some value)
    (within : place < table.indexSize) (atPlace : table.slot place = .full found) :
    ∃ result, table.remove hash found place = some result ∧
      result.Holds hash (entries.filter (·.key ≠ value.key)) deleted := by
  have kept := holds.wellFormed.clearAt stored within atPlace
  have same : (table.clearAt found place).entries = entries.filter (·.key ≠ value.key) := by
    rw [holds.wellFormed.entries_clearAt stored, holds.entries]
  have removed : table.remove hash found place =
      if (table.clearAt found place).deletedCount * 4 ≥ (table.clearAt found place).indexSize
      then (table.clearAt found place).rehash hash (table.clearAt found place).keyCount
      else some (table.clearAt found place) := rfl
  rw [removed]
  split
  · obtain ⟨result, done, facts, entries, offsets, _⟩ := kept.rehash_returns (le_refl _)
    exact ⟨result, done, facts, entries.trans same, offsets.trans holds.deleted⟩
  · exact ⟨_, rfl, kept, same, holds.deleted⟩

theorem Holds.get_present (member : value ∈ entries) :
    ∃ found, table.get hash value.key = some (some found) ∧ table.values found = some value := by
  obtain ⟨found, place, search, stored, _⟩ := holds.find_present member
  have positive : table.keyCount ≠ 0 := by
    rw [holds.keyCount]
    exact length_pos_of_mem member |>.ne'
  refine ⟨found, ?_, stored⟩
  rw [get, if_neg positive, search, map_some]

theorem Holds.setAttributes (stored : table.values found = some value) (attributes : BitVec 8) :
    (table.setAttributes found attributes).Holds hash (entries.map (fun other =>
        if other.key = value.key then { other with attributes := attributes } else other)) deleted where
  wellFormed := by
    refine holds.wellFormed.changeValues ?_
    intro number
    by_cases isFound : number = found
    · rw [isFound, update_self, Option.map_map]
      rfl
    · rw [update_of_ne isFound]
  entries := by
    rw [← holds.entries, ← filterMap_eq_map]
    have updated := holds.wellFormed.filterMap_update stored (fun other => some { other with attributes := attributes })
      (range table.usedCount)
    rw [PropertyTable.entries, PropertyTable.setAttributes, stored]
    refine updated.trans (filterMap_congr fun other _ => ?_)
    exact (apply_ite some ..).symm
  deleted := holds.deleted

end Odyssey.Structures.PropertyTable
