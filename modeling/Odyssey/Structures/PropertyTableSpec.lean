import Mathlib.Data.Nat.SuccPred
import Odyssey.Structures.PropertyTable

namespace Odyssey.Structures

open Containers List Option Function Nat

theorem nextPowerOf2_toNat {v : BitVec 32} (positive : 0 < v.toNat) :
    (Arithmetic.roundUpToPowerOfTwo v).toNat = nextPowerOf2 v.toNat % 2 ^ 32 := by
  have below : (v - 1).toNat = v.toNat - 1 := by
    refine BitVec.toNat_sub_of_le (BitVec.le_def.mpr ?_)
    exact positive
  rw [Arithmetic.roundUpToPowerOfTwo_toNat, below, nextPowerOf2]

theorem le_nextPowerOf2 {v : Nat} (positive : 0 < v) : v ≤ nextPowerOf2 v := by
  have := lt_size_self (v - 1)
  unfold nextPowerOf2
  omega

theorem sizeForCapacity_power (capacity : Nat) : ∃ n, 4 ≤ n ∧ sizeForCapacity capacity = 2 ^ n := by
  unfold sizeForCapacity minimumTableSize
  split
  · exact ⟨4, le_refl 4, rfl⟩
  · refine ⟨capacity.size + 1, ?_, ?_⟩
    · have : 3 < capacity.size := lt_size.mpr (by omega)
      omega
    · rw [nextPowerOf2, Nat.add_sub_cancel, pow_succ]

theorem lt_sizeForCapacity (capacity : Nat) : capacity < sizeForCapacity capacity / 2 := by
  unfold sizeForCapacity minimumTableSize
  split
  · omega
  · have := le_nextPowerOf2 (succ_pos capacity)
    rw [Nat.mul_div_cancel _ Nat.two_pos]
    exact this

namespace PropertyTable

variable {K : Type} (table : PropertyTable K)

def slot (place : Nat) : Slot Nat :=
  match table.index place with
  | 0 => .empty
  | entry + 1 => if (table.values entry).isSome then .full entry else .deleted

def home (hash : K → Nat) (table : PropertyTable K) (entry : Nat) : Nat :=
  ((table.values entry).map (hash ·.key)).getD 0

def Live (entry : Nat) : Prop := (table.values entry).isSome = true

structure WellFormed (hash : K → Nat) (table : PropertyTable K) : Prop where
  power : ∃ n, 4 ≤ n ∧ table.indexSize = 2 ^ n
  used : table.usedCount ≤ table.tableCapacity
  unused : ∀ entry, table.usedCount ≤ entry → table.values entry = none
  outside : ∀ place, table.indexSize ≤ place → table.index place = 0
  pointed : ∀ place entry, table.index place = entry + 1 → table.Live entry ∨ entry = table.tableCapacity
  stores : Stores table.slot table.indexSize (table.home hash) table.Live
  indexed : occupied table.slot table.indexSize = table.usedCount
  distinct : ∀ first second one two, table.values first = some one → table.values second = some two →
    one.key = two.key → first = second
  count : table.keyCount = table.entries.length

variable {hash : K → Nat} {table} {key : K}

section Place

variable (wellFormed : table.WellFormed hash)
include wellFormed

theorem WellFormed.place_eq (number : Nat) : table.place number = number % table.indexSize := by
  obtain ⟨n, _, size⟩ := wellFormed.power
  rw [place, size, and_two_pow_sub_one_eq_mod]

theorem WellFormed.two_mul_capacity : 2 * table.tableCapacity = table.indexSize ∧ 0 < table.tableCapacity := by
  obtain ⟨n, large, size⟩ := wellFormed.power
  have positive := Nat.two_pow_pos (n - 1)
  have doubled : 2 ^ n = 2 * 2 ^ (n - 1) := by
    rw [← pow_succ']
    congr 1
    omega
  unfold tableCapacity
  omega

theorem WellFormed.lt_of_live {number : Nat} (lives : table.Live number) : number < table.usedCount := by
  by_contra beyond
  rw [Live, wellFormed.unused number (Nat.le_of_not_lt beyond)] at lives
  cases lives

theorem WellFormed.exists_free : ∃ free < table.indexSize, table.slot free = .empty := by
  obtain ⟨doubled, positive⟩ := wellFormed.two_mul_capacity
  have used := wellFormed.used
  have room : occupied table.slot table.indexSize < table.indexSize := by
    rw [wellFormed.indexed]
    omega
  exact exists_empty room

theorem mem_entries {value : PropertyMapEntry K} :
    value ∈ table.entries ↔ ∃ entry, table.values entry = some value := by
  rw [entries, mem_filterMap]
  constructor
  · rintro ⟨entry, _, stored⟩
    exact ⟨entry, stored⟩
  · rintro ⟨entry, stored⟩
    have lives : table.Live entry := by
      rw [Live, stored]
      rfl
    exact ⟨entry, mem_range.mpr (wellFormed.lt_of_live lives), stored⟩

end Place

theorem usedCount_insertAt (table : PropertyTable K) (place : Nat) (entry : PropertyMapEntry K) :
    (table.insertAt place entry).usedCount = table.usedCount + 1 :=
  add_right_comm _ _ _

theorem entries_insertAt (table : PropertyTable K) (place : Nat) (entry : PropertyMapEntry K) :
    (table.insertAt place entry).entries = table.entries ++ [entry] := by
  rw [entries, usedCount_insertAt, range_succ, filterMap_append]
  congr 1
  · refine filterMap_congr ?_
    intro number inside
    exact update_of_ne (Nat.ne_of_lt (mem_range.mp inside)) ..
  · simp [insertAt]

theorem WellFormed.slot_insertAt {place : Nat} {entry : PropertyMapEntry K}
    (wellFormed : table.WellFormed hash) (room : table.usedCount < table.tableCapacity) :
    (table.insertAt place entry).slot = Function.update table.slot place (.full table.usedCount) := by
  funext other
  unfold slot insertAt
  by_cases same : other = place
  · subst same
    simp
  · simp only [update_of_ne same]
    cases number : table.index other with
    | zero => rfl
    | succ pointed =>
      have apart : pointed ≠ table.usedCount := by
        rcases wellFormed.pointed other pointed number with lives | isEnd
        · have := wellFormed.lt_of_live lives
          omega
        · omega
      simp only [update_of_ne apart]

theorem slot_eq_full {place entry : Nat} :
    table.slot place = .full entry ↔ table.index place = entry + 1 ∧ table.Live entry := by
  unfold slot Live
  cases table.index place with
  | zero => simp
  | succ number => by_cases lives : (table.values number).isSome = true <;> grind

theorem slot_eq_empty {place : Nat} : table.slot place = .empty ↔ table.index place = 0 := by
  unfold slot
  cases table.index place with
  | zero => simp
  | succ number => by_cases lives : (table.values number).isSome = true <;> simp [lives]

theorem WellFormed.setDeletedOffsets (wellFormed : table.WellFormed hash) (offsets : List Int) :
    WellFormed hash { table with deletedOffsets := offsets } :=
  ⟨wellFormed.power, wellFormed.used, wellFormed.unused, wellFormed.outside, wellFormed.pointed, wellFormed.stores,
    wellFormed.indexed, wellFormed.distinct, wellFormed.count⟩

theorem wellFormed_create (capacity : Nat) : (create capacity : PropertyTable K).WellFormed hash where
  power := sizeForCapacity_power capacity
  used := zero_le _
  unused := fun _ _ => rfl
  outside := fun _ _ => rfl
  pointed := fun _ _ impossible => nomatch impossible
  stores := by
    have fresh : Stores (fun _ => .empty) (sizeForCapacity capacity)
        ((create capacity : PropertyTable K).home hash) (fun _ => False) := .of_none (fun _ _ _ => nofun)
    exact fresh.congr (fun _ => iff_of_false Bool.false_ne_true id) (fun _ _ => rfl)
  indexed := occupied_fresh _
  distinct := fun _ _ _ _ impossible => nomatch impossible
  count := rfl

theorem WellFormed.nodup_keys (wellFormed : table.WellFormed hash) :
    (table.entries.map PropertyMapEntry.key).Nodup := by
  rw [entries, map_filterMap]
  refine nodup_range.filterMap ?_
  intro first second key atFirst atSecond
  obtain ⟨one, storedOne, isOne⟩ := mem_map.mp atFirst
  obtain ⟨two, storedTwo, isTwo⟩ := mem_map.mp atSecond
  exact wellFormed.distinct first second one two storedOne storedTwo (isOne.trans isTwo.symm)

variable [DecidableEq K]

theorem stops_slot (table : PropertyTable K) (key : K) (place : Nat) : (table.slot place).stops (table.hasKey key) =
      (table.index place == 0 || table.hasKey key (table.index place - 1)) := by
  unfold slot
  cases number : table.index place with
  | zero => rfl
  | succ entry =>
    by_cases lives : (table.values entry).isSome = true
    · simp [lives, Slot.stops]
    · rw [Bool.not_eq_true, isSome_eq_false_iff, isNone_iff_eq_none] at lives
      simp [lives, Slot.stops, hasKey]

theorem hasKey_eq_true {entry : Nat} :
    table.hasKey key entry = true ↔ ∃ value, table.values entry = some value ∧ key = value.key := by
  rw [hasKey, Option.any_eq_true]
  simp

theorem hasKey_live {entry : Nat} (has : table.hasKey key entry = true) : table.Live entry := by
  obtain ⟨value, stored, _⟩ := hasKey_eq_true.mp has
  rw [Live, stored]
  rfl

theorem home_of_hasKey {entry : Nat} (has : table.hasKey key entry = true) : table.home hash entry = hash key := by
  obtain ⟨value, stored, same⟩ := hasKey_eq_true.mp has
  rw [home, stored, same]
  rfl

def FindResult (hash : K → Nat) (table : PropertyTable K) (key : K) : Option Nat × Nat → Prop
  | (some entry, place) => table.hasKey key entry = true ∧ place < table.indexSize ∧
      table.slot place = .full entry
  | (none, place) => (∀ entry, table.hasKey key entry = false) ∧ table.slot place = .empty ∧
      OnPath table.slot table.indexSize (hash key) place

theorem WellFormed.find_returns (wellFormed : table.WellFormed hash) (key : K) :
    ∃ result, table.find hash key = some result ∧ table.FindResult hash key result := by
  obtain ⟨free, within, empty⟩ := wellFormed.exists_free
  have walks : ∀ n, table.place ((· + 1)^[n] (hash key)) = (hash key + n) % table.indexSize := by
    intro n
    rw [Nat.succ_iterate, wellFormed.place_eq]
  have stops := fun number => (table.stops_slot key (table.place number)).symm
  obtain ⟨last, found⟩ := firstStop_of_empty walks stops within empty
  have ends := ProbeEnds.of_firstStop walks stops found
  refine ⟨_, bind_eq_some_iff.mpr ⟨last, found, rfl⟩, ?_⟩
  rcases ends.cases with ⟨entry, stored, has⟩ | empty
  · rw [(slot_eq_full.mp stored).1]
    exact ⟨has, ends.onPath.lt, stored⟩
  · rw [slot_eq_empty.mp empty]
    refine ⟨?_, empty, ends.onPath⟩
    exact wellFormed.stores.absent (fun _ has => ⟨hasKey_live has, home_of_hasKey has⟩) ends empty

section Insert

variable {place : Nat} {entry : PropertyMapEntry K}

theorem WellFormed.insertAt (wellFormed : table.WellFormed hash) (room : table.usedCount < table.tableCapacity)
    (free : table.slot place = .empty) (path : OnPath table.slot table.indexSize (hash entry.key) place)
    (fresh : ∀ number, table.hasKey entry.key number = false) : (table.insertAt place entry).WellFormed hash := by
  have slots : (table.insertAt place entry).slot =
      update table.slot place (.full table.usedCount) := wellFormed.slot_insertAt room
  have index : ∀ other, (table.insertAt place entry).index other =
      if other = place then table.usedCount + 1 else table.index other :=
    fun other => update_apply ..
  have values : ∀ number, (table.insertAt place entry).values number =
      if number = table.usedCount then some entry else table.values number :=
    fun number => update_apply ..
  have used := table.usedCount_insertAt place entry
  have notLive : ¬table.Live table.usedCount := by
    intro lives
    exact absurd (wellFormed.lt_of_live lives) (lt_irrefl _)
  have new : ∀ number value, table.values number = some value → value.key ≠ entry.key := by
    intro number value stored same
    have has := hasKey_eq_true.mpr ⟨value, stored, same.symm⟩
    rw [fresh number] at has
    cases has
  have homes : ∀ number, table.Live number →
      (table.insertAt place entry).home hash number = table.home hash number := by
    intro number lives
    have := wellFormed.lt_of_live lives
    rw [home, values, if_neg (by omega), home]
  have newHome : (table.insertAt place entry).home hash table.usedCount = hash entry.key := by
    rw [home, values, if_pos rfl]
    rfl
  refine ⟨wellFormed.power, ?_, ?_, ?_, ?_, ?_, ?_, ?_, ?_⟩
  · rw [used]
    exact room
  · intro number beyond
    rw [values, if_neg (by omega)]
    exact wellFormed.unused number (by omega)
  · intro other beyond
    have beyond : table.indexSize ≤ other := beyond
    have := path.lt
    rw [index, if_neg (by omega)]
    exact wellFormed.outside other beyond
  · intro other number pointed
    rw [index] at pointed
    rw [Live, values]
    by_cases here : other = place
    · left
      rw [if_pos here] at pointed
      rw [if_pos (by omega)]
      rfl
    · rw [if_neg here] at pointed
      rcases wellFormed.pointed other number pointed with lives | isEnd
      · left
        have := wellFormed.lt_of_live lives
        rw [if_neg (by omega)]
        exact lives
      · exact Or.inr isEnd
  · rw [slots]
    have moved := wellFormed.stores.congr (fun _ => Iff.rfl) homes
    refine (moved.fill free (newHome ▸ path) notLive).congr ?_ (fun _ _ => rfl)
    intro number
    rw [Live, values]
    by_cases isNew : number = table.usedCount
    · simp [isNew]
    · simp [isNew, Live]
  · rw [slots, used, ← wellFormed.indexed]
    exact occupied_fill path.lt free (Slot.full_ne_empty _)
  · refine distinct_fill wellFormed.distinct values ?_
    intro number value stored
    exact ⟨(new number value stored).symm, new number value stored⟩
  · rw [entries_insertAt, length_append, ← wellFormed.count]
    rfl

end Insert

def Absent (table : PropertyTable K) (key : K) : Prop := ∀ value ∈ table.entries, value.key ≠ key

variable (wellFormed : table.WellFormed hash)
include wellFormed

theorem WellFormed.not_hasKey (absent : table.Absent key) (number : Nat) : table.hasKey key number = false := by
  rw [Bool.eq_false_iff]
  intro has
  obtain ⟨value, stored, same⟩ := hasKey_eq_true.mp has
  exact absent value ((mem_entries wellFormed).mpr ⟨number, stored⟩) same.symm

theorem WellFormed.find_absent (absent : table.Absent key) :
    ∃ place, table.find hash key = some (none, place) ∧ table.FindResult hash key (none, place) := by
  obtain ⟨⟨found, place⟩, search, facts⟩ := wellFormed.find_returns key
  cases found with
  | some number =>
    exact absurd facts.1 (Bool.eq_false_iff.mp (wellFormed.not_hasKey absent number))
  | none => exact ⟨place, search, facts⟩

theorem WellFormed.reinsert_returns {entry : PropertyMapEntry K} (room : table.usedCount < table.tableCapacity)
    (absent : table.Absent entry.key) :
    ∃ place, table.reinsert hash entry = some (table.insertAt place entry) ∧
      (table.insertAt place entry).WellFormed hash := by
  obtain ⟨place, search, fresh, free, path⟩ := wellFormed.find_absent absent
  exact ⟨place, bind_eq_some_iff.mpr ⟨_, search, rfl⟩, wellFormed.insertAt room free path fresh⟩

theorem WellFormed.reinsert_all
    {list : List (PropertyMapEntry K)} (room : table.usedCount + list.length ≤ table.tableCapacity)
    (nodup : ((table.entries ++ list).map PropertyMapEntry.key).Nodup) :
    ∃ result, list.foldlM (reinsert hash) table = some result ∧ result.WellFormed hash ∧
      result.entries = table.entries ++ list ∧ result.indexSize = table.indexSize ∧
      result.deletedCount = table.deletedCount ∧ result.deletedOffsets = table.deletedOffsets := by
  induction list generalizing table with
  | nil => exact ⟨table, rfl, wellFormed, (append_nil _).symm, rfl, rfl, rfl⟩
  | cons entry list ih =>
    rw [length_cons] at room
    have absent : table.Absent entry.key := by
      intro value member same
      rw [map_append, nodup_append] at nodup
      exact nodup.2.2 value.key (mem_map_of_mem member) entry.key mem_cons_self same
    obtain ⟨place, inserted, kept⟩ := wellFormed.reinsert_returns (by omega) absent
    have used := table.usedCount_insertAt place entry
    have capacity : (table.insertAt place entry).tableCapacity = table.tableCapacity := rfl
    have keys : (((table.insertAt place entry).entries ++ list).map PropertyMapEntry.key).Nodup := by
      rw [entries_insertAt, append_assoc]
      exact nodup
    obtain ⟨result, done, facts, same, rest⟩ := ih kept (by omega) keys
    refine ⟨result, ?_, facts, ?_, rest⟩
    · rw [foldlM_cons, inserted]
      exact done
    · rw [same, entries_insertAt, append_assoc]
      rfl

theorem WellFormed.reinsert_part {newCapacity : Nat} (enough : table.keyCount ≤ newCapacity)
    {part : List (PropertyMapEntry K)} (isPart : part <+: table.entries) :
    ∃ result, part.foldlM (reinsert hash)
        { create newCapacity with deletedOffsets := table.deletedOffsets } = some result ∧
      result.WellFormed hash ∧ result.entries = part ∧ result.deletedOffsets = table.deletedOffsets ∧
      newCapacity < result.tableCapacity ∧ result.usedCount = part.length := by
  have large := lt_sizeForCapacity newCapacity
  have fresh : WellFormed hash
      { (create newCapacity : PropertyTable K) with deletedOffsets := table.deletedOffsets } :=
    (wellFormed_create newCapacity).setDeletedOffsets _
  have shorter := isPart.length_le
  have room : 0 + part.length ≤ sizeForCapacity newCapacity / 2 := by
    rw [← wellFormed.count] at shorter
    omega
  obtain ⟨result, done, kept, same, size, deleted, offsets⟩ :=
    fresh.reinsert_all room (wellFormed.nodup_keys.sublist (isPart.sublist.map _))
  refine ⟨result, done, kept, same, offsets, ?_, ?_⟩
  · rw [tableCapacity, size]
    exact large
  · rw [usedCount, deleted, kept.count, same]
    rfl

theorem WellFormed.rehash_returns {newCapacity : Nat} (enough : table.keyCount ≤ newCapacity) :
    ∃ result, table.rehash hash newCapacity = some result ∧ result.WellFormed hash ∧
      result.entries = table.entries ∧ result.deletedOffsets = table.deletedOffsets ∧
      newCapacity < result.tableCapacity ∧ result.usedCount = table.keyCount := by
  rw [wellFormed.count]
  exact wellFormed.reinsert_part enough prefix_rfl

end PropertyTable

end Odyssey.Structures
