import Odyssey.IndexedDB.ObjectStoreSpec

namespace Odyssey.IndexedDB

open Containers Finset IDBKeyRangeData MemoryObjectStore

variable {K Object : Type} [IDBKeyOrder K]

/-- The bounds as `lowestKeyWithRecordInRange` reads them; a null bound does not bound. -/
def IDBKeyRangeData.Bounds (range : IDBKeyRangeData K) (key : K) : Prop :=
  (∀ lower, range.lowerKey = some lower → if range.lowerOpen then lower < key else lower ≤ key) ∧
    ∀ upper, range.upperKey = some upper → if range.upperOpen then key < upper else key ≤ upper

section Bounds

variable {opened : Bool} {bound first second : K} (le : first ≤ second)
include le

theorem above_of_le (above : if opened then bound < first else bound ≤ first) :
    if opened then bound < second else bound ≤ second := by
  cases opened with
  | true => exact lt_of_lt_of_le above le
  | false => exact le_trans above le

theorem below_of_le (below : if opened then second < bound else second ≤ bound) :
    if opened then first < bound else first ≤ bound := by
  cases opened with
  | true => exact lt_of_le_of_lt le below
  | false => exact le_trans le below

end Bounds

variable {range : IDBKeyRangeData K}

theorem IDBKeyRangeData.isExactlyOneKey_iff (one : range.isExactlyOneKey = true) :
    ∃ key, range.lowerKey = some key ∧ range.upperKey = some key ∧ range.lowerOpen = false ∧
      range.upperOpen = false := by
  unfold isExactlyOneKey at one
  split at one
  · cases one
  · rename_i closed
    simp only [Bool.or_eq_true, not_or, Bool.not_eq_true] at closed
    rcases closed with ⟨⟨⟨⟨_, lowerClosed⟩, upperClosed⟩, _⟩, lowerValid⟩
    have same : range.lowerKey = range.upperKey := of_decide_eq_true one
    cases lower : range.lowerKey with
    | none => simp [isValidKey, lower] at lowerValid
    | some key => exact ⟨key, rfl, same ▸ lower, lowerClosed, upperClosed⟩

theorem IDBKeyRangeData.isNotAbove_iff {key : K} : range.isNotAbove key = true ↔
      ∀ upper, range.upperKey = some upper → if range.upperOpen then key < upper else key ≤ upper := by
  unfold isNotAbove
  cases range.upperKey with
  | none => simp
  | some upper => cases range.upperOpen <;> simp [lt_iff_le_and_ne.symm]

theorem IDBKeyRangeData.isNotBelow_iff {key : K} : range.isNotBelow key = true ↔
      ∀ lower, range.lowerKey = some lower → if range.lowerOpen then lower < key else lower ≤ key := by
  unfold isNotBelow
  cases range.lowerKey with
  | none => simp
  | some lower => cases range.lowerOpen <;> simp [lt_iff_le_and_ne'.symm]

theorem IDBKeyRangeData.bounds_iff {key : K} :
    range.Bounds key ↔ range.isNotBelow key = true ∧ range.isNotAbove key = true := by
  rw [isNotBelow_iff, isNotAbove_iff]
  rfl

instance IDBKeyRangeData.decidableBounds : DecidablePred range.Bounds := fun _ => decidable_of_iff' _ bounds_iff

theorem IDBKeyRangeData.narrowed_bounds {first : K} (inside : range.Bounds first) {other : K} :
    ({ range with lowerKey := some first, lowerOpen := true } : IDBKeyRangeData K).Bounds other ↔
      range.Bounds other ∧ first < other := by
  constructor
  · intro beyond
    have above : first < other := by simpa using beyond.1 first rfl
    exact ⟨⟨fun lower bound => above_of_le above.le (inside.1 lower bound), beyond.2⟩, above⟩
  · rintro ⟨bounds, above⟩
    refine ⟨fun lower same => ?_, bounds.2⟩
    cases same
    exact above

theorem IDBKeyRangeData.ofKey_bounds {key other : K} : (ofKey key).Bounds other ↔ other = key := by
  simp [IDBKeyRangeData.Bounds, ofKey, le_antisymm_iff (a := other), and_comm]

namespace MemoryObjectStore

theorem WellFormed.orderedKeys_eq {store : MemoryObjectStore K} (valid : store.WellFormed) :
    store.orderedKeys.getD ∅ = store.records.keys := by
  rw [valid.tables, records]
  cases store.keyValueStore <;> rfl

theorem firstFromLower_eq (keys : Finset K) (range : IDBKeyRangeData K) :
    firstFromLower keys range = least (keys.filter (range.isNotBelow ·)) := by
  simp only [isNotBelow_iff, firstFromLower]
  cases range.lowerKey with
  | none => simp
  | some lower => cases range.lowerOpen <;> simp [upperBound, lowerBound]

theorem firstInRange_eq (keys : Finset K) (range : IDBKeyRangeData K) :
    (firstFromLower keys range).filter (range.isNotAbove ·) = least (keys.filter range.Bounds) := by
  rw [firstFromLower_eq, ← filter_least, filter_filter]
  · simp only [bounds_iff]
  · intro first _ other le above
    rw [isNotAbove_iff] at above ⊢
    exact fun upper bound => below_of_le le (above upper bound)

theorem exactlyOne_bounds {range : IDBKeyRangeData K} (one : range.isExactlyOneKey = true) :
    ∃ key, range.lowerKey = some key ∧ ∀ other, range.Bounds other ↔ other = key := by
  rcases isExactlyOneKey_iff one with ⟨key, lower, upper, lowerClosed, upperClosed⟩
  refine ⟨key, lower, ?_⟩
  intro other
  constructor
  · intro bounds
    have above : key ≤ other := by simpa [lowerClosed] using bounds.1 key lower
    have below : other ≤ key := by simpa [upperClosed] using bounds.2 key upper
    exact le_antisymm below above
  · intro same
    simp [IDBKeyRangeData.Bounds, lower, upper, lowerClosed, upperClosed, same]

theorem exactlyOne_search {range : IDBKeyRangeData K} (set : Finset K) (one : range.isExactlyOneKey = true) :
    range.lowerKey.filter (· ∈ set) = least (set.filter range.Bounds) ∧
      range.lowerKey.filter (· ∈ set) = greatest (set.filter range.Bounds) := by
  rcases exactlyOne_bounds one with ⟨key, lower, bounds⟩
  simp only [lower, bounds, filter_eq']
  by_cases member : key ∈ set <;> simp [member, least, greatest]

theorem lowestKeyWithRecordInRange_eq {store : MemoryObjectStore K} (valid : store.WellFormed)
    (range : IDBKeyRangeData K) :
    store.lowestKeyWithRecordInRange range = least (store.records.keys.filter range.Bounds) := by
  cases stored : store.keyValueStore with
  | none => simp [lowestKeyWithRecordInRange, records, stored, least]
  | some map =>
    have held : store.records = map := by simp [records, stored]
    unfold lowestKeyWithRecordInRange
    simp only [stored, valid.orderedKeys_eq, held]
    by_cases one : (range.isExactlyOneKey && range.lowerKey.any (· ∈ map.keys)) = true
    · rw [if_pos one]
      rcases Bool.and_eq_true_iff.mp one with ⟨exactly, present⟩
      rw [← (exactlyOne_search map.keys exactly).1]
      cases lower : range.lowerKey with
      | none => rfl
      | some key => exact (Option.filter_eq_some_iff.mpr ⟨rfl, by simpa [lower] using present⟩).symm
    · rw [if_neg one]
      exact firstInRange_eq map.keys range

end MemoryObjectStore

namespace StoreWrite

theorem records_eq_of_map {after before : MemoryObjectStore K} {key : K}
    (stored : after.keyValueStore = before.keyValueStore.map (·.erase key)) :
    after.records = before.records.erase key := by
  rw [records, records, stored]
  cases before.keyValueStore with
  | none =>
    apply Finmap.ext_lookup
    simp [HashMap.lookup_erase_eq]
  | some map => rfl

variable (orders : IterationOrders K) (self : StoreRef)

theorem deleteRecord_records (key : K) (state : StoreWrite K) (valid : state.store.WellFormed) :
    (deleteRecord orders self key state).store.records = state.store.records.erase key :=
  records_eq_of_map (deleteRecord_spec orders self key state valid rfl).2.2.2.1

variable {orders self} in
theorem deleteRange_invariant (invariant : StoreWrite K → Prop)
    (kept : ∀ state key, invariant state → invariant (deleteRecord orders self key state)) (range : IDBKeyRangeData K)
    {state : StoreWrite K} (start : invariant state) : invariant (deleteRange orders self range state) := by
  have loop : ∀ (fuel : Nat) (range : IDBKeyRangeData K) (state : StoreWrite K), invariant state →
      invariant (deleteKeysInRange orders self fuel range state) := by
    intro fuel
    induction fuel with
    | zero => exact fun _ _ start => start
    | succ fuel ih =>
      intro range state start
      unfold deleteKeysInRange
      cases state.store.lowestKeyWithRecordInRange range with
      | none => exact start
      | some key => exact ih _ _ (kept state key start)
  unfold deleteRange
  split
  · exact kept state _ start
  · exact loop _ range state start

theorem deleteKeysInRange_records (fuel : Nat) (range : IDBKeyRangeData K) (state : StoreWrite K)
    (valid : state.store.WellFormed) (enough : (state.store.records.keys.filter range.Bounds).card < fuel) :
    (∀ key, (deleteKeysInRange orders self fuel range state).store.records.lookup key =
      if range.Bounds key then none else state.store.records.lookup key) ∧
    ∀ more, deleteKeysInRange orders self (fuel + more) range state =
      deleteKeysInRange orders self fuel range state := by
  induction fuel generalizing range state with
  | zero => omega
  | succ fuel ih =>
    simp only [add_right_comm _ 1, deleteKeysInRange, lowestKeyWithRecordInRange_eq valid]
    cases found : least (state.store.records.keys.filter range.Bounds) with
    | none =>
      refine ⟨fun key => ?_, fun _ => rfl⟩
      by_cases bounds : range.Bounds key
      · have absent : key ∉ state.store.records.keys := fun member =>
          filter_eq_empty_iff.mp (least_eq_none.mp found) member bounds
        simp only [if_pos bounds]
        exact HashMap.not_mem_keys_iff.mp absent
      · simp only [if_neg bounds]
    | some first =>
      obtain ⟨here, lowest⟩ := least_eq_some.mp found
      have inside := (mem_filter.mp here).2
      have records := deleteRecord_records orders self first state valid
      have fewer : ((deleteRecord orders self first state).store.records.keys.filter
          ({ range with lowerKey := some first, lowerOpen := true } : IDBKeyRangeData K).Bounds) ⊆
          (state.store.records.keys.filter range.Bounds).erase first := by
        intro other remaining
        simp only [records, Finmap.keys_erase, mem_filter, mem_erase, narrowed_bounds inside] at remaining ⊢
        exact ⟨remaining.1.1, remaining.1.2, remaining.2.1⟩
      have erased := (card_le_card fewer).trans_lt (card_erase_lt_of_mem here)
      obtain ⟨gone, ended⟩ := ih _ _ (deleteRecord_spec orders self first state valid rfl).2.2.1
        (erased.trans_le (Nat.le_of_lt_succ enough))
      refine ⟨fun key => ?_, ended⟩
      rw [gone, records, HashMap.lookup_erase_eq]
      by_cases same : key = first
      · simp [same, inside]
      · by_cases present : key ∈ state.store.records.keys
        · have above (bounds : range.Bounds key) : first < key :=
            (lowest key (mem_filter.mpr ⟨present, bounds⟩)).lt_of_ne' same
          simp only [narrowed_bounds inside, and_iff_left_of_imp above, if_neg same]
        · simp [HashMap.not_mem_keys_iff.mp present]

theorem deleteRange_records (range : IDBKeyRangeData K) (state : StoreWrite K)
    (valid : state.store.WellFormed) (key : K) :
    (deleteRange orders self range state).store.records.lookup key =
      if range.Bounds key then none else state.store.records.lookup key := by
  have enough := Nat.lt_succ_of_le (card_filter_le state.store.records.keys range.Bounds)
  have loop := (deleteKeysInRange_records orders self _ range state valid enough).1 key
  rw [← valid.orderedKeys_eq] at loop
  unfold deleteRange
  split
  · rename_i only one lower
    obtain ⟨_, lower', bounds⟩ := exactlyOne_bounds one
    cases lower.symm.trans lower'
    simp only [bounds, deleteRecord_records orders self only state valid, HashMap.lookup_erase_eq]
  · exact loop

end StoreWrite

end Odyssey.IndexedDB
