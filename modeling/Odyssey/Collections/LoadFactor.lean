import Odyssey.Collections.MapOperations

namespace Odyssey.Collections

open Containers List Option Nat

/-- The bound under which no product of the resize policy overflows. -/
def entryLimit : Nat := 2 ^ 28

theorem nextCapacity_room {capacity keyCount : BitVec 32}
    (small : keyCount.toNat ≤ entryLimit) (below : keyCount.toNat < capacity.toNat) :
    ∃ next, nextCapacity capacity keyCount = some next ∧ 2 * keyCount.toNat < next.toNat := by
  have eight : (8 * keyCount).toNat = 8 * keyCount.toNat := by
    unfold entryLimit at small
    exact mod_eq_of_lt (show 8 * keyCount.toNat < 2 ^ 32 by omega)
  have three : (3 * keyCount).toNat = 3 * keyCount.toNat := by
    exact mod_eq_of_lt (show 3 * keyCount.toNat < 2 ^ 32 by omega)
  have shrinks : shouldShrink capacity keyCount = true ↔
      8 * keyCount.toNat ≤ capacity.toNat ∧ 4 < capacity.toNat := by
    rw [shouldShrink, Bool.and_eq_true, decide_eq_true_iff, decide_eq_true_iff, BitVec.le_def, eight]
    rfl
  have stays : (decide (3 * keyCount ≤ capacity) && decide (capacity > 64)) = true ↔
      3 * keyCount.toNat ≤ capacity.toNat ∧ 64 < capacity.toNat := by
    rw [Bool.and_eq_true, decide_eq_true_iff, decide_eq_true_iff, BitVec.le_def, three]
    rfl
  unfold nextCapacity
  by_cases shrink : shouldShrink capacity keyCount = true
  · rw [if_pos shrink]
    obtain ⟨few, above⟩ := shrinks.mp shrink
    refine ⟨_, rfl, ?_⟩
    show 2 * keyCount.toNat < capacity.toNat / 2
    omega
  · rw [if_neg shrink]
    by_cases stay : (decide (3 * keyCount ≤ capacity) && decide (capacity > 64)) = true
    · rw [if_pos stay]
      obtain ⟨third, _⟩ := stays.mp stay
      exact ⟨capacity, rfl, by omega⟩
    · rw [if_neg stay]
      rw [stays] at stay
      have fits : capacity.toNat * 2 < 2 ^ 32 := by
        omega
      refine ⟨_, if_pos fits, ?_⟩
      show 2 * keyCount.toNat < capacity.toNat * 2 % 2 ^ 32
      omega

namespace HashMapImpl

variable {K V : Type} {traits : KeyTraits K} {map result : HashMapImpl K V} {key : K} {value : Option V}
  {stray : Nat}

/-- The counts of the entries and of the marks, but for a stray mark that is not counted: at most one, so
    that there is still an empty place. -/
structure Loaded (stray : Nat) (map : HashMapImpl K V) : Prop where
  keyCount : map.keyCount.toNat = (map.liveFrom 0).length
  occupied : occupied map.buffer map.capacity.toNat ≤ map.keyCount.toNat + map.deleteCount.toNat + stray
  load : 2 * (map.keyCount.toNat + map.deleteCount.toNat) < map.capacity.toNat
  single : stray ≤ 1

theorem Linked.map_record (linked : map.Linked) :
    (map.liveFrom 0).map map.record = map.records.reduceOption.map some := by
  have first : map.liveFrom 0 = map.liveFrom 1 := by
    refine liveFrom_skip (zero_le 1) linked.nonempty ?_
    intro other lives _
    exact (linked.within other lives).1
  have live : map.liveFrom 1 = (range' 1 (map.tail - 1)).filter (fun bucket => (map.record bucket).isSome) := by
    refine filter_congr ?_
    intro bucket _
    rw [Bool.eq_iff_iff, decide_eq_true_iff, record_isSome]
  rw [first, live, map_filter_isSome, records, reduceOption, filterMap_map, Function.id_comp]

theorem Linked.length_entries (linked : map.Linked) : map.records.reduceOption.length = (map.liveFrom 0).length := by
  have lengths := congrArg length linked.map_record
  rw [length_map, length_map] at lengths
  exact lengths.symm

theorem Loaded.rehash (loaded : map.keyCount.toNat = (map.liveFrom 0).length) (coherent : Coherent traits map)
    (single : stray ≤ 1) (small : map.keyCount.toNat ≤ entryLimit)
    (below : map.keyCount.toNat < map.capacity.toNat) :
    ∃ next, map.rehash traits = some next ∧ next.Loaded stray := by
  obtain ⟨capacity, isNext, room⟩ := nextCapacity_room small below
  obtain ⟨next, done⟩ : ∃ next, map.rehash traits = some next :=
    coherent.linked.rehash_returns isNext (nextCapacity_sized coherent.hashed.sized isNext) (by omega)
  refine ⟨next, done, ?_⟩
  obtain ⟨_, buckets, _, tail, _, keyCount, deleteCount, isCapacity, occupied⟩ :=
    coherent.hashed.rehash coherent.linked done
  obtain rfl := some.inj (isNext.symm.trans isCapacity)
  have sameList : next.liveFrom 0 = map.liveFrom 0 := by
    refine liveFrom_congr tail ?_
    intro bucket
    rw [Live, buckets, Live]
  refine ⟨?_, ?_, ?_, single⟩
  · rw [keyCount, sameList, loaded]
  · rw [occupied, keyCount, loaded]
    omega
  · rw [keyCount, deleteCount]
    exact room

theorem unlink_length {index impl : Nat} (linked : map.Linked) (lives : map.Live impl)
    (unlinked : map.unlink index impl = some result) : (result.liveFrom 0).length + 1 = (map.liveFrom 0).length := by
  have tail : result.tail = map.tail := by
    obtain ⟨_, _, _, _, rfl⟩ := unlink_eq_some.mp unlinked
    rfl
  have member : impl ∈ map.liveFrom 0 := mem_liveFrom.mpr ⟨Nat.zero_le _, (linked.within impl lives).2, lives⟩
  have nodup : (map.liveFrom 0).Nodup := List.Nodup.filter _ nodup_range'
  have erased : result.liveFrom 0 = (map.liveFrom 0).erase impl := by
    rw [nodup.erase_eq_filter]
    unfold liveFrom
    rw [List.filter_filter, tail]
    refine filter_congr ?_
    intro bucket _
    rw [Bool.eq_iff_iff, Bool.and_eq_true, decide_eq_true_iff, decide_eq_true_iff, bne_iff_ne,
      unlink_live unlinked, and_comm]
  rw [erased, length_erase_of_mem member]
  exact Nat.sub_add_cancel (length_pos_of_mem member)

theorem Loaded.unlink {index impl : Nat} (loaded : map.Loaded stray) (linked : map.Linked)
    (stored : map.buffer index = .full impl) (lives : map.Live impl) (unlinked : map.unlink index impl = some result) :
    result.Loaded stray ∧ result.keyCount.toNat + 1 = map.keyCount.toNat := by
  have count := unlink_length linked lives unlinked
  have load := loaded.load
  have keyCount := loaded.keyCount
  obtain ⟨_, _, _, _, rfl⟩ := unlink_eq_some.mp unlinked
  have fewer : (map.keyCount - 1).toNat = map.keyCount.toNat - 1 := by
    refine BitVec.toNat_sub_of_le (BitVec.le_def.mpr ?_)
    show 1 ≤ map.keyCount.toNat
    omega
  have more : (map.deleteCount + 1).toNat = map.deleteCount.toNat + 1 := by
    exact mod_eq_of_lt (show map.deleteCount.toNat + 1 < 2 ^ 32 by omega)
  refine ⟨⟨?_, ?_, ?_, loaded.single⟩, ?_⟩
  · exact fewer.trans (by omega)
  · have taken : map.buffer index ≠ .empty := stored ▸ Slot.full_ne_empty impl
    refine (occupied_replace taken Slot.deleted_ne_empty).trans_le ?_
    change Containers.occupied map.buffer map.capacity.toNat ≤
      (map.keyCount - 1).toNat + (map.deleteCount + 1).toNat + stray
    have := loaded.occupied
    omega
  · change 2 * ((map.keyCount - 1).toNat + (map.deleteCount + 1).toNat) < map.capacity.toNat
    omega
  · change (map.keyCount - 1).toNat + 1 = map.keyCount.toNat
    omega

section Loaded

variable (loaded : map.Loaded stray)
include loaded

theorem Loaded.exists_empty (sized : Sized map.capacity) :
    ∃ index < map.capacity.toNat, map.buffer index = .empty := by
  refine Containers.exists_empty ?_
  have load := loaded.load
  have occupied := loaded.occupied
  have single := loaded.single
  have large := sized.four_le
  omega

theorem Loaded.probe_returns (sized : Sized map.capacity) (canUseBucket : Nat → Bool) (hash : BitVec 32) :
    ∃ index, probe map.buffer map.capacity canUseBucket hash = some index := by
  obtain ⟨free, within, empty⟩ := loaded.exists_empty sized
  exact Collections.probe_returns sized within empty hash

variable (coherent : Coherent traits map)
include coherent

theorem Loaded.addNormalizedInternal (added : map.Inserts traits key value result) :
    result.keyCount.toNat = (result.liveFrom 0).length ∧ result.keyCount.toNat ≤ map.keyCount.toNat + 1 ∧
      Containers.occupied result.buffer result.capacity.toNat ≤
        result.keyCount.toNat + result.deleteCount.toNat + stray ∧
      2 * (result.keyCount.toNat + result.deleteCount.toNat) < result.capacity.toNat + 2 := by
  have load := loaded.load
  have bounded := coherent.hashed.sized.le
  rcases addNormalizedInternal_cases coherent added with ⟨bucket, _, rfl⟩ | ⟨index, free, path, _, rfl⟩
  · have sameList : (map.write bucket (·.setValue value)).liveFrom 0 = map.liveFrom 0 := by
      refine liveFrom_congr rfl ?_
      intro other
      rw [Live, (write_setValue_links map bucket other value).2.2, Live]
    refine ⟨?_, Nat.le_succ _, loaded.occupied, Nat.lt_add_right 2 load⟩
    rw [sameList]
    exact loaded.keyCount
  · have count : ((map.append index (traits.normalizeMapKey key) value).liveFrom 0).length =
        (map.liveFrom 0).length + 1 := by
      rw [← (coherent.linked.append index _ value).length_entries, ← coherent.linked.length_entries,
        records_append coherent.linked, reduceOption_append, length_append]
      rfl
    have grown : (map.keyCount + 1).toNat = map.keyCount.toNat + 1 := by
      exact mod_eq_of_lt (show map.keyCount.toNat + 1 < 2 ^ 32 by omega)
    have filled := occupied_fill path.lt free (Slot.full_ne_empty map.tail)
    refine ⟨?_, grown.le, ?_, ?_⟩
    · rw [count, ← loaded.keyCount]
      exact grown
    · refine filled.trans_le ?_
      change Containers.occupied map.buffer map.capacity.toNat + 1 ≤
        (map.keyCount + 1).toNat + map.deleteCount.toNat + stray
      have := loaded.occupied
      omega
    · change 2 * ((map.keyCount + 1).toNat + map.deleteCount.toNat) < map.capacity.toNat + 2
      omega

theorem Loaded.add (key : K) (value : Option V) (small : map.records.reduceOption.length < entryLimit) :
    ∃ result, map.add traits key value = some result ∧ result.Loaded stray := by
  obtain ⟨index, probed⟩ := loaded.probe_returns coherent.hashed.sized
    (map.hasKey traits (traits.normalizeMapKey key)) (traits.jsMapHash (traits.normalizeMapKey key))
  obtain ⟨middle, inserted⟩ : ∃ middle, map.Inserts traits key value middle := by
    rcases coherent.hashed.probe_cases probed with ⟨bucket, slot, _⟩ | ⟨slot, _⟩ <;>
      exact ⟨_, bind_eq_some_iff.mpr ⟨index, probed, by rw [slot]⟩⟩
  have kept := coherent.addNormalizedInternal inserted
  rw [coherent.linked.length_entries, ← loaded.keyCount] at small
  obtain ⟨keyCount, more, occupied, load⟩ := loaded.addNormalizedInternal coherent inserted
  have large := kept.hashed.sized.four_le
  have bounded : middle.capacity.toNat ≤ 2 ^ 31 := kept.hashed.sized.le
  have doubled : (2 * (middle.keyCount + middle.deleteCount)).toNat =
      2 * (middle.keyCount.toNat + middle.deleteCount.toNat) := by
    show 2 * ((middle.keyCount.toNat + middle.deleteCount.toNat) % 2 ^ 32) % 2 ^ 32 = _
    omega
  have rehashes : shouldRehashAfterAdd middle.capacity middle.keyCount middle.deleteCount = true ↔
      middle.capacity.toNat ≤ 2 * (middle.keyCount.toNat + middle.deleteCount.toNat) := by
    rw [shouldRehashAfterAdd, decide_eq_true_iff, ge_iff_le, BitVec.le_def, doubled]
  by_cases full : shouldRehashAfterAdd middle.capacity middle.keyCount middle.deleteCount = true
  · obtain ⟨next, done, nextLoaded⟩ := rehash keyCount kept loaded.single (more.trans small) (by omega)
    refine ⟨next, bind_eq_some_iff.mpr ⟨middle, inserted, ?_⟩, nextLoaded⟩
    rw [if_pos full]
    exact done
  · refine ⟨middle, bind_eq_some_iff.mpr ⟨middle, inserted, if_neg full⟩, keyCount, occupied, ?_, loaded.single⟩
    rw [rehashes] at full
    omega

theorem Loaded.findBucket (key : K) : ∃ found, map.findBucket traits key = some found := by
  obtain ⟨index, probed⟩ := loaded.probe_returns coherent.hashed.sized
    (map.hasKey traits (traits.normalizeMapKey key)) (traits.jsMapHash (traits.normalizeMapKey key))
  rcases coherent.hashed.probe_cases probed with ⟨bucket, slot, _⟩ | ⟨slot, _⟩ <;>
    exact ⟨_, bind_eq_some_iff.mpr ⟨index, probed, by rw [slot]⟩⟩

theorem Loaded.remove (key : K) (small : map.records.reduceOption.length < entryLimit) :
    ∃ result removed, map.remove traits key = some (result, removed) ∧ result.Loaded stray := by
  rw [coherent.linked.length_entries] at small
  obtain ⟨found, search⟩ := loaded.findBucket coherent key
  have facts := findBucket_eq_some coherent search
  rcases found with _ | ⟨index, impl⟩
  · exact ⟨map, false, bind_eq_some_iff.mpr ⟨none, search, rfl⟩, loaded⟩
  · obtain ⟨within, stored, has⟩ := facts
    have lives := hasKey_live has
    obtain ⟨middle, unlinked⟩ := coherent.linked.unlink_returns lives index
    have kept : Coherent traits middle :=
      ⟨coherent.linked.unlink lives unlinked, coherent.hashed.unlink within stored unlinked⟩
    obtain ⟨middleLoaded, fewer⟩ := loaded.unlink coherent.linked stored lives unlinked
    by_cases shrink : shouldShrink middle.capacity middle.keyCount = true
    · have keyCount := loaded.keyCount
      have load := middleLoaded.load
      obtain ⟨next, rehashed, nextLoaded⟩ := rehash middleLoaded.keyCount kept loaded.single (by omega) (by omega)
      refine ⟨next, true, bind_eq_some_iff.mpr ⟨some (index, impl), search, ?_⟩, nextLoaded⟩
      refine bind_eq_some_iff.mpr ⟨middle, unlinked, ?_⟩
      rw [if_pos shrink]
      exact bind_eq_some_iff.mpr ⟨next, rehashed, rfl⟩
    · refine ⟨middle, true, bind_eq_some_iff.mpr ⟨some (index, impl), search, ?_⟩, middleLoaded⟩
      exact bind_eq_some_iff.mpr ⟨middle, unlinked, if_neg shrink⟩

end Loaded

theorem Loaded.of_none (single : stray ≤ 1)
    (free : Containers.occupied map.buffer map.capacity.toNat ≤ stray) (keyCount : map.keyCount = 0)
    (deleteCount : map.deleteCount = 0) (sized : Sized map.capacity)
    (none : ∀ bucket, (map.buckets bucket).key = none) : map.Loaded stray := by
  have large := sized.four_le
  have empty : map.liveFrom 0 = [] := by
    rw [eq_nil_iff_forall_not_mem]
    intro bucket member
    exact not_live_iff.mpr (none bucket) (mem_liveFrom.mp member).2.2
  refine ⟨?_, ?_, ?_, single⟩
  · rw [empty, keyCount]
    rfl
  · exact Nat.le_add_left_of_le free
  · rw [keyCount, deleteCount]
    show 2 * (0 + 0) < map.capacity.toNat
    omega

theorem Linked.clear_loaded (linked : map.Linked) (single : stray ≤ 1) (cleared : map.clear = some result) :
    result.Loaded stray := by
  have links := linked.clear_links cleared
  have same := linked.clear_eq
  rw [cleared] at same
  obtain rfl := some.inj same
  exact .of_none single ((occupied_fresh _).trans_le (zero_le _)) rfl rfl ⟨2, le_refl 2, by decide, rfl⟩
    (fun bucket => (links bucket).2.2)

end HashMapImpl

end Odyssey.Collections
