import Odyssey.Collections.BucketList

namespace Odyssey.Collections

open Containers Option BitVec Nat

def Sized (capacity : BitVec 32) : Prop := ∃ n, 2 ≤ n ∧ n ≤ 31 ∧ capacity.toNat = 2 ^ n

section Probe

variable {capacity : BitVec 32} {buffer : Nat → Slot Nat} {canUseBucket : Nat → Bool}

section Sized

variable (sized : Sized capacity)
include sized

theorem Sized.four_le : 4 ≤ capacity.toNat := by
  obtain ⟨n, low, _, same⟩ := sized
  rw [same]
  exact Nat.pow_le_pow_right Nat.two_pos low

theorem Sized.le : capacity.toNat ≤ 2 ^ 31 := by
  obtain ⟨n, _, high, same⟩ := sized
  rw [same]
  exact Nat.pow_le_pow_right Nat.two_pos high

theorem Sized.and_mask (index : BitVec 32) : (index &&& (capacity - 1)).toNat = index.toNat % capacity.toNat := by
  have large := sized.four_le
  obtain ⟨n, _, _, same⟩ := sized
  have mask : (capacity - 1).toNat = 2 ^ n - 1 := by
    rw [← same, toNat_sub_of_le (le_def.mpr (by simpa using by omega))]
    rfl
  rw [toNat_and, mask, and_two_pow_sub_one_eq_mod, same]

theorem Sized.power : (capacity &&& (capacity - 1)) = 0 := by
  refine eq_of_toNat_eq ?_
  rw [sized.and_mask, mod_self]
  rfl

theorem Sized.dvd : capacity.toNat ∣ 2 ^ 32 := by
  obtain ⟨n, _, high, same⟩ := sized
  rw [same]
  exact Nat.pow_dvd_pow 2 (by omega)

theorem Sized.iterate (hash : BitVec 32) (n : Nat) :
    ((fun index => (index + 1) &&& (capacity - 1))^[n] (hash &&& (capacity - 1))).toNat =
      (hash.toNat + n) % capacity.toNat := by
  induction n with
  | zero => exact sized.and_mask hash
  | succ n ih =>
    rw [Function.iterate_succ_apply', sized.and_mask, toNat_add, ih, mod_mod_of_dvd _ sized.dvd]
    simp [add_assoc]

end Sized

theorem probe_ends {hash index : BitVec 32} (sized : Sized capacity)
    (found : probe buffer capacity canUseBucket hash = some index) :
    ProbeEnds buffer capacity.toNat canUseBucket hash.toNat index.toNat :=
  .of_firstStop (sized.iterate hash) (fun _ => rfl) found

theorem probe_returns (sized : Sized capacity) {free : Nat} (within : free < capacity.toNat)
    (empty : buffer free = .empty) (hash : BitVec 32) : ∃ index, probe buffer capacity canUseBucket hash = some index :=
  firstStop_of_empty (sized.iterate hash) (fun _ => rfl) within empty

theorem nextCapacity_sized {capacity keyCount next : BitVec 32} (sized : Sized capacity)
    (isNext : nextCapacity capacity keyCount = some next) : Sized next := by
  obtain ⟨n, low, high, same⟩ := sized
  unfold nextCapacity at isNext
  split at isNext
  · rename_i shrinks
    obtain rfl := some.inj isNext
    have large : 2 ^ 2 < 2 ^ n := by
      have := of_decide_eq_true ((Bool.and_eq_true _ _).mp shrinks).2
      rw [gt_iff_lt, lt_def, same] at this
      simpa using this
    have above : 2 < n := (Nat.pow_lt_pow_iff_right (by omega)).mp large
    refine ⟨n - 1, by omega, by omega, ?_⟩
    have half : 2 ^ n / 2 ^ 1 = 2 ^ (n - 1) := Nat.pow_div (by omega) Nat.two_pos
    rw [toNat_udiv, same]
    exact half
  · split at isNext
    · obtain rfl := Option.some.inj isNext
      exact ⟨n, low, high, same⟩
    · split at isNext
      · rename_i fits
        obtain rfl := Option.some.inj isNext
        rw [same] at fits
        have below : n + 1 < 32 := (Nat.pow_lt_pow_iff_right (by omega : 1 < 2)).mp (by rwa [Nat.pow_succ])
        refine ⟨n + 1, by omega, by omega, ?_⟩
        rw [toNat_mul, same]
        exact mod_eq_of_lt fits
      · cases isNext

end Probe

namespace HashMapImpl

variable {K V : Type} (traits : KeyTraits K)

def home (map : HashMapImpl K V) (bucket : Nat) : Nat :=
  ((map.buckets bucket).key.map (fun key => (traits.jsMapHash key).toNat)).getD 0

structure Hashed (map : HashMapImpl K V) : Prop where
  sized : Sized map.capacity
  stores : Stores map.buffer map.capacity.toNat (map.home traits) map.Live
  normal : ∀ bucket key, (map.buckets bucket).key = some key → ∃ origin,
    key = traits.normalizeMapKey origin

abbrev Has (map : HashMapImpl K V) (key : K) (bucket : Nat) : Prop :=
  map.hasKey traits (traits.normalizeMapKey key) bucket = true

abbrev HasNo (map : HashMapImpl K V) (key : K) : Prop :=
  ∀ bucket, map.hasKey traits (traits.normalizeMapKey key) bucket = false

abbrev Inserts (map : HashMapImpl K V) (key : K) (value : Option V) (result : HashMapImpl K V) : Prop :=
  map.addNormalizedInternal (traits.normalizeMapKey key) value (traits.jsMapHash (traits.normalizeMapKey key))
    (map.hasKey traits (traits.normalizeMapKey key)) = some result

variable {traits} {map : HashMapImpl K V} {key : K}

theorem hasKey_eq_true {bucket : Nat} : map.hasKey traits key bucket = true ↔
      ∃ other, (map.buckets bucket).key = some other ∧ traits.areKeysEqual key other = true := by
  rw [hasKey, any_eq_true]

theorem hasKey_live {bucket : Nat} (has : map.hasKey traits key bucket = true) : map.Live bucket := by
  obtain ⟨other, stored, _⟩ := hasKey_eq_true.mp has
  rw [Live, stored]
  rfl

theorem HashesAlike.home_eq {bucket : Nat} (alike : map.HashesAlike traits key) (has : map.Has traits key bucket) :
    map.home traits bucket = (traits.jsMapHash (traits.normalizeMapKey key)).toNat := by
  obtain ⟨other, stored, equal⟩ := hasKey_eq_true.mp has
  rw [home, stored, ← alike bucket other stored equal]
  rfl

section

variable (hashed : map.Hashed traits)
include hashed

theorem Hashed.alike (lawful : traits.EqualKeysHashEqually) (key : K) : map.HashesAlike traits key := by
  intro bucket other stored equal
  obtain ⟨origin, rfl⟩ := hashed.normal bucket other stored
  exact (lawful key origin equal).symm

theorem Hashed.probe_cases {index : BitVec 32}
    (found : probe map.buffer map.capacity (map.hasKey traits (traits.normalizeMapKey key))
      (traits.jsMapHash (traits.normalizeMapKey key)) = some index) :
    (∃ bucket, map.buffer index.toNat = .full bucket ∧ map.Has traits key bucket) ∨
      map.buffer index.toNat = .empty ∧ (map.HashesAlike traits key → map.HasNo traits key) := by
  have ends := probe_ends hashed.sized found
  refine ends.cases.imp_right (fun empty => ⟨empty, fun alike => ?_⟩)
  exact hashed.stores.absent (fun _ has => ⟨hasKey_live has, alike.home_eq has⟩) ends empty

theorem Hashed.setValue (written : Nat) (value : Option V) : (map.write written (·.setValue value)).Hashed traits := by
  have keys : ∀ bucket, ((map.write written (·.setValue value)).buckets bucket).key =
      (map.buckets bucket).key := fun bucket => (write_setValue_links map written bucket value).2.2
  refine ⟨hashed.sized, hashed.stores.congr ?_ ?_, ?_⟩
  · intro bucket
    rw [Live, keys, Live]
  · intro bucket _
    rw [home, keys, home]
  · intro bucket key
    rw [keys]
    exact hashed.normal bucket key

end

section Append

variable {index : Nat} {value : Option V}

theorem Linked.append_key (linked : map.Linked) (index : Nat) (key : K) (value : Option V) (bucket : Nat) :
    ((map.append index key value).buckets bucket).key =
      if bucket = map.tail then some key else (map.buckets bucket).key := by
  have fresh : map.tail ≠ map.allocated := by
    have := linked.tail
    omega
  have unused : (map.buckets map.allocated).key = none := by
    rw [← not_live_iff]
    intro lives
    have := linked.within _ lives
    have := linked.tail
    omega
  rw [append_buckets index key value fresh]
  by_cases atTail : bucket = map.tail
  · rw [if_pos atTail, if_pos atTail]
  · by_cases atNew : bucket = map.allocated
    · rw [if_neg atTail, if_pos atNew, if_neg atTail, atNew, unused]
    · rw [if_neg atTail, if_neg atNew, if_neg atTail]

theorem Hashed.append (hashed : map.Hashed traits) (linked : map.Linked) (free : map.buffer index = .empty)
    (path : OnPath map.buffer map.capacity.toNat (traits.jsMapHash (traits.normalizeMapKey key)).toNat index) :
    (map.append index (traits.normalizeMapKey key) value).Hashed traits := by
  have keys := linked.append_key index (traits.normalizeMapKey key) value
  have notTail : ∀ bucket, map.Live bucket → bucket ≠ map.tail := by
    rintro bucket lives rfl
    exact linked.not_live_tail lives
  have homes : ∀ bucket, map.Live bucket → (map.append index (traits.normalizeMapKey key) value).home traits bucket =
        map.home traits bucket := by
    intro bucket lives
    rw [home, keys, if_neg (notTail bucket lives), home]
  have tailHome : (map.append index (traits.normalizeMapKey key) value).home traits map.tail =
      (traits.jsMapHash (traits.normalizeMapKey key)).toNat := by
    rw [home, keys, if_pos rfl]
    rfl
  refine ⟨hashed.sized, ?_, ?_⟩
  · have moved := hashed.stores.congr (fun _ => Iff.rfl) homes
    refine (moved.fill free (tailHome ▸ path) linked.not_live_tail).congr ?_ (fun _ _ => rfl)
    intro bucket
    rw [Live, keys]
    by_cases atTail : bucket = map.tail
    · simp [atTail]
    · simp [atTail, Live]
  · intro bucket other stored
    rw [keys] at stored
    by_cases atTail : bucket = map.tail
    · rw [if_pos atTail, some.injEq] at stored
      exact ⟨key, stored.symm⟩
    · rw [if_neg atTail] at stored
      exact hashed.normal bucket other stored

end Append

theorem unlink_key {index impl bucket : Nat} {result : HashMapImpl K V} (unlinked : map.unlink index impl = some result)
    (stored : (result.buckets bucket).key = some key) : (map.buckets bucket).key = some key := by
  rw [(unlink_entry unlinked bucket).1] at stored
  split at stored
  · cases stored
  · exact stored

theorem Hashed.unlink (hashed : map.Hashed traits) {index impl : Nat} {result : HashMapImpl K V}
    (within : index < map.capacity.toNat) (stored : map.buffer index = .full impl)
    (unlinked : map.unlink index impl = some result) : result.Hashed traits := by
  have same : result.capacity = map.capacity ∧ result.buffer = Function.update map.buffer index .deleted := by
    obtain ⟨_, _, _, _, rfl⟩ := unlink_eq_some.mp unlinked
    exact ⟨rfl, rfl⟩
  refine ⟨same.1 ▸ hashed.sized, ?_, ?_⟩
  · rw [same.1, same.2]
    refine (hashed.stores.erase within stored).congr (unlink_live unlinked) ?_
    rintro bucket ⟨_, apart⟩
    rw [home, (unlink_entry unlinked bucket).1, if_neg apart, home]
  · intro bucket key stored
    exact hashed.normal bucket key (unlink_key unlinked stored)

theorem Hashed.of_none (sized : Sized map.capacity)
    (free : ∀ index < map.capacity.toNat, ∀ bucket, map.buffer index ≠ .full bucket)
    (none : ∀ bucket, (map.buckets bucket).key = none) : map.Hashed traits := by
  refine ⟨sized, ?_, ?_⟩
  · refine (Stores.of_none free).congr ?_ (fun _ _ => rfl)
    intro bucket
    rw [iff_false, not_live_iff]
    exact none bucket
  · intro bucket key stored
    rw [none bucket] at stored
    cases stored

variable {iter fuel : Nat} {buffer result : Nat → Slot Nat}

theorem probe_free {index hash : BitVec 32} (sized : Sized map.capacity)
    (found : probe buffer map.capacity (fun _ => false) hash = some index) :
    buffer index.toNat = .empty ∧ OnPath buffer map.capacity.toNat hash.toNat index.toNat := by
  have ends := probe_ends sized found
  rcases ends.cases with ⟨_, _, usable⟩ | empty
  · cases usable
  · exact ⟨empty, ends.onPath⟩

theorem Linked.reinsert_stores (linked : map.Linked) (sized : Sized map.capacity)
    (here : map.Live iter ∨ iter = map.tail) (stores : Stores buffer map.capacity.toNat (map.home traits)
      (fun bucket => map.Live bucket ∧ bucket < iter))
    (done : map.reinsert traits fuel iter buffer = some result) :
    Stores result map.capacity.toNat (map.home traits) map.Live ∧ occupied result map.capacity.toNat =
        occupied buffer map.capacity.toNat + (map.liveFrom iter).length := by
  induction fuel generalizing iter buffer with
  | zero => cases done
  | succ fuel ih =>
    by_cases last : iter = map.tail
    · rw [reinsert, if_pos last] at done
      obtain rfl := some.inj done
      refine ⟨stores.congr ?_ (fun _ _ => rfl), ?_⟩
      · intro bucket
        rw [last]
        exact (and_iff_left_of_imp (fun lives => (linked.within bucket lives).2)).symm
      · rw [last, liveFrom_tail]
        rfl
    · rw [reinsert, if_neg last] at done
      simp only [bind_eq_bind, bind_eq_some_iff] at done
      obtain ⟨key, stored, index, found, next, nextIs, rest⟩ := done
      obtain ⟨after, afterIs, there, lives, adjacent, within⟩ := linked.step here last
      obtain rfl := some.inj (nextIs.symm.trans afterIs)
      obtain ⟨free, path⟩ := probe_free sized found
      have atHome : map.home traits iter = (traits.jsMapHash key).toNat := by
        rw [home, stored]
        rfl
      have filled := stores.fill free (atHome ▸ path) (fun ⟨_, before⟩ => absurd before (lt_irrefl _))
      have passed : ∀ bucket, map.Live bucket ∧ bucket < next ↔
          (map.Live bucket ∧ bucket < iter) ∨ bucket = iter := by
        intro bucket
        obtain ⟨before, lowest⟩ := adjacent
        grind
      obtain ⟨whole, count⟩ := ih there (filled.congr passed (fun _ _ => rfl)) rest
      refine ⟨whole, ?_⟩
      rw [count, occupied_fill path.lt free (Slot.full_ne_empty iter),
        liveFrom_cons lives adjacent within, List.length_cons]
      omega

theorem Linked.reinsert_returns (linked : map.Linked) (sized : Sized map.capacity)
    (here : map.Live iter ∨ iter = map.tail) (enough : map.tail - iter < fuel)
    (room : occupied buffer map.capacity.toNat + (map.liveFrom iter).length < map.capacity.toNat) :
    ∃ result, map.reinsert traits fuel iter buffer = some result := by
  induction fuel generalizing iter buffer with
  | zero => omega
  | succ fuel ih =>
    by_cases last : iter = map.tail
    · exact ⟨buffer, by rw [reinsert, if_pos last]⟩
    · obtain ⟨after, afterIs, there, lives, adjacent, within⟩ := linked.step here last
      have before := adjacent.1
      obtain ⟨key, stored⟩ := isSome_iff_exists.mp lives
      rw [liveFrom_cons lives adjacent within, List.length_cons] at room
      obtain ⟨free, inside, empty⟩ := exists_empty (by omega : occupied buffer _ < map.capacity.toNat)
      obtain ⟨index, found⟩ : ∃ index, probe buffer map.capacity (fun _ => false)
          (traits.jsMapHash key) = some index := probe_returns sized inside empty _
      obtain ⟨emptyPlace, path⟩ := probe_free sized found
      have grown := occupied_fill path.lt emptyPlace (Slot.full_ne_empty iter)
      obtain ⟨result, done⟩ := ih there (by omega)
        (by rw [grown]; omega : occupied (Function.update buffer index.toNat (.full iter))
          map.capacity.toNat + (map.liveFrom after).length < map.capacity.toNat)
      rw [reinsert, if_neg last, stored]
      simp [found, afterIs, done]

theorem rehash_eq_some {next : HashMapImpl K V} : map.rehash traits = some next ↔ ∃ capacity first buffer,
      nextCapacity map.capacity map.keyCount = some capacity ∧
      (map.buckets map.head).next = some first ∧ (capacity &&& (capacity - 1)) = 0 ∧
      reinsert traits { map with capacity := capacity, buffer := fun _ => .empty } map.allocated first
        (fun _ => .empty) = some buffer ∧
      next = { map with capacity := capacity, buffer := buffer, deleteCount := 0 } := by
  unfold rehash
  simp only [bind_eq_bind, bind_eq_some_iff, makeAndSetNewBuffer]
  constructor
  · rintro ⟨capacity, isNext, first, firstIs, rest⟩
    by_cases power : (capacity &&& (capacity - 1)) = 0
    · simp only [power, bne_self_eq_false] at rest
      obtain ⟨buffer, done, same⟩ := bind_eq_some_iff.mp rest
      exact ⟨capacity, first, buffer, isNext, firstIs, power, done, (some.inj same).symm⟩
    · simp only [bne_iff_ne.mpr power] at rest
      cases rest
  · rintro ⟨capacity, first, buffer, isNext, firstIs, power, done, rfl⟩
    refine ⟨capacity, isNext, first, firstIs, ?_⟩
    simp only [power, bne_self_eq_false]
    exact bind_eq_some_iff.mpr ⟨buffer, done, rfl⟩

theorem Hashed.rehash {next : HashMapImpl K V} (hashed : map.Hashed traits) (linked : map.Linked)
    (done : map.rehash traits = some next) :
    next.Hashed traits ∧ next.buckets = map.buckets ∧ next.head = map.head ∧ next.tail = map.tail ∧
      next.allocated = map.allocated ∧ next.keyCount = map.keyCount ∧ next.deleteCount = 0 ∧
      nextCapacity map.capacity map.keyCount = some next.capacity ∧
      occupied next.buffer next.capacity.toNat = (map.liveFrom 0).length := by
  obtain ⟨capacity, first, buffer, isNext, firstIs, _, inserted, rfl⟩ := rehash_eq_some.mp done
  have sized := nextCapacity_sized hashed.sized isNext
  have reset : HashMapImpl.Linked { map with capacity := capacity, buffer := fun _ => .empty } :=
    linked.of_same (fun _ => Iff.rfl) (fun _ => rfl) (fun _ => rfl) rfl rfl rfl
  obtain ⟨start, startIs, there, lowest, inside, _⟩ := reset.first
  obtain rfl := some.inj (firstIs.symm.trans startIs)
  have fresh : Stores (fun _ => .empty) capacity.toNat (map.home traits) (fun _ => False) :=
    .of_none (fun _ _ _ => nofun)
  have none : ∀ bucket, map.Live bucket ∧ bucket < first ↔ False := by
    intro bucket
    rw [iff_false]
    rintro ⟨lives, before⟩
    have := lowest bucket lives
    omega
  obtain ⟨stores, count⟩ := reset.reinsert_stores sized there (fresh.congr none (fun _ _ => rfl)) inserted
  refine ⟨⟨sized, stores, hashed.normal⟩, rfl, rfl, rfl, rfl, rfl, rfl, isNext, ?_⟩
  rw [count, occupied_fresh, zero_add, ← liveFrom_skip (zero_le _) inside (fun other lives _ => lowest other lives)]
  rfl

theorem Linked.rehash_returns (linked : map.Linked) {capacity : BitVec 32}
    (isNext : nextCapacity map.capacity map.keyCount = some capacity) (sized : Sized capacity)
    (room : (map.liveFrom 0).length < capacity.toNat) : ∃ next, map.rehash traits = some next := by
  have reset : HashMapImpl.Linked { map with capacity := capacity, buffer := fun _ => .empty } :=
    linked.of_same (fun _ => Iff.rfl) (fun _ => rfl) (fun _ => rfl) rfl rfl rfl
  obtain ⟨first, firstIs, there, lowest, inside, enough⟩ := reset.first
  have rest := liveFrom_skip (zero_le _) inside (fun other lives _ => lowest other lives)
  obtain ⟨buffer, inserted⟩ := reset.reinsert_returns sized there enough
    (by rw [occupied_fresh, ← rest, zero_add]; exact room)
  exact ⟨_, rehash_eq_some.mpr ⟨capacity, first, buffer, isNext, firstIs, sized.power, inserted, rfl⟩⟩

end HashMapImpl

end Odyssey.Collections
