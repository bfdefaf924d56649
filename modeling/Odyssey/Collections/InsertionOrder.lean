import Odyssey.Collections.LoadFactor
import Odyssey.Systems.Run

namespace Odyssey.Collections

open Arithmetic Containers Systems List

theorem sized_of_roundUp (v : BitVec 32) : Sized (if roundUpToPowerOfTwo v < 4 then 4 else roundUpToPowerOfTwo v) := by
  have power := roundUpToPowerOfTwo_toNat v
  have small : (v - 1).toNat.size ≤ 32 := Nat.size_le.mpr (v - 1).isLt
  generalize (v - 1).toNat.size = n at power small
  by_cases low : roundUpToPowerOfTwo v < 4
  · rw [if_pos low]
    exact ⟨2, le_refl 2, by decide, rfl⟩
  · rw [if_neg low]
    rw [BitVec.lt_def, power] at low
    have notWhole : n ≠ 32 := by
      rintro rfl
      exact low (by decide)
    have atMost : n ≤ 31 := by omega
    have fits : 2 ^ n % 2 ^ 32 = 2 ^ n := Nat.mod_eq_of_lt (Nat.pow_lt_pow_right (by omega) (by omega))
    rw [fits] at power low
    refine ⟨n, ?_, atMost, power⟩
    by_contra less
    have : 2 ^ n < 2 ^ 2 := Nat.pow_lt_pow_right (by omega) (by omega)
    exact low this

variable {K V : Type}

inductive Created : HashMapImpl K V → Prop
  | plain : Created HashMapImpl.create
  | hinted {sizeHint : BitVec 32} {map : HashMapImpl K V}
      (made : HashMapImpl.createWithSizeHint sizeHint = some map) : Created map

inductive Operation (K V : Type) where
  | add (key : K) (value : Option V)
  | remove (key : K)
  | clear

variable (traits : KeyTraits K)

def HashMapImpl.apply (map : HashMapImpl K V) : Operation K V → Option (HashMapImpl K V)
  | .add key value => map.add traits key value
  | .remove key => (map.remove traits key).map Prod.fst
  | .clear => map.clear

/-- Where the operation looks for a key, the entries that are equal to it are hashed alike. -/
def Operation.HashesAlike (map : HashMapImpl K V) : Operation K V → Prop
  | .add key _ | .remove key => map.HashesAlike traits key
  | .clear => True

def applyToEntries (entries : List (K × Option V)) : Operation K V → List (K × Option V)
  | .add key value => setEntry traits.areKeysEqual (traits.normalizeMapKey key) value entries
  | .remove key => (deleteEntry traits.areKeysEqual (traits.normalizeMapKey key) entries).1
  | .clear => []

def applyToRecords (records : List (Option (K × Option V))) :
    Operation K V → List (Option (K × Option V))
  | .add key value => setRecord traits.areKeysEqual (traits.normalizeMapKey key) value records
  | .remove key => (deleteRecord traits.areKeysEqual (traits.normalizeMapKey key) records).1
  | .clear => clearRecords records

theorem reduceOption_applyToRecords (records : List (Option (K × Option V))) (operation : Operation K V) :
    (applyToRecords traits records operation).reduceOption = applyToEntries traits records.reduceOption operation := by
  cases operation with
  | add key value => exact reduceOption_setRecord _
  | remove key => exact (reduceOption_deleteRecord _).1
  | clear => exact reduceOption_clearRecords _

namespace HashMapImpl

/-- The map has these entries, and answers so about the keys of a set. -/
structure RepresentsOn (keys : K → Prop) (map : HashMapImpl K V) (entries : List (K × Option V)) : Prop where
  has : ∀ key, keys key → map.has traits key =
    some (lookupEntry traits.areKeysEqual (traits.normalizeMapKey key) entries).isSome
  get : ∀ undefined key, keys key → map.get traits undefined key =
    some ((lookupEntry traits.areKeysEqual (traits.normalizeMapKey key) entries).getD (some undefined))
  remove : ∀ key, keys key → (map.remove traits key).map Prod.snd =
    some (deleteEntry traits.areKeysEqual (traits.normalizeMapKey key) entries).2
  size : map.size.toNat = entries.length
  list : ∃ buckets, map.bucketList = some buckets ∧ buckets.map map.record = entries.map some

def Represents (map : HashMapImpl K V) (entries : List (K × Option V)) : Prop :=
  map.RepresentsOn traits (fun _ => True) entries

/-- Each bucket of the list is once on the path from its hash, and an empty place ends every search. -/
structure Probed (map : HashMapImpl K V) : Prop where
  listed : ∃ buckets, map.bucketList = some buckets ∧
    ∀ bucket, bucket ∈ buckets ↔ ∃ index < map.capacity.toNat, map.buffer index = .full bucket
  once : ∀ first < map.capacity.toNat, ∀ second < map.capacity.toNat, ∀ bucket,
    map.buffer first = .full bucket → map.buffer second = .full bucket → first = second
  path : ∀ index < map.capacity.toNat, ∀ bucket, map.buffer index = .full bucket →
    ∃ key, (map.buckets bucket).key = some key ∧
      OnPath map.buffer map.capacity.toNat (traits.jsMapHash key).toNat index
  empty : ∃ index < map.capacity.toNat, map.buffer index = .empty
  ends : ∀ canUseBucket hash, ∃ index, probe map.buffer map.capacity canUseBucket hash = some index

variable {traits} {map : HashMapImpl K V} {stray : Nat}

section

variable (consistent : Consistent traits map)
include consistent

theorem findBucket_lookup {key : K} {found : Option (Nat × Nat)} (alike : map.HashesAlike traits key)
    (search : map.findBucket traits key = some found) :
    lookupEntry traits.areKeysEqual (traits.normalizeMapKey key) map.records.reduceOption =
      found.map (fun place => (map.buckets place.2).value) := by
  have facts := findBucket_eq_some consistent.toCoherent search
  rcases found with _ | ⟨index, bucket⟩
  · exact lookupEntry_of_lacks (records_lacks (fun place _ _ => facts alike place))
  · obtain ⟨_, _, has⟩ := facts
    obtain ⟨front, back, other, lacks, _, equal, before, _⟩ := consistent.records_at has (fun _ _ => rfl) rfl
    rw [before]
    exact lookupEntry_of_found lacks equal

theorem Consistent.represents (loaded : map.Loaded stray) (small : map.records.reduceOption.length < entryLimit) :
    map.RepresentsOn traits (map.HashesAlike traits) map.records.reduceOption := by
  refine ⟨?_, ?_, ?_, ?_, ?_⟩
  · intro key alike
    obtain ⟨found, search⟩ := loaded.findBucket consistent.toCoherent key
    rw [has, search, findBucket_lookup consistent alike search, Option.isSome_map]
    rfl
  · intro undefined key alike
    obtain ⟨found, search⟩ := loaded.findBucket consistent.toCoherent key
    rw [get, search, findBucket_lookup consistent alike search]
    rcases found with _ | ⟨index, bucket⟩ <;> rfl
  · intro key alike
    obtain ⟨result, removed, done, _⟩ := loaded.remove consistent.toCoherent key small
    have effect := congrArg Prod.snd (consistent.remove alike done).2
    rw [done, ← (reduceOption_deleteRecord map.records).2, ← effect]
    rfl
  · rw [consistent.linked.length_entries]
    exact loaded.keyCount
  · exact ⟨_, consistent.linked.bucketList_eq, consistent.linked.map_record⟩

end

theorem Coherent.probed (coherent : Coherent traits map) (loaded : map.Loaded stray) : map.Probed traits := by
  have stores := coherent.hashed.stores
  refine ⟨⟨_, coherent.linked.bucketList_eq, ?_⟩, stores.once, ?_,
    loaded.exists_empty coherent.hashed.sized,
    loaded.probe_returns coherent.hashed.sized⟩
  · intro bucket
    rw [mem_liveFrom]
    constructor
    · rintro ⟨_, _, lives⟩
      obtain ⟨index, path, stored⟩ := stores.placed bucket lives
      exact ⟨index, path.lt, stored⟩
    · rintro ⟨index, within, stored⟩
      have lives := stores.only index within bucket stored
      exact ⟨Nat.zero_le _, (coherent.linked.within bucket lives).2, lives⟩
  · intro index within bucket stored
    have lives := stores.only index within bucket stored
    obtain ⟨place, path, atPlace⟩ := stores.placed bucket lives
    obtain rfl := stores.once index within place path.lt bucket stored atPlace
    obtain ⟨key, isKey⟩ := Option.isSome_iff_exists.mp lives
    refine ⟨key, isKey, ?_⟩
    rw [home, isKey] at path
    exact path

theorem consistent_ofCapacity {capacity : BitVec 32} (sized : Sized capacity) :
    Consistent traits (ofCapacity capacity : HashMapImpl K V) ∧ (ofCapacity capacity : HashMapImpl K V).Loaded 0 ∧
      (ofCapacity capacity : HashMapImpl K V).records = [] :=
  ⟨.of_none (.ofCapacity capacity) sized (fun _ _ _ => nofun) (ofCapacity_key capacity),
    .of_none (Nat.zero_le 1) (occupied_fresh _).le rfl rfl sized (ofCapacity_key capacity), rfl⟩

end HashMapImpl

open HashMapImpl

variable {traits} {map : HashMapImpl K V} {stray : Nat}

theorem Created.consistent (traits : KeyTraits K) (created : Created map) :
    Consistent traits map ∧ map.Loaded 0 ∧ map.records = [] := by
  cases created with
  | plain => exact consistent_ofCapacity ⟨2, le_refl 2, by decide, rfl⟩
  | hinted made =>
    unfold createWithSizeHint at made
    split at made
    · obtain rfl := Option.some.inj made
      exact consistent_ofCapacity (sized_of_roundUp _)
    · cases made

section Coherent

variable (coherent : Coherent traits map)
include coherent

theorem HashMapImpl.Coherent.apply {operation : Operation K V} {next : HashMapImpl K V}
    (done : map.apply traits operation = some next) : Coherent traits next := by
  cases operation with
  | add key value =>
    obtain ⟨_, _, kept, _⟩ := coherent.add done
    exact kept
  | remove key =>
    obtain ⟨⟨result, removed⟩, isResult, rfl⟩ := Option.map_eq_some_iff.mp done
    exact (coherent.remove isResult).1
  | clear => exact (coherent.clear done).1.toCoherent

theorem HashMapImpl.Loaded.apply (loaded : map.Loaded stray) (small : map.records.reduceOption.length < entryLimit)
    (operation : Operation K V) : ∃ next, map.apply traits operation = some next ∧ next.Loaded stray := by
  cases operation with
  | add key value => exact loaded.add coherent key value small
  | remove key =>
    obtain ⟨next, removed, done, nextLoaded⟩ := loaded.remove coherent key small
    exact ⟨next, Option.map_eq_some_iff.mpr ⟨_, done, rfl⟩, nextLoaded⟩
  | clear => exact ⟨_, coherent.linked.clear_eq, coherent.linked.clear_loaded loaded.single coherent.linked.clear_eq⟩

theorem runs_alike (lawful : traits.EqualKeysHashEqually) (operations : List (Operation K V)) :
    StepsMeet (HashMapImpl.apply traits) (Operation.HashesAlike traits) map operations := by
  induction operations generalizing map with
  | nil => trivial
  | cons operation operations ih =>
    refine ⟨?_, fun next done => ih (coherent.apply done)⟩
    cases operation with
    | add key value => exact coherent.hashed.alike lawful key
    | remove key => exact coherent.hashed.alike lawful key
    | clear => trivial

end Coherent

section

variable (consistent : Consistent traits map)
include consistent

theorem apply_records {operation : Operation K V} {next : HashMapImpl K V}
    (alike : operation.HashesAlike traits map) (done : map.apply traits operation = some next) :
    Consistent traits next ∧ next.records = applyToRecords traits map.records operation := by
  cases operation with
  | add key value => exact consistent.add alike done
  | remove key =>
    obtain ⟨⟨result, removed⟩, isResult, rfl⟩ := Option.map_eq_some_iff.mp done
    obtain ⟨kept, effect⟩ := consistent.remove alike isResult
    exact ⟨kept, congrArg Prod.fst effect⟩
  | clear => exact consistent.toCoherent.clear done

theorem run_represents (loaded : map.Loaded stray) (operations : List (Operation K V))
    (alike : StepsMeet (HashMapImpl.apply traits) (Operation.HashesAlike traits) map operations)
    (small : ∀ front, front <+: operations →
      (front.foldl (applyToEntries traits) map.records.reduceOption).length < entryLimit) :
    ∃ final, run (HashMapImpl.apply traits) map operations = some final ∧
      final.RepresentsOn traits (final.HashesAlike traits)
        (operations.foldl (applyToEntries traits) map.records.reduceOption) ∧ final.Probed traits := by
  induction operations generalizing map with
  | nil => exact ⟨map, rfl, consistent.represents loaded (small [] nil_prefix), consistent.toCoherent.probed loaded⟩
  | cons operation operations ih =>
    obtain ⟨next, done, nextLoaded⟩ := loaded.apply consistent.toCoherent (small [] nil_prefix) operation
    obtain ⟨kept, effect⟩ := apply_records consistent alike.1 done
    have entries : next.records.reduceOption = applyToEntries traits map.records.reduceOption operation := by
      rw [effect, reduceOption_applyToRecords]
    have rest : ∀ front, front <+: operations →
        (front.foldl (applyToEntries traits) next.records.reduceOption).length < entryLimit := by
      intro front isFront
      rw [entries]
      exact small (operation :: front) (cons_prefix_cons.mpr ⟨rfl, isFront⟩)
    have ran := ih kept nextLoaded (alike.2 next done) rest
    rw [entries] at ran
    rw [run, done]
    exact ran

end

/-- Where equal keys are hashed alike and there are fewer than 2^28 entries, the map is a list of entries in the order of
    their insertion, and its buffer leads every search to its end. -/
theorem insertion_ordered (traits : KeyTraits K) (lawful : traits.EqualKeysHashEqually) {map : HashMapImpl K V}
    (created : Created map) (operations : List (Operation K V))
    (small : ∀ front, front <+: operations → (front.foldl (applyToEntries traits) []).length < 2 ^ 28) :
    ∃ final, run (HashMapImpl.apply traits) map operations = some final ∧
      final.Represents traits (operations.foldl (applyToEntries traits) []) ∧
      final.Probed traits := by
  obtain ⟨consistent, loaded, none⟩ := created.consistent traits
  have fresh : map.records.reduceOption = [] := by
    rw [none]
    rfl
  obtain ⟨final, ran, ⟨has, get, remove, size, list⟩, probed⟩ := run_represents consistent loaded operations
    (runs_alike consistent.toCoherent lawful operations) (fresh.symm ▸ small)
  rw [fresh] at has get remove size list
  have kept := run_invariant (fun _ _ _ held done => Coherent.apply held done) operations consistent.toCoherent ran
  have alike := kept.hashed.alike lawful
  refine ⟨final, ran, ⟨?_, ?_, ?_, size, list⟩, probed⟩
  · exact fun key _ => has key (alike key)
  · exact fun undefined key _ => get undefined key (alike key)
  · exact fun key _ => remove key (alike key)

def natKeys : KeyTraits Nat where
  normalizeMapKey := id
  jsMapHash := BitVec.ofNat 32
  areKeysEqual := fun first second => first == second
  refl := fun key => beq_self_eq_true key
  symm := fun _ _ equal => beq_iff_eq.mpr (beq_iff_eq.mp equal).symm
  trans := fun _ _ _ left right => beq_iff_eq.mpr ((beq_iff_eq.mp left).trans (beq_iff_eq.mp right))

theorem natKeys_lawful : natKeys.EqualKeysHashEqually :=
  fun _ _ equal => congrArg (BitVec.ofNat 32) (beq_iff_eq.mp equal)

/-- The keys 1 and 5 share a place; the second addition of 1 comes after 5. -/
theorem insertion_ordered_one_five : ∃ final, run (HashMapImpl.apply natKeys) HashMapImpl.create
        [.add 1 (some 10), .add 5 (some 50), .remove 1, .add 5 (some 51), .add 1 (some 11)] = some final ∧
      final.Represents natKeys [(5, some 51), (1, some 11)] ∧ final.Probed natKeys := by
  refine insertion_ordered natKeys natKeys_lawful .plain _ ?_
  intro front isFront
  rw [← mem_inits] at isFront
  revert front
  decide

end Odyssey.Collections
