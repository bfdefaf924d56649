import Odyssey.Collections.BucketBuffer
import Odyssey.Containers.Records

namespace Odyssey.Collections.HashMapImpl

open Containers List Option

variable {K V : Type} {traits : KeyTraits K} {map result : HashMapImpl K V} {key : K} {value : Option V}

/-- What every operation keeps. -/
structure Coherent (traits : KeyTraits K) (map : HashMapImpl K V) : Prop where
  linked : map.Linked
  hashed : map.Hashed traits

/-- What an operation keeps if it looks for no key that an entry is equal to and hashed apart from. -/
structure Consistent (traits : KeyTraits K) (map : HashMapImpl K V) : Prop extends Coherent traits map where
  distinct : ∀ first second key other, (map.buckets first).key = some key →
    (map.buckets second).key = some other → traits.areKeysEqual key other = true → first = second

def record (map : HashMapImpl K V) (bucket : Nat) : Option (K × Option V) :=
  (map.buckets bucket).key.map (fun key => (key, (map.buckets bucket).value))

def records (map : HashMapImpl K V) : List (Option (K × Option V)) :=
  (List.range' 1 (map.tail - 1)).map map.record

theorem Consistent.of_none (linked : map.Linked) (sized : Sized map.capacity)
    (free : ∀ index < map.capacity.toNat, ∀ bucket, map.buffer index ≠ .full bucket)
    (none : ∀ bucket, (map.buckets bucket).key = none) : Consistent traits map := by
  refine ⟨⟨linked, .of_none sized free none⟩, ?_⟩
  intro first second key other stored
  cases (none first).symm.trans stored

variable {bucket : Nat}

theorem record_isSome : (map.record bucket).isSome = true ↔ map.Live bucket := by
  rw [record, isSome_map, Live]

theorem records_lacks {start count : Nat} (absent : ∀ bucket, start ≤ bucket → bucket < start + count →
      map.hasKey traits key bucket = false) :
    Lacks traits.areKeysEqual key ((List.range' start count).map map.record) := by
  intro entry member
  obtain ⟨bucket, inside, stored⟩ := mem_map.mp member
  rw [mem_range'_1] at inside
  obtain ⟨other, atBucket, rfl⟩ := map_eq_some_iff.mp stored
  have apart := absent bucket inside.1 inside.2
  rw [hasKey, atBucket] at apart
  exact apart

section Keys

variable (consistent : Consistent traits map)
include consistent

theorem Consistent.of_keys (coherent : Coherent traits result) (keys : ∀ bucket key,
      (result.buckets bucket).key = some key → (map.buckets bucket).key = some key) : Consistent traits result :=
  ⟨coherent, fun first second key other atFirst atSecond =>
    consistent.distinct first second key other (keys first key atFirst) (keys second other atSecond)⟩

theorem Consistent.unique {first second : Nat} (left : map.Has traits key first) (right : map.Has traits key second) :
    first = second := by
  obtain ⟨one, atFirst, isOne⟩ := hasKey_eq_true.mp left
  obtain ⟨two, atSecond, isTwo⟩ := hasKey_eq_true.mp right
  obtain ⟨_, rfl⟩ := consistent.hashed.normal first one atFirst
  obtain ⟨_, rfl⟩ := consistent.hashed.normal second two atSecond
  exact consistent.distinct first second _ _ atFirst atSecond (traits.trans _ _ _ (traits.symm _ _ isOne) isTwo)

end Keys

theorem records_split (read : Nat → Option (K × Option V)) {tail : Nat} (low : 0 < bucket) (high : bucket < tail) :
    (List.range' 1 (tail - 1)).map read = (List.range' 1 (bucket - 1)).map read ++
        read bucket :: (List.range' (bucket + 1) (tail - 1 - bucket)).map read := by
  have split : range' 1 (tail - 1) = range' 1 (bucket - 1) ++ bucket :: range' (bucket + 1) (tail - 1 - bucket) := by
    have joined : range' 1 (bucket - 1) ++ range' (1 + (bucket - 1)) (tail - bucket) =
        range' 1 (bucket - 1 + (tail - bucket)) := range'_append_1
    rw [Nat.add_sub_cancel' low, show tail - bucket = (tail - 1 - bucket) + 1 by omega, range'_succ] at joined
    rw [joined]
    congr 1
    omega
  rw [split, map_append, map_cons]

theorem records_write (low : 0 < bucket) (high : bucket < map.tail) (tail : result.tail = map.tail)
    (others : ∀ other, other ≠ bucket → result.record other = map.record other) :
    result.records = (List.range' 1 (bucket - 1)).map map.record ++
        result.record bucket :: (List.range' (bucket + 1) (map.tail - 1 - bucket)).map map.record := by
  unfold records
  rw [tail, records_split result.record low high]
  congr 1
  · refine map_congr_left ?_
    intro other inside
    rw [mem_range'_1] at inside
    exact others other (by omega)
  · congr 1
    refine map_congr_left ?_
    intro other inside
    rw [mem_range'_1] at inside
    exact others other (by omega)

theorem findBucket_eq_some {found : Option (Nat × Nat)} (coherent : Coherent traits map)
    (search : map.findBucket traits key = some found) :
    match found with
    | none => map.HashesAlike traits key → map.HasNo traits key
    | some (index, bucket) => index < map.capacity.toNat ∧ map.buffer index = .full bucket ∧ map.Has traits key bucket := by
  obtain ⟨index, probed, rest⟩ := bind_eq_some_iff.mp search
  rcases coherent.hashed.probe_cases probed with ⟨bucket, stored, has⟩ | ⟨empty, absent⟩
  · rw [stored] at rest
    obtain rfl := some.inj rest
    exact ⟨(probe_ends coherent.hashed.sized probed).onPath.lt, stored, has⟩
  · rw [empty] at rest
    obtain rfl := some.inj rest
    exact absent

/-- What becomes of the records where only those of one key change. -/
theorem Consistent.records_at (consistent : Consistent traits map) (has : map.Has traits key bucket)
    (others : ∀ other, other ≠ bucket → result.record other = map.record other) (tail : result.tail = map.tail) :
    ∃ front back other, Lacks traits.areKeysEqual (traits.normalizeMapKey key) front ∧
      (map.buckets bucket).key = some other ∧ traits.areKeysEqual (traits.normalizeMapKey key) other = true ∧
      map.records = front ++ some (other, (map.buckets bucket).value) :: back ∧
      result.records = front ++ result.record bucket :: back := by
  obtain ⟨low, high⟩ := consistent.linked.within bucket (hasKey_live has)
  obtain ⟨other, stored, equal⟩ := hasKey_eq_true.mp has
  have entry : map.record bucket = some (other, (map.buckets bucket).value) := by
    rw [record, stored]
    rfl
  refine ⟨_, _, other, records_lacks ?_, stored, equal, ?_, records_write low high tail others⟩
  · intro place _ inside
    rw [Bool.eq_false_iff]
    intro also
    have := consistent.unique has also
    omega
  · rw [records, records_split map.record low high, entry]

theorem records_setValue (consistent : Consistent traits map) (has : map.Has traits key bucket) :
    (map.write bucket (·.setValue value)).records =
      setRecord traits.areKeysEqual (traits.normalizeMapKey key) value map.records := by
  have others : ∀ place, place ≠ bucket → (map.write bucket (·.setValue value)).record place = map.record place := by
    intro place apart
    rw [record, write_buckets, if_neg apart, record]
  obtain ⟨front, back, other, lacks, stored, equal, before, after⟩ := consistent.records_at has others rfl
  have written : (map.write bucket (·.setValue value)).record bucket = some (other, value) := by
    rw [record, write_buckets]
    simp [Bucket.setValue, stored]
  rw [after, before, written, setRecord_append lacks]
  simp [setRecord, equal]

theorem records_append (linked : map.Linked) (index : Nat) (key : K) (value : Option V) :
    (map.append index key value).records = map.records ++ [some (key, value)] := by
  have size := linked.tail
  have positive := linked.nonempty
  have fresh : map.tail ≠ map.allocated := by omega
  have newTail : (map.append index key value).tail = map.allocated := rfl
  have last : (map.append index key value).record map.tail = some (key, value) := by
    rw [record, append_buckets index key value fresh, if_pos rfl]
    rfl
  unfold records
  rw [newTail, show map.allocated - 1 = map.tail - 1 + 1 by omega, range'_1_concat,
    map_append, Nat.add_sub_cancel' positive, map_singleton, last]
  congr 1
  refine map_congr_left ?_
  intro place inside
  rw [mem_range'_1] at inside
  rw [record, append_buckets index key value fresh, if_neg (by omega), if_neg (by omega), record]

section Added

variable (coherent : Coherent traits map) (added : map.Inserts traits key value result)
include added

section

include coherent

theorem addNormalizedInternal_cases : (∃ bucket, map.Has traits key bucket ∧
        result = map.write bucket (·.setValue value)) ∨
      ∃ index, map.buffer index = .empty ∧
        OnPath map.buffer map.capacity.toNat (traits.jsMapHash (traits.normalizeMapKey key)).toNat index ∧
        (map.HashesAlike traits key → map.HasNo traits key) ∧
        result = map.append index (traits.normalizeMapKey key) value := by
  obtain ⟨index, probed, rest⟩ := bind_eq_some_iff.mp added
  rcases coherent.hashed.probe_cases probed with ⟨bucket, stored, has⟩ | ⟨empty, absent⟩
  · rw [stored] at rest
    exact Or.inl ⟨bucket, has, (some.inj rest).symm⟩
  · rw [empty] at rest
    exact Or.inr ⟨index.toNat, empty, (probe_ends coherent.hashed.sized probed).onPath, absent,
      (some.inj rest).symm⟩

theorem Coherent.addNormalizedInternal : Coherent traits result := by
  rcases addNormalizedInternal_cases coherent added with ⟨bucket, _, rfl⟩ | ⟨index, free, path, _, rfl⟩
  · exact ⟨coherent.linked.setValue bucket value, coherent.hashed.setValue bucket value⟩
  · exact ⟨coherent.linked.append index _ value, coherent.hashed.append coherent.linked free path⟩

end

variable (consistent : Consistent traits map) (alike : map.HashesAlike traits key)
include consistent alike

theorem Consistent.addNormalizedInternal : Consistent traits result := by
  have coherent := consistent.toCoherent.addNormalizedInternal added
  rcases addNormalizedInternal_cases consistent.toCoherent added with ⟨bucket, _, rfl⟩ | ⟨index, _, _, absent, rfl⟩
  · exact consistent.of_keys coherent (fun place _ => (write_setValue_links map bucket place value).2.2.symm.trans)
  · refine ⟨coherent, distinct_fill consistent.distinct (consistent.linked.append_key index _ value) ?_⟩
    intro place other stored
    have new : ¬traits.areKeysEqual (traits.normalizeMapKey key) other = true := by
      intro equal
      cases (absent alike place).symm.trans (hasKey_eq_true.mpr ⟨other, stored, equal⟩)
    obtain ⟨origin, rfl⟩ := consistent.hashed.normal place other stored
    exact ⟨new, fun equal => new (traits.symm _ _ equal)⟩

theorem addNormalizedInternal_records :
    result.records = setRecord traits.areKeysEqual (traits.normalizeMapKey key) value map.records := by
  rcases addNormalizedInternal_cases consistent.toCoherent added with ⟨bucket, has, rfl⟩ | ⟨index, _, _, absent, rfl⟩
  · exact records_setValue consistent has
  · have lacks : Lacks traits.areKeysEqual (traits.normalizeMapKey key) map.records :=
      records_lacks (fun place _ _ => absent alike place)
    rw [records_append consistent.linked, setRecord_of_lacks lacks]

end Added

section Coherent

variable (coherent : Coherent traits map)
include coherent

theorem Coherent.rehash (done : map.rehash traits = some result) :
    Coherent traits result ∧ result.buckets = map.buckets ∧ result.records = map.records := by
  obtain ⟨hashed, buckets, head, tail, allocated, _⟩ := coherent.hashed.rehash coherent.linked done
  refine ⟨⟨coherent.linked.of_same ?_ ?_ ?_ allocated head tail, hashed⟩, buckets, ?_⟩
  · intro bucket
    rw [Live, buckets, Live]
  · intro bucket
    rw [buckets]
  · intro bucket
    rw [buckets]
  · unfold records
    rw [tail]
    refine map_congr_left ?_
    intro bucket _
    rw [record, buckets, record]

theorem Coherent.add (added : map.add traits key value = some result) : ∃ middle, map.Inserts traits key value middle ∧
      Coherent traits result ∧ result.buckets = middle.buckets ∧ result.records = middle.records := by
  obtain ⟨middle, inserted, rest⟩ := bind_eq_some_iff.mp added
  have kept := coherent.addNormalizedInternal inserted
  refine ⟨middle, inserted, ?_⟩
  split at rest
  · exact kept.rehash rest
  · obtain rfl := some.inj rest
    exact ⟨kept, rfl, rfl⟩

theorem Coherent.remove {removed : Bool} (done : map.remove traits key = some (result, removed)) :
    Coherent traits result ∧
      ((result = map ∧ removed = false ∧ (map.HashesAlike traits key → map.HasNo traits key)) ∨
      ∃ index impl middle, map.Has traits key impl ∧ map.unlink index impl = some middle ∧
        result.buckets = middle.buckets ∧ result.records = middle.records ∧ removed = true) := by
  obtain ⟨found, search, rest⟩ := bind_eq_some_iff.mp done
  have facts := findBucket_eq_some coherent search
  rcases found with _ | ⟨index, impl⟩
  · obtain ⟨rfl, rfl⟩ := Prod.mk.inj (some.inj rest)
    exact ⟨coherent, .inl ⟨rfl, rfl, facts⟩⟩
  · obtain ⟨within, stored, has⟩ := facts
    obtain ⟨middle, unlinked, rest⟩ := bind_eq_some_iff.mp rest
    have kept : Coherent traits middle :=
      ⟨coherent.linked.unlink (hasKey_live has) unlinked, coherent.hashed.unlink within stored unlinked⟩
    split at rest
    · obtain ⟨next, rehashed, same⟩ := bind_eq_some_iff.mp rest
      obtain ⟨rfl, rfl⟩ := Prod.mk.inj (some.inj same)
      obtain ⟨kept, buckets, records⟩ := kept.rehash rehashed
      exact ⟨kept, .inr ⟨index, impl, middle, has, unlinked, buckets, records, rfl⟩⟩
    · obtain ⟨rfl, rfl⟩ := Prod.mk.inj (some.inj rest)
      exact ⟨kept, .inr ⟨index, impl, _, has, unlinked, rfl, rfl, rfl⟩⟩

theorem Coherent.clear (cleared : map.clear = some result) :
    Consistent traits result ∧ result.records = clearRecords map.records := by
  have links := coherent.linked.clear_links cleared
  have linked := coherent.linked.clear cleared
  have same : result.tail = map.tail ∧ result.capacity = 4 ∧ ∀ index, result.buffer index = .empty := by
    rw [coherent.linked.clear_eq] at cleared
    obtain rfl := some.inj cleared
    exact ⟨rfl, rfl, fun _ => rfl⟩
  obtain ⟨tail, capacity, free⟩ := same
  have sized : Sized result.capacity := ⟨2, le_refl 2, by decide, by rw [capacity]; rfl⟩
  refine ⟨.of_none linked sized ?_ (fun bucket => (links bucket).2.2), ?_⟩
  · intro index _ bucket stored
    cases (free index).symm.trans stored
  unfold records clearRecords
  rw [tail, List.map_map]
  refine map_congr_left ?_
  intro bucket _
  rw [record, (links bucket).2.2]
  rfl

end Coherent

variable (consistent : Consistent traits map)
include consistent

theorem Consistent.add (alike : map.HashesAlike traits key) (added : map.add traits key value = some result) :
    Consistent traits result ∧ result.records =
      setRecord traits.areKeysEqual (traits.normalizeMapKey key) value map.records := by
  obtain ⟨middle, inserted, coherent, buckets, records⟩ := consistent.toCoherent.add added
  have kept := consistent.addNormalizedInternal inserted alike
  refine ⟨kept.of_keys coherent (fun _ _ stored => buckets ▸ stored), ?_⟩
  exact records.trans (addNormalizedInternal_records inserted consistent alike)

theorem records_unlink {index : Nat} (has : map.Has traits key bucket) (unlinked : map.unlink index bucket = some result) :
    (result.records, true) = deleteRecord traits.areKeysEqual (traits.normalizeMapKey key) map.records := by
  have entry := unlink_entry unlinked
  have tail : result.tail = map.tail := by
    obtain ⟨_, _, _, _, rfl⟩ := unlink_eq_some.mp unlinked
    rfl
  have others : ∀ place, place ≠ bucket → result.record place = map.record place := by
    intro place apart
    rw [record, (entry place).1, (entry place).2, if_neg apart, if_neg apart, record]
  obtain ⟨front, back, other, lacks, _, equal, before, after⟩ := consistent.records_at has others tail
  have removed : result.record bucket = none := by
    rw [record, (entry bucket).1, if_pos rfl]
    rfl
  rw [after, before, removed, deleteRecord_append lacks]
  simp [deleteRecord, equal]

theorem Consistent.remove {removed : Bool} (alike : map.HashesAlike traits key)
    (done : map.remove traits key = some (result, removed)) :
    Consistent traits result ∧ (result.records, removed) =
      deleteRecord traits.areKeysEqual (traits.normalizeMapKey key) map.records := by
  rcases consistent.toCoherent.remove done with
    ⟨coherent, ⟨rfl, rfl, absent⟩ | ⟨index, impl, middle, has, unlinked, buckets, records, rfl⟩⟩
  · exact ⟨consistent, (deleteRecord_of_lacks (records_lacks (fun place _ _ => absent alike place))).symm⟩
  · refine ⟨consistent.of_keys coherent (fun _ _ stored => unlink_key unlinked (buckets ▸ stored)), ?_⟩
    rw [records, records_unlink consistent has unlinked]

end Odyssey.Collections.HashMapImpl
