import Odyssey.Collections.InsertionOrder

namespace Odyssey.Collections

open Containers List Systems HashMapImpl Option

variable {K V : Type} (traits : KeyTraits K)

namespace HashMapImpl

/-- What a rehash leaves when `HashMapBuffer::create` fails. One that keeps the capacity does not call it. -/
def throwInRehash (map : HashMapImpl K V) : Option (HashMapImpl K V) := do
  let capacity ← nextCapacity map.capacity map.keyCount
  if capacity = map.capacity then none else some { map with capacity := capacity }

/-- What an operation leaves when `HashMapBuffer::create` fails, if it calls it. -/
def throwIn (map : HashMapImpl K V) : Operation K V → Option (HashMapImpl K V)
  | .add key value => do
    let key := traits.normalizeMapKey key
    let map ← map.addNormalizedInternal key value (traits.jsMapHash key) (map.hasKey traits key)
    if shouldRehashAfterAdd map.capacity map.keyCount map.deleteCount then map.throwInRehash else none
  | .remove key => do
    let (index, impl) ← ← map.findBucket traits key
    let map ← map.unlink index impl
    if shouldShrink map.capacity map.keyCount then map.throwInRehash else none
  | .clear => map.clear.map (fun cleared => { cleared with buffer := map.buffer })

structure Survives (slots : BitVec 32) (map : HashMapImpl K V) : Prop where
  capacity : map.capacity = slots
  probed : map.Probed traits
  later : ∃ entries, ∀ operations : List (Operation K V),
    StepsMeet (HashMapImpl.apply traits) (Operation.HashesAlike traits) map operations →
    (∀ front, front <+: operations → (front.foldl (applyToEntries traits) entries).length < 2 ^ 28) →
      ∃ final, run (HashMapImpl.apply traits) map operations = some final ∧
        final.RepresentsOn traits (final.HashesAlike traits) (operations.foldl (applyToEntries traits) entries) ∧
        final.Probed traits

variable {traits} {map after : HashMapImpl K V} {stray : Nat}

theorem throwInRehash_capacity (thrown : map.throwInRehash = some after) : after.capacity ≠ map.capacity := by
  obtain ⟨capacity, _, rest⟩ := bind_eq_some_iff.mp thrown
  split at rest
  · cases rest
  · rename_i changed
    cases rest
    exact changed

theorem Loaded.keyCount_eq_zero (loaded : map.Loaded stray) :
    map.keyCount = 0 ↔ ∀ bucket < map.tail, ¬map.Live bucket := by
  have empty : map.keyCount = 0 ↔ map.liveFrom 0 = [] := by
    rw [← length_eq_zero_iff, ← loaded.keyCount]
    exact BitVec.toNat_eq
  rw [empty, eq_nil_iff_forall_not_mem]
  simp only [mem_liveFrom, Nat.zero_le, true_and, not_and]

theorem Consistent.survives (consistent : Consistent traits map) (loaded : map.Loaded stray) :
    map.Survives traits map.capacity :=
  ⟨rfl, consistent.toCoherent.probed loaded, map.records.reduceOption, run_represents consistent loaded⟩

variable (coherent : Coherent traits map)
include coherent

theorem throwIn_capacity {operation : Operation K V} (thrown : map.throwIn traits operation = some after)
    (other : operation ≠ .clear) : after.capacity ≠ map.capacity := by
  cases operation with
  | clear => exact absurd rfl other
  | add key value =>
    obtain ⟨middle, added, rest⟩ := bind_eq_some_iff.mp thrown
    have same : middle.capacity = map.capacity := by
      rcases addNormalizedInternal_cases coherent added with
        ⟨_, _, rfl⟩ | ⟨_, _, _, _, rfl⟩ <;> rfl
    split at rest
    · exact same ▸ throwInRehash_capacity rest
    · cases rest
  | remove key =>
    obtain ⟨found, _, rest⟩ := bind_eq_some_iff.mp thrown
    obtain ⟨⟨index, impl⟩, _, rest⟩ := bind_eq_some_iff.mp rest
    obtain ⟨middle, unlinked, rest⟩ := bind_eq_some_iff.mp rest
    have same : middle.capacity = map.capacity := by
      obtain ⟨_, _, _, _, rfl⟩ := unlink_eq_some.mp unlinked
      rfl
    split at rest
    · exact same ▸ throwInRehash_capacity rest
    · cases rest

/-- The buffer of a map of the least capacity without entries has at most one mark, which the failed clear
    leaves in it and no longer counts. -/
theorem throwIn_clear_survives_iff (loaded : map.Loaded 0) (thrown : map.throwIn traits .clear = some after) :
    after.Survives traits map.capacity ↔ map.capacity = 4 ∧ map.keyCount = 0 := by
  obtain ⟨cleared, done, rfl⟩ := map_eq_some_iff.mp thrown
  have links := coherent.linked.clear_links done
  have linked := coherent.linked.clear done
  have counts : cleared.capacity = 4 ∧ cleared.keyCount = 0 ∧ cleared.deleteCount = 0 := by
    rw [coherent.linked.clear_eq] at done
    cases done
    exact ⟨rfl, rfl, rfl⟩
  have dead : ∀ bucket, (cleared.buckets bucket).key = none := fun bucket => (links bucket).2.2
  constructor
  · rintro ⟨capacity, probed, _⟩
    have four : map.capacity = 4 := capacity.symm.trans counts.1
    refine ⟨four, loaded.keyCount_eq_zero.mpr ?_⟩
    intro bucket _ lives
    obtain ⟨index, path, stored⟩ := coherent.hashed.stores.placed bucket lives
    have within : index < cleared.capacity.toNat := by
      rw [counts.1, ← four]
      exact path.lt
    obtain ⟨key, isKey, _⟩ := probed.path index within bucket stored
    cases isKey.symm.trans (dead bucket)
  · rintro ⟨four, noKeys⟩
    have sized : Sized cleared.capacity := ⟨2, le_refl 2, by decide, by rw [counts.1]; rfl⟩
    have same : cleared.capacity.toNat = map.capacity.toNat := by rw [counts.1, four]
    have marks : occupied map.buffer cleared.capacity.toNat ≤ 1 := by
      have occupied := loaded.occupied
      have load := loaded.load
      rw [four] at load
      rw [noKeys] at occupied load
      rw [same]
      change 2 * (0 + map.deleteCount.toNat) < 4 at load
      change _ ≤ 0 + map.deleteCount.toNat + 0 at occupied
      omega
    have free : ∀ index < cleared.capacity.toNat, ∀ bucket, map.buffer index ≠ .full bucket := by
      intro index within bucket stored
      have lives := coherent.hashed.stores.only index (same ▸ within) bucket stored
      exact loaded.keyCount_eq_zero.mp noKeys bucket (coherent.linked.within bucket lives).2 lives
    rw [four, ← counts.1]
    refine @Consistent.survives _ _ _ { cleared with buffer := map.buffer } 1 (.of_none ?_ sized free dead) ?_
    · exact linked.of_same (fun _ => Iff.rfl) (fun _ => rfl) (fun _ => rfl) rfl rfl rfl
    · exact .of_none (le_refl 1) marks counts.2.1 counts.2.2 sized dead

end HashMapImpl

/-- A map survives a failed allocation exactly in a clear of a map of the least capacity without entries. -/
theorem failed_allocation_survives (traits : KeyTraits K) {start map after : HashMapImpl K V}
    (created : Created start) (operations : List (Operation K V))
    (small : StepsMeet (HashMapImpl.apply traits) (fun map _ => map.records.reduceOption.length < 2 ^ 28) start operations)
    (ran : run (HashMapImpl.apply traits) start operations = some map) (operation : Operation K V)
    (thrown : map.throwIn traits operation = some after) :
    after.Survives traits map.capacity ↔ operation = .clear ∧ map.capacity = 4 ∧ map.keyCount = 0 := by
  obtain ⟨consistent, loaded, _⟩ := created.consistent traits
  have step : ∀ (state : HashMapImpl K V) operation next, Coherent traits state ∧ state.Loaded 0 →
      state.records.reduceOption.length < 2 ^ 28 → state.apply traits operation = some next →
        Coherent traits next ∧ next.Loaded 0 := by
    rintro state operation next ⟨coherent, loaded⟩ few done
    obtain ⟨other, isOther, otherLoaded⟩ := loaded.apply coherent few operation
    exact ⟨coherent.apply done, Option.some.inj (isOther.symm.trans done) ▸ otherLoaded⟩
  obtain ⟨kept, finalLoaded⟩ := run_invariant_of_meets step operations ⟨consistent.toCoherent, loaded⟩ small ran
  by_cases clears : operation = .clear
  · subst clears
    rw [throwIn_clear_survives_iff kept finalLoaded thrown]
    exact (and_iff_right rfl).symm
  · refine iff_of_false ?_ (fun met => clears met.1)
    exact fun survives => throwIn_capacity kept thrown clears survives.capacity

/-- The mark of the removed key stays in the buffer. -/
theorem failed_clear_of_emptied_map : ∃ map after,
    run (HashMapImpl.apply natKeys) (create : HashMapImpl Nat Nat) [.add 1 (some 10), .remove 1] = some map ∧
      map.throwIn natKeys .clear = some after ∧ after.buffer 1 = .deleted ∧ after.deleteCount = 0 ∧
      after.Survives natKeys 4 := by
  refine ⟨_, _, rfl, rfl, rfl, rfl, ?_⟩
  have few : StepsMeet (HashMapImpl.apply natKeys) (fun map _ => map.records.reduceOption.length < 2 ^ 28)
      (create : HashMapImpl Nat Nat) [.add 1 (some 10), .remove 1] :=
    stepsMeet_of_check (fun _ _ => of_decide_eq_true) _ _ (by decide)
  exact (failed_allocation_survives natKeys .plain _ few rfl .clear rfl).mpr ⟨rfl, rfl, rfl⟩

/-- The second key makes the map grow: its capacity is then 8, and its buffer has 4 slots. -/
theorem failed_growth_loses_buffer : ∃ map after,
    run (HashMapImpl.apply natKeys) (create : HashMapImpl Nat Nat) [.add 1 (some 10)] = some map ∧
      map.throwIn natKeys (.add 2 (some 20)) = some after ∧ map.capacity = 4 ∧ after.capacity = 8 ∧
      ¬after.Survives natKeys map.capacity := by
  refine ⟨_, _, rfl, rfl, rfl, rfl, ?_⟩
  rintro ⟨capacity, _, _⟩
  cases capacity

end Odyssey.Collections
