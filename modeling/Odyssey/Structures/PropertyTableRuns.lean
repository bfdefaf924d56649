import Odyssey.Structures.PropertyTableOperations
import Odyssey.Systems.Run

namespace Odyssey.Structures

open List Systems

/-- As `sizeForCapacity`, in the 32 bits of the table's numbers. -/
def sizeForCapacity32 (capacity : BitVec 32) : BitVec 32 :=
  if capacity < 8 then 16 else Arithmetic.roundUpToPowerOfTwo (capacity + 1) * 2

theorem sizeForCapacity32_toNat {capacity : BitVec 32} (small : capacity.toNat < 2^30) :
    (sizeForCapacity32 capacity).toNat = sizeForCapacity capacity.toNat := by
  have next : (capacity + 1).toNat = capacity.toNat + 1 := by
    exact Nat.mod_eq_of_lt (by simp; omega)
  have power : nextPowerOf2 (capacity.toNat + 1) ≤ 2^30 := Nat.pow_le_pow_right Nat.two_pos (Nat.size_le.mpr small)
  unfold sizeForCapacity32 sizeForCapacity minimumTableSize
  by_cases few : capacity.toNat < 8
  · rw [if_pos (BitVec.lt_def.mpr few), if_pos few]
    rfl
  · rw [if_neg (fun less => few (BitVec.lt_def.mp less)), if_neg few, BitVec.toNat_mul,
      nextPowerOf2_toNat (by omega), next, Nat.mod_eq_of_lt (a := nextPowerOf2 _) (by omega)]
    exact Nat.mod_eq_of_lt (by simp; omega)

/-- The calls of a table. A copy has at least the capacity of the keys, and more if asked. -/
inductive TableCall (K : Type) where
  | add (entry : PropertyMapEntry K) (offset : Int) (offsetEffect : EffectOnPropertyOffset)
  | remove (key : K)
  | copy (more : Nat)
  | clone
  | cloneWithCapacity (more : Nat)
  | addDeletedOffset (offset : Int)

/-- What a table is for: the entries of the live keys in the order of their insertion. -/
structure OrderedMap (K : Type) where
  entries : List (PropertyMapEntry K)
  deletedOffsets : List Int

variable {K : Type} [DecidableEq K]

namespace OrderedMap

variable (map : OrderedMap K)

def lookup (key : K) : Option (PropertyMapEntry K) := map.entries.find? (·.key = key)

/-- An entry is added unless its key is there. The checks of the offset are those of a release build. -/
def add (entry : PropertyMapEntry K) (offset : Int) (offsetEffect : EffectOnPropertyOffset) :
    Option (OrderedMap K) :=
  match map.lookup entry.key, offsetEffect with
  | some value, _ => if value.offset ≤ offset then some map else none
  | none, .propertyOffsetMayChange => some { map with entries := map.entries ++ [entry] }
  | none, .propertyOffsetMustNotChange =>
    if offset ≥ entry.offset then some { map with entries := map.entries ++ [entry] } else none

def step : TableCall K → Option (OrderedMap K)
  | .add entry offset offsetEffect => map.add entry offset offsetEffect
  | .remove key => some { map with entries := map.entries.filter (·.key ≠ key) }
  | .addDeletedOffset offset => some { map with deletedOffsets := map.deletedOffsets ++ [offset] }
  | .copy _ | .clone | .cloneWithCapacity _ => some map

end OrderedMap

namespace PropertyTable

variable (hash : K → Nat) (table : PropertyTable K)

def removeKey (key : K) : Option (PropertyTable K) := do
  let (found, place) ← table.find hash key
  match found with
  | none => some table
  | some found => table.remove hash found place

def step : TableCall K → Option (PropertyTable K)
  | .add entry offset offsetEffect => (table.add hash entry offset offsetEffect).map Prod.fst
  | .remove key => table.removeKey hash key
  | .copy more => table.copy hash (table.keyCount + more)
  | .clone => some table
  | .cloneWithCapacity more => table.rehash hash (table.keyCount + more)
  | .addDeletedOffset offset => some (table.addDeletedOffset offset)

structure Observes (map : OrderedMap K) : Prop where
  finds : ∀ key, ∃ found place, table.find hash key = some (found, place) ∧ table.get hash key = some found ∧
    found.map table.values = (map.lookup key).map some
  iterates : table.entries = map.entries
  deletedOffsets : table.deletedOffsets = map.deletedOffsets
  empty : ∃ place < table.indexSize, table.index place = 0
  room : ∀ newCapacity, table.keyCount ≤ newCapacity → ∀ before entry after,
    table.entries = before ++ entry :: after → ∃ rehashed,
      before.foldlM (reinsert hash) { create newCapacity with deletedOffsets := table.deletedOffsets } =
        some rehashed ∧ rehashed.canInsert = true

def Refines (map : OrderedMap K) : Prop := table.Holds hash map.entries map.deletedOffsets

variable {hash table} {map : OrderedMap K}

theorem lookup_none {key : K} (absent : map.lookup key = none) : ∀ value ∈ map.entries, value.key ≠ key := by
  simpa [OrderedMap.lookup] using absent

variable (holds : table.Refines hash map)
include holds

theorem Refines.lookup_some {key : K} {value : PropertyMapEntry K} (present : map.lookup key = some value) :
    ∃ found place, table.find hash key = some (some found, place) ∧ table.values found = some value ∧
      place < table.indexSize ∧ table.slot place = .full found ∧ value.key = key := by
  have same : value.key = key := by simpa using find?_some present
  obtain ⟨found, place, search, stored, within, atPlace⟩ := holds.find_present (mem_of_find?_eq_some present)
  exact ⟨found, place, same ▸ search, stored, within, atPlace, same⟩

theorem Refines.observes : table.Observes hash map where
  finds := by
    intro key
    unfold get
    cases looked : map.lookup key with
    | none =>
      obtain ⟨place, search⟩ := holds.find_absent (lookup_none looked)
      refine ⟨none, place, search, ?_, rfl⟩
      rw [search, Option.map_some, ite_self]
    | some value =>
      obtain ⟨found, place, search, stored, _⟩ := holds.lookup_some looked
      have positive : table.keyCount ≠ 0 := by
        rw [holds.keyCount]
        exact (length_pos_of_mem (mem_of_find?_eq_some looked)).ne'
      refine ⟨some found, place, search, ?_, congrArg some stored⟩
      rw [if_neg positive, search, Option.map_some]
  iterates := holds.entries
  deletedOffsets := holds.deleted
  empty := by
    obtain ⟨place, within, free⟩ := holds.wellFormed.exists_free
    exact ⟨place, within, slot_eq_empty.mp free⟩
  room := by
    intro newCapacity enough before entry after parts
    have shorter := congrArg length parts
    rw [← holds.wellFormed.count, length_append] at shorter
    obtain ⟨rehashed, done, _, _, _, large, used⟩ :=
      holds.wellFormed.reinsert_part enough ⟨entry :: after, parts.symm⟩
    exact ⟨rehashed, done, decide_eq_true (by omega)⟩

theorem Refines.add (entry : PropertyMapEntry K) (offset : Int) (offsetEffect : EffectOnPropertyOffset) :
    Option.Rel (Refines hash)
      ((table.add hash entry offset offsetEffect).map Prod.fst) (map.add entry offset offsetEffect) := by
  unfold OrderedMap.add
  cases looked : map.lookup entry.key with
  | some value =>
    obtain ⟨found, place, search, stored, _⟩ := holds.lookup_some looked
    simp only [PropertyTable.add, Option.bind_eq_bind, search, Option.bind_some, stored, Option.all_some,
      decide_eq_true_eq]
    split
    · exact .some holds
    · exact .none
  | none =>
    obtain ⟨result, after, done⟩ := holds.add_absent (lookup_none looked) offset offsetEffect
    rw [done]
    cases offsetEffect with
    | propertyOffsetMayChange => exact .some after
    | propertyOffsetMustNotChange =>
      dsimp only
      split
      · exact .some after
      · exact .none

theorem Refines.removeKey (key : K) : ∃ result, table.removeKey hash key = some result ∧
    result.Holds hash (map.entries.filter (·.key ≠ key)) map.deletedOffsets := by
  unfold PropertyTable.removeKey
  cases looked : map.lookup key with
  | none =>
    have absent := lookup_none looked
    obtain ⟨place, search⟩ := holds.find_absent absent
    have all : map.entries.filter (·.key ≠ key) = map.entries := by
      apply filter_eq_self.mpr
      intro value member
      exact decide_eq_true (absent value member)
    rw [search, all]
    exact ⟨table, rfl, holds⟩
  | some value =>
    obtain ⟨found, place, search, stored, within, atPlace, same⟩ := holds.lookup_some looked
    rw [search, ← same]
    exact holds.remove_present stored within atPlace

theorem Refines.step (call : TableCall K) : Option.Rel (Refines hash) (table.step hash call) (map.step call) := by
  cases call with
  | add entry offset offsetEffect => exact holds.add entry offset offsetEffect
  | remove key =>
    obtain ⟨result, done, after⟩ := holds.removeKey key
    rw [PropertyTable.step, done]
    exact .some after
  | copy more =>
    have enough : map.entries.length ≤ table.keyCount + more := by
      rw [holds.keyCount]
      exact Nat.le_add_right _ more
    obtain ⟨result, done, after⟩ := holds.copy_returns enough
    rw [PropertyTable.step, done]
    exact .some after
  | clone => exact .some holds
  | cloneWithCapacity more =>
    obtain ⟨result, done, kept, same, offsets, _⟩ := holds.wellFormed.rehash_returns (Nat.le_add_right _ more)
    rw [PropertyTable.step, done]
    exact .some ⟨kept, same.trans holds.entries, offsets.trans holds.deleted⟩
  | addDeletedOffset offset => exact .some (holds.addDeletedOffset offset)

end PropertyTable

open PropertyTable

def removedAndAdded : List (TableCall Nat) :=
  [.add ⟨7, 0, 0⟩ 0 .propertyOffsetMayChange, .add ⟨8, 1, 0⟩ 1 .propertyOffsetMayChange, .remove 7,
    .add ⟨7, 2, 0⟩ 2 .propertyOffsetMayChange]

/-- The constructor, with the size as it is computed in 32 bits. -/
def PropertyTable.create32 (initialCapacity : BitVec 32) : PropertyTable K :=
  { PropertyTable.create 0 with indexSize := (sizeForCapacity32 initialCapacity).toNat }

end Odyssey.Structures
