import Odyssey.Structures.PropertyTableOperations

namespace Odyssey.Structures

open List

/-- Where the properties of an object are: the properties in the order they were added, and the offsets
    that removed ones have left. Together they take the first offsets. -/
structure Layout (K : Type) where
  inlineCapacity : Nat
  inlineCapacity_lt : inlineCapacity < 100
  properties : List (PropertyMapEntry K)
  deleted : List Int
  nodup : (properties.map PropertyMapEntry.key).Nodup
  offsets : (properties.map PropertyMapEntry.offset ++ deleted).Perm
    (firstOffsets (properties.length + deleted.length) inlineCapacity)

namespace Layout

variable {K : Type} (layout : Layout K)

def slots : Nat := layout.properties.length + layout.deleted.length

def last : Int := lastOffset layout.slots layout.inlineCapacity

def Lacks (name : K) : Prop := ∀ value ∈ layout.properties, value.key ≠ name

def nextOffset : Int :=
  match layout.deleted.getLast? with
  | some offset => offset
  | none => offsetForPropertyNumber layout.properties.length layout.inlineCapacity

theorem small : layout.inlineCapacity ≤ 100 := le_of_lt layout.inlineCapacity_lt

theorem nodup_offsets : (layout.properties.map PropertyMapEntry.offset ++ layout.deleted).Nodup :=
  layout.offsets.nodup_iff.mpr
    (nodup_range.map (StrictMono.injective fun _ _ => offsetForPropertyNumber_lt layout.small))

theorem offset_le_last {offset : Int}
    (taken : offset ∈ layout.properties.map PropertyMapEntry.offset ++ layout.deleted) : offset ≤ layout.last := by
  obtain ⟨number, below, rfl⟩ := mem_map.mp (layout.offsets.mem_iff.mp taken)
  exact offsetForPropertyNumber_le_lastOffset layout.small (mem_range.mp below)

theorem nextOffset_of_holds {hash : K → Nat} {layout : Layout K} {table : PropertyTable K}
    (holds : table.Holds hash layout.properties layout.deleted) :
    ∃ result, table.nextOffset layout.inlineCapacity = (layout.nextOffset, result) ∧
      result.Holds hash layout.properties layout.deleted.dropLast := by
  unfold nextOffset
  rcases eq_nil_or_concat' layout.deleted with fresh | ⟨before, offset, some⟩
  · rw [fresh] at holds ⊢
    refine ⟨table, ?_, holds⟩
    rw [PropertyTable.nextOffset, holds.deleted, ← holds.keyCount]
    rfl
  · rw [some] at holds ⊢
    rw [dropLast_concat]
    refine ⟨{ table with deletedOffsets := before }, ?_, holds.wellFormed.setDeletedOffsets _, holds.entries, rfl⟩
    rw [PropertyTable.nextOffset, holds.deleted, getLast?_concat, dropLast_concat]

def empty (inlineCapacity : Nat) (small : inlineCapacity < 100) : Layout K :=
  { inlineCapacity := inlineCapacity, inlineCapacity_lt := small, properties := [], deleted := [],
    nodup := List.nodup_nil, offsets := List.Perm.refl _ }

theorem offsets_add (layout : Layout K) :
    (layout.properties.map PropertyMapEntry.offset ++ [layout.nextOffset] ++ layout.deleted.dropLast).Perm
      (firstOffsets (layout.properties.length + 1 + layout.deleted.dropLast.length) layout.inlineCapacity) := by
  have offsets := layout.offsets
  unfold nextOffset
  rcases eq_nil_or_concat' layout.deleted with none | ⟨before, offset, some⟩
  · rw [none, append_nil] at offsets
    rw [none, dropLast_nil, append_nil, length_nil, firstOffsets, range_succ, map_append]
    exact offsets.append_right _
  · rw [some, length_append] at offsets
    rw [some, getLast?_concat, dropLast_concat, append_assoc, add_right_comm]
    exact (perm_append_comm.append_left _).trans offsets

def add (layout : Layout K) (name : K) (attributes : BitVec 8) (lacks : layout.Lacks name) : Layout K :=
  { layout with
    properties := layout.properties ++ [⟨name, layout.nextOffset, attributes⟩]
    deleted := layout.deleted.dropLast
    nodup := by
      rw [List.map_append, List.nodup_append]
      refine ⟨layout.nodup, List.nodup_singleton _, ?_⟩
      intro key isKey other isOther same
      obtain ⟨value, member, rfl⟩ := List.mem_map.mp isKey
      exact lacks value member (same.trans (List.mem_singleton.mp isOther))
    offsets := by
      rw [List.map_append, List.length_append]
      exact layout.offsets_add }

section Add

variable (name : K) (attributes : BitVec 8) (lacks : layout.Lacks name)
include layout name attributes lacks

theorem slots_add : (layout.add name attributes lacks).slots =
      layout.properties.length + 1 + layout.deleted.dropLast.length := by
  rw [slots, add, length_append, length_singleton]

theorem last_add_of_fresh (fresh : layout.deleted = []) :
    (layout.add name attributes lacks).last = layout.nextOffset ∧ layout.last < layout.nextOffset := by
  have before : layout.slots = layout.properties.length := by
    rw [slots, fresh, length_nil, add_zero]
  have next : layout.nextOffset = offsetForPropertyNumber layout.slots layout.inlineCapacity := by
    rw [nextOffset, fresh, before]
    rfl
  have after : (layout.add name attributes lacks).slots = layout.slots + 1 := by
    rw [slots_add, fresh, before]
    rfl
  rw [next]
  refine ⟨?_, lastOffset_lt layout.small layout.slots⟩
  rw [last, after]
  rfl

theorem last_add : (layout.add name attributes lacks).last = max layout.last layout.nextOffset := by
  rcases eq_nil_or_concat' layout.deleted with fresh | ⟨before, offset, some⟩
  · obtain ⟨isNext, less⟩ := layout.last_add_of_fresh name attributes lacks fresh
    rw [isNext, max_eq_right (le_of_lt less)]
  · have same : (layout.add name attributes lacks).slots = layout.slots := by
      rw [slots_add, slots, some, dropLast_concat, length_append, length_singleton]
      omega
    have next : layout.nextOffset = offset := by
      rw [nextOffset, some, getLast?_concat]
    have taken : offset ∈ layout.properties.map PropertyMapEntry.offset ++ layout.deleted := by
      rw [some]
      simp
    rw [next, max_eq_left (layout.offset_le_last taken), last, same]
    rfl

end Add

def edit (change : PropertyMapEntry K → BitVec 8) : Layout K :=
  { layout with
    properties := layout.properties.map (fun value => { value with attributes := change value })
    nodup := by
      rw [List.map_map]
      exact layout.nodup
    offsets := by
      rw [List.map_map, List.length_map]
      exact layout.offsets }

theorem last_edit (change : PropertyMapEntry K → BitVec 8) : (layout.edit change).last = layout.last := by
  rw [last, slots, edit, length_map]
  rfl

def flatten : Layout K :=
  { layout with
    properties := PropertyTable.numbered layout.inlineCapacity layout.properties 0
    deleted := []
    nodup := by
      rw [PropertyTable.keys_numbered]
      exact layout.nodup
    offsets := by
      rw [List.append_nil, PropertyTable.offsets_numbered, PropertyTable.length_numbered, ← List.range_eq_range']
      exact List.Perm.refl _ }

theorem last_flatten : layout.flatten.last = lastOffset layout.properties.length layout.inlineCapacity := by
  rw [last, slots, flatten, PropertyTable.length_numbered]
  rfl

variable [DecidableEq K]

def remove (layout : Layout K) (value : PropertyMapEntry K) (member : value ∈ layout.properties) :
    Layout K :=
  { layout with
    properties := layout.properties.filter (·.key ≠ value.key)
    deleted := layout.deleted ++ [value.offset]
    nodup := layout.nodup.sublist (List.filter_sublist.map _)
    offsets := by
      have perm := PropertyTable.perm_filter_key layout.nodup member
      have lengths := perm.length_eq
      have offsets := perm.map PropertyMapEntry.offset
      rw [List.length_append, List.length_singleton] at lengths
      rw [List.map_append] at offsets
      rw [List.length_append, List.length_singleton, ← Nat.add_assoc, Nat.add_right_comm, ← lengths]
      refine List.Perm.trans ?_ layout.offsets
      refine List.Perm.trans ?_ (offsets.symm.append_right layout.deleted)
      rw [List.append_assoc]
      exact List.perm_append_comm.append_left _ }

theorem last_remove (layout : Layout K) {value : PropertyMapEntry K} (member : value ∈ layout.properties) :
    (layout.remove value member).last = layout.last := by
  have lengths := (PropertyTable.perm_filter_key layout.nodup member).length_eq
  rw [length_append, length_singleton] at lengths
  have same : (layout.remove value member).slots = layout.slots := by
    show (layout.properties.filter (·.key ≠ value.key)).length +
      (layout.deleted ++ [value.offset]).length = layout.properties.length + layout.deleted.length
    rw [length_append, length_singleton]
    omega
  rw [last, same]
  rfl

end Layout

end Odyssey.Structures
