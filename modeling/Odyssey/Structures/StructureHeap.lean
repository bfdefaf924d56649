import Odyssey.Structures.Layout
import Odyssey.Structures.Structure

namespace Odyssey.Structures

open List Option Function

variable {K : Type}

/-- The structure has the layout; only uncacheable dictionaries have deleted offsets, and dictionaries
    have a pinned table. -/
structure Structure.Describes (hash : K → Nat) (struct : Structure K) (layout : Layout K) : Prop where
  inlineCapacity : struct.inlineCapacity = layout.inlineCapacity
  offset : struct.offset = layout.last
  table : ∀ table, struct.propertyTable = some table →
    table.Holds hash layout.properties layout.deleted
  fresh : struct.dictionaryKind ≠ .uncachedDictionaryKind → layout.deleted = []
  pinned : struct.isPinnedPropertyTable = true → struct.propertyTable ≠ none
  dictionary : struct.dictionaryKind ≠ .noneDictionaryKind → struct.isPinnedPropertyTable = true

/-- A structure without a pinned table has what the previous one has and its own entry. -/
def Heap.Extends (heap : Heap K) (layouts : Nat → Layout K) (id : Nat) (struct : Structure K)
    (layout : Layout K) : Prop :=
  match struct.previousID with
  | none => layout.properties = struct.ownEntries
  | some previous => previous < id ∧ layout.properties = (layouts previous).properties ++ struct.ownEntries ∧
      layout.inlineCapacity = (layouts previous).inlineCapacity ∧
      ∃ parent, heap.cell previous = some parent ∧ parent.dictionaryKind = .noneDictionaryKind

def Heap.Registered (heap : Heap K) (struct : Structure K) : Prop :=
  ∀ entry ∈ struct.transitionTable, heap.cell entry.2 ≠ none

structure Heap.Sound (hash : K → Nat) (heap : Heap K) (layouts : Nat → Layout K) : Prop where
  allocated : ∀ id struct, heap.cell id = some struct → id < heap.next
  describes : ∀ id struct, heap.cell id = some struct → struct.Describes hash (layouts id)
  chained : ∀ id struct, heap.cell id = some struct → struct.isPinnedPropertyTable = false →
    heap.Extends layouts id struct (layouts id)
  registered : ∀ id struct, heap.cell id = some struct → heap.Registered struct

/-- No structure goes away, and one that is not pinned never was, nor has its layout changed. -/
def Heap.Evolves (heap : Heap K) (layouts : Nat → Layout K) (after : Heap K)
    (layoutsAfter : Nat → Layout K) : Prop :=
  ∀ id struct, heap.cell id = some struct → ∃ later, after.cell id = some later ∧
    (later.isPinnedPropertyTable = false →
      struct.isPinnedPropertyTable = false ∧ layoutsAfter id = layouts id)

variable {hash : K → Nat} {heap : Heap K} {layouts : Nat → Layout K} {id : Nat} {struct : Structure K}

theorem Structure.Describes.fresh_of_none {layout : Layout K} (describes : struct.Describes hash layout)
    (none : struct.dictionaryKind = .noneDictionaryKind) : layout.deleted = [] := by
  refine describes.fresh ?_
  rw [none]
  decide

theorem Structure.Describes.unpinned_of_no_table {layout : Layout K} (describes : struct.Describes hash layout)
    (none : struct.propertyTable = none) : struct.isPinnedPropertyTable = false := by
  rw [← Bool.not_eq_true]
  intro pinned
  exact describes.pinned pinned none

namespace Heap

theorem Evolves.refl : heap.Evolves layouts heap layouts :=
  fun _ struct isCell => ⟨struct, isCell, fun unpinned => ⟨unpinned, rfl⟩⟩

theorem Evolves.trans {middle after : Heap K} {layoutsMiddle layoutsAfter : Nat → Layout K}
    (first : heap.Evolves layouts middle layoutsMiddle)
    (second : middle.Evolves layoutsMiddle after layoutsAfter) : heap.Evolves layouts after layoutsAfter := by
  intro id struct isCell
  obtain ⟨between, isMiddle, firstKept⟩ := first id struct isCell
  obtain ⟨later, isLater, secondKept⟩ := second id between isMiddle
  refine ⟨later, isLater, ?_⟩
  intro unpinned
  obtain ⟨stillUnpinned, same⟩ := secondKept unpinned
  obtain ⟨wasUnpinned, before⟩ := firstKept stillUnpinned
  exact ⟨wasUnpinned, same.trans before⟩

section Materialize

variable {S : Type}

theorem visit_append {functor : S → PropertyMapEntry K → S × Bool}
    (first second : List (PropertyMapEntry K)) (state : S) :
    visit functor (first ++ second) state =
      if (visit functor first state).2 then visit functor second (visit functor first state).1
      else visit functor first state := by
  induction first generalizing state with
  | nil => rfl
  | cons entry rest ih =>
    rcases called : functor state entry with ⟨next, goesOn⟩
    cases goesOn with
    | true => simp [visit, called, ih]
    | false => simp [visit, called]

theorem visit_collect (list result : List (PropertyMapEntry K)) :
    visit (fun result entry => (result ++ [entry], true)) list result = (result ++ list, true) := by
  induction list generalizing result with
  | nil => rw [visit, append_nil]
  | cons entry rest ih =>
    refine (ih (result ++ [entry])).trans ?_
    rw [append_assoc, singleton_append]

section Walk

variable (sound : heap.Sound hash layouts) (isCell : heap.cell id = some struct)
include sound isCell

theorem Sound.find_returns {fuel : Nat} (enough : id < fuel) :
    ∃ structures table, heap.findStructuresAndMapForMaterialization fuel id = some (structures, table) ∧
      (layouts id).properties =
        (table.map PropertyTable.entries).getD [] ++ structures.reverse.flatMap Structure.ownEntries ∧
      (∀ found, table = some found → found.Holds hash found.entries (layouts id).deleted) ∧
      (table = none → (layouts id).deleted = []) := by
  induction fuel generalizing id struct with
  | zero => omega
  | succ fuel ih =>
    have describes := sound.describes id struct isCell
    cases hasTable : struct.propertyTable with
    | some table =>
      have holds := describes.table table hasTable
      refine ⟨[], some table, ?_, ?_, ?_, ?_⟩
      · simp [findStructuresAndMapForMaterialization, isCell, hasTable]
      · simp [holds.entries]
      · rintro _ ⟨⟩
        rw [holds.entries]
        exact holds
      · intro impossible
        cases impossible
    | none =>
      have unpinned := describes.unpinned_of_no_table hasTable
      have fresh := describes.fresh_of_none (by
        by_contra isDictionary
        rw [describes.dictionary isDictionary] at unpinned
        cases unpinned)
      have chained := sound.chained id struct isCell unpinned
      unfold Extends at chained
      cases hasPrevious : struct.previousID with
      | none =>
        rw [hasPrevious] at chained
        refine ⟨[struct], none, ?_, ?_, nofun, fun _ => fresh⟩
        · simp [findStructuresAndMapForMaterialization, isCell, hasTable, hasPrevious]
        · simp [chained]
      | some previous =>
        rw [hasPrevious] at chained
        obtain ⟨before, properties, _, parent, isParent, notDictionary⟩ := chained
        obtain ⟨structures, table, found, list, holds, _⟩ := ih isParent (by omega)
        rw [(sound.describes previous parent isParent).fresh_of_none notDictionary, ← fresh] at holds
        refine ⟨struct :: structures, table, ?_, ?_, holds, fun _ => fresh⟩
        · simp [findStructuresAndMapForMaterialization, isCell, hasTable, hasPrevious, found]
        · rw [properties, list]
          simp

theorem Sound.forEach_eq (functor : S → PropertyMapEntry K → S × Bool) (state : S) :
    heap.forEachPropertyConcurrently id functor state = some (visit functor (layouts id).properties state).1 := by
  obtain ⟨structures, table, found, list, _⟩ := sound.find_returns isCell (sound.allocated id struct isCell)
  rw [forEachPropertyConcurrently, found, list, visit_append]
  simp only [bind_eq_bind, bind_some]
  split <;> rfl

theorem Sound.getPropertiesConcurrently_eq : heap.getPropertiesConcurrently id = some (layouts id).properties := by
  rw [getPropertiesConcurrently, sound.forEach_eq isCell, visit_collect, nil_append]

theorem Sound.slots_eq : numberOfSlotsForLastOffset struct.offset struct.inlineCapacity = (layouts id).slots := by
  have describes := sound.describes id struct isCell
  rw [describes.offset, describes.inlineCapacity]
  exact numberOfSlotsForLastOffset_lastOffset (layouts id).small _

end Walk

variable [DecidableEq K]

def matchUid (uid : K) (result : Int × Option (BitVec 8)) (candidate : PropertyMapEntry K) :
    (Int × Option (BitVec 8)) × Bool :=
  if candidate.key ≠ uid then (result, true) else ((candidate.offset, some candidate.attributes), false)

theorem visit_matchUid_absent {list : List (PropertyMapEntry K)} {uid : K} (absent : ∀ entry ∈ list, entry.key ≠ uid)
    (result : Int × Option (BitVec 8)) : visit (matchUid uid) list result = (result, true) := by
  induction list with
  | nil => rfl
  | cons entry rest ih =>
    rw [visit, matchUid, if_pos (absent entry mem_cons_self)]
    exact ih (fun other later => absent other (mem_cons_of_mem _ later))

theorem visit_matchUid_present {list : List (PropertyMapEntry K)} {entry : PropertyMapEntry K}
    (nodup : (list.map PropertyMapEntry.key).Nodup) (member : entry ∈ list) (result : Int × Option (BitVec 8)) :
    visit (matchUid entry.key) list result = ((entry.offset, some entry.attributes), false) := by
  induction list with
  | nil => cases member
  | cons head rest ih =>
    rw [map_cons, nodup_cons] at nodup
    rcases mem_cons.mp member with rfl | later
    · rw [visit, matchUid, if_neg (not_not.mpr rfl)]
    · have apart : head.key ≠ entry.key := by
        intro same
        exact nodup.1 (same ▸ mem_map_of_mem later)
      rw [visit, matchUid, if_pos apart]
      exact ih nodup.2 later

theorem add_all {table : PropertyTable K} {entries list : List (PropertyMapEntry K)} {deleted : List Int}
    {offset : Int} (holds : table.Holds hash entries deleted)
    (nodup : ((entries ++ list).map PropertyMapEntry.key).Nodup) (below : ∀ entry ∈ list, entry.offset ≤ offset) :
    ∃ result, list.foldlM (fun table entry =>
        (table.add hash entry offset .propertyOffsetMustNotChange).map Prod.fst) table = some result ∧
      result.Holds hash (entries ++ list) deleted := by
  induction list generalizing table entries with
  | nil =>
    refine ⟨table, rfl, ?_⟩
    rw [append_nil]
    exact holds
  | cons entry list ih =>
    have absent : ∀ value ∈ entries, value.key ≠ entry.key := by
      intro value member same
      rw [map_append, nodup_append] at nodup
      exact nodup.2.2 value.key (mem_map_of_mem member) entry.key mem_cons_self same
    obtain ⟨added, addedHolds, isAdded⟩ := holds.add_absent absent offset .propertyOffsetMustNotChange
    simp only [if_pos (below entry mem_cons_self)] at isAdded
    rw [append_cons] at nodup ⊢
    obtain ⟨result, done, kept⟩ := ih addedHolds nodup (fun other later => below other (mem_cons_of_mem _ later))
    refine ⟨result, ?_, kept⟩
    rw [foldlM_cons, isAdded]
    exact done

variable (sound : heap.Sound hash layouts) (isCell : heap.cell id = some struct)
include sound isCell

theorem Sound.materialize_returns : ∃ table, heap.materializePropertyTable hash id = some table ∧
      table.Holds hash (layouts id).properties (layouts id).deleted := by
  have describes := sound.describes id struct isCell
  obtain ⟨structures, found, walked, list, holds, noneDeleted⟩ :=
    sound.find_returns isCell (sound.allocated id struct isCell)
  have nodup := (layouts id).nodup
  have below : ∀ entry ∈ structures.reverse.flatMap Structure.ownEntries, entry.offset ≤ struct.offset := by
    intro entry member
    have isProperty : entry ∈ (layouts id).properties := by
      rw [list]
      exact mem_append_right _ member
    rw [describes.offset]
    exact (layouts id).offset_le_last (mem_append_left _ (mem_map_of_mem isProperty))
  rw [list] at nodup
  obtain ⟨base, isBase, baseHolds⟩ : ∃ base,
      copyOrCreate hash found (numberOfSlotsForLastOffset struct.offset struct.inlineCapacity) = some base ∧
      base.Holds hash ((found.map PropertyTable.entries).getD []) (layouts id).deleted := by
    rw [sound.slots_eq isCell]
    cases found with
    | some table =>
      refine (holds table rfl).copy_returns ?_
      rw [Layout.slots, list, length_append]
      simp only [map_some, getD_some]
      omega
    | none =>
      refine ⟨_, rfl, PropertyTable.wellFormed_create _, rfl, ?_⟩
      rw [noneDeleted rfl]
      rfl
  obtain ⟨result, done, kept⟩ := add_all baseHolds nodup below
  refine ⟨result, ?_, list ▸ kept⟩
  rw [materializePropertyTable, isCell]
  simp only [bind_eq_bind, bind_some, walked, isBase]
  exact done

end Materialize

theorem cell_write (heap : Heap K) (id : Nat) (struct : Structure K) (other : Nat) :
    (heap.write id struct).cell other = if other = id then some struct else heap.cell other :=
  update_apply ..

theorem cell_write_ne_none (heap : Heap K) (id : Nat) (struct : Structure K) {other : Nat}
    (there : heap.cell other ≠ none) : (heap.write id struct).cell other ≠ none := by
  rw [cell_write]
  split
  · exact some_ne_none _
  · exact there

theorem allocate_write (heap : Heap K) (first second : Structure K) :
    (heap.allocate first).1.write heap.next second = (heap.allocate second).1 := by
  simp [allocate, write]

variable {layout : Layout K}

theorem Extends.transfer {after : Heap K} {layoutsAfter : Nat → Layout K}
    (chained : heap.Extends layouts id struct layout)
    (kept : ∀ previous parent, previous < id → struct.previousID = some previous →
      heap.cell previous = some parent → parent.dictionaryKind = .noneDictionaryKind →
      (layoutsAfter previous).properties = (layouts previous).properties ∧
      (layoutsAfter previous).inlineCapacity = (layouts previous).inlineCapacity ∧
      ∃ later, after.cell previous = some later ∧ later.dictionaryKind = .noneDictionaryKind) :
    after.Extends layoutsAfter id struct layout := by
  unfold Extends at chained ⊢
  cases hasPrevious : struct.previousID with
  | none =>
    rw [hasPrevious] at chained
    exact chained
  | some previous =>
    rw [hasPrevious] at chained
    obtain ⟨before, properties, capacity, parent, isParent, notDictionary⟩ := chained
    obtain ⟨sameProperties, sameCapacity, later⟩ := kept previous parent before hasPrevious isParent notDictionary
    exact ⟨before, sameProperties ▸ properties, sameCapacity ▸ capacity, later⟩

structure MayBecome (hash : K → Nat) (heap : Heap K) (layouts : Nat → Layout K) (id : Nat)
    (struct after : Structure K) (layout : Layout K) : Prop where
  describes : after.Describes hash layout
  capacity : layout.inlineCapacity = (layouts id).inlineCapacity
  chained : after.isPinnedPropertyTable = false → heap.Extends layouts id after layout
  unpinned : after.isPinnedPropertyTable = false →
    struct.isPinnedPropertyTable = false ∧ layout = layouts id
  extended : ∀ other child, heap.cell other = some child → child.isPinnedPropertyTable = false →
    child.previousID = some id →
    layout.properties = (layouts id).properties ∧ after.dictionaryKind = .noneDictionaryKind
  registered : heap.Registered after

variable (sound : heap.Sound hash layouts)
include sound

theorem Sound.put {after : Structure K} {next : Nat} (later : heap.next ≤ next) (inside : id < next)
    (describes : after.Describes hash layout)
    (chained : after.isPinnedPropertyTable = false → heap.Extends layouts id after layout)
    (registered : heap.Registered after)
    (present : ∀ struct, heap.cell id = some struct → MayBecome hash heap layouts id struct after layout) :
    (({ heap with next := next } : Heap K).write id after).Sound hash (Function.update layouts id layout) ∧
      heap.Evolves layouts (({ heap with next := next } : Heap K).write id after)
        (Function.update layouts id layout) := by
  have cells := cell_write { heap with next := next } id after
  have apart : ∀ {other}, other ≠ id → update layouts id layout other = layouts other :=
    fun distinct => update_of_ne distinct ..
  refine ⟨⟨?_, ?_, ?_, ?_⟩, ?_⟩
  · intro other found here
    rw [cells] at here
    split_ifs at here with same
    · exact same ▸ inside
    · exact (sound.allocated other found here).trans_le later
  · intro other found here
    rw [cells] at here
    split_ifs at here with same
    · cases here
      rw [same, update_self]
      exact describes
    · rw [apart same]
      exact sound.describes other found here
  · intro other found here unpinned
    rw [cells] at here
    split at here
    · rename_i same
      cases here
      subst same
      rw [update_self]
      refine (chained unpinned).transfer ?_
      intro previous parent before _ isParent notDictionary
      have distinct : previous ≠ other := by omega
      rw [apart distinct, cells, if_neg distinct]
      exact ⟨rfl, rfl, parent, isParent, notDictionary⟩
    · rename_i distinct
      rw [apart distinct]
      refine (sound.chained other found here unpinned).transfer ?_
      intro previous parent _ isPrevious isParent notDictionary
      by_cases same : previous = id
      · subst same
        have may := present parent isParent
        obtain ⟨properties, stillNot⟩ := may.extended other found here unpinned isPrevious
        rw [update_self, cells, if_pos rfl]
        exact ⟨properties, may.capacity, after, rfl, stillNot⟩
      · rw [apart same, cells, if_neg same]
        exact ⟨rfl, rfl, parent, isParent, notDictionary⟩
  · intro other found here entry isEntry
    refine cell_write_ne_none _ id after ?_
    rw [cells] at here
    split at here
    · cases here
      exact registered entry isEntry
    · exact sound.registered other found here entry isEntry
  · intro other found here
    rw [cells]
    by_cases same : other = id
    · subst same
      rw [if_pos rfl, update_self]
      exact ⟨after, rfl, (present found here).unpinned⟩
    · rw [if_neg same, apart same]
      exact ⟨found, here, fun unpinned => ⟨unpinned, rfl⟩⟩

theorem Sound.write (isCell : heap.cell id = some struct) {after : Structure K}
    (may : MayBecome hash heap layouts id struct after layout) :
    (heap.write id after).Sound hash (Function.update layouts id layout) ∧
      heap.Evolves layouts (heap.write id after) (Function.update layouts id layout) := by
  refine sound.put le_rfl (sound.allocated id struct isCell) may.describes may.chained may.registered ?_
  intro found here
  cases isCell.symm.trans here
  exact may

theorem Sound.allocate {new : Structure K} (describes : new.Describes hash layout)
    (transitions : new.transitionTable = [])
    (chained : new.isPinnedPropertyTable = false → heap.Extends layouts heap.next new layout) :
    (heap.allocate new).1.Sound hash (Function.update layouts heap.next layout) ∧
      heap.Evolves layouts (heap.allocate new).1 (Function.update layouts heap.next layout) := by
  refine sound.put (Nat.le_succ _) (Nat.lt_succ_self _) describes chained ?_ ?_
  · intro entry isEntry
    rw [transitions] at isEntry
    cases isEntry
  · intro found here
    exact absurd (sound.allocated heap.next found here) (lt_irrefl _)

theorem Sound.kind_of_previous (isCell : heap.cell id = some struct) {other : Nat} {child : Structure K}
    (isChild : heap.cell other = some child) (unpinned : child.isPinnedPropertyTable = false)
    (isPrevious : child.previousID = some id) : struct.dictionaryKind = .noneDictionaryKind := by
  have chained := sound.chained other child isChild unpinned
  rw [Extends, isPrevious] at chained
  obtain ⟨_, _, _, parent, isParent, notDictionary⟩ := chained
  cases isCell.symm.trans isParent
  exact notDictionary

theorem Sound.retable (isCell : heap.cell id = some struct) {table : Option (PropertyTable K)}
    {transitions : List ((Option K × BitVec 8) × Nat)}
    (holds : ∀ found, table = some found → found.Holds hash (layouts id).properties (layouts id).deleted)
    (pinned : struct.isPinnedPropertyTable = true → table ≠ none)
    (registered : ∀ entry ∈ transitions, heap.cell entry.2 ≠ none) :
    (heap.write id { struct with propertyTable := table, transitionTable := transitions }).Sound hash layouts ∧
      heap.Evolves layouts
        (heap.write id { struct with propertyTable := table, transitionTable := transitions }) layouts := by
  have describes := sound.describes id struct isCell
  have may : MayBecome hash heap layouts id struct
      { struct with propertyTable := table, transitionTable := transitions } (layouts id) := by
    refine ⟨?_, rfl, ?_, fun unpinned => ⟨unpinned, rfl⟩, ?_, registered⟩
    · exact ⟨describes.inlineCapacity, describes.offset, holds, describes.fresh, pinned, describes.dictionary⟩
    · exact fun unpinned => sound.chained id struct isCell unpinned
    · intro other child isChild unpinned isPrevious
      have notDictionary := sound.kind_of_previous isCell isChild unpinned isPrevious
      exact ⟨rfl, notDictionary⟩
  have written := sound.write isCell may
  rw [update_eq_self] at written
  exact written

end Heap

end Odyssey.Structures
