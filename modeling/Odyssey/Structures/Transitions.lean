import Odyssey.Structures.StructureHeap

namespace Odyssey.Structures

open List Option Function Structure

variable {K : Type} {hash : K → Nat} {heap : Heap K} {layouts : Nat → Layout K} {id : Nat}
  {struct : Structure K} {layout : Layout K}

def Heap.Continues (hash : K → Nat) (heap : Heap K) (layouts : Nat → Layout K) (after : Heap K) : Prop :=
  ∃ layoutsAfter, after.Sound hash layoutsAfter ∧ heap.Evolves layouts after layoutsAfter

def Heap.Returns {α : Type} (hash : K → Nat) (heap : Heap K) (layouts : Nat → Layout K)
    (operation : Option (Heap K × α)) : Prop :=
  ∃ after result, operation = some (after, result) ∧ Heap.Continues hash heap layouts after

def Structure.withAdded (struct : Structure K) (shouldPin : Bool) (table : PropertyTable K)
    (offset : Int) : Structure K :=
  if shouldPin then { struct.pin table with offset := offset }
  else { struct with propertyTable := some table, offset := offset }

namespace Structure

variable {table : PropertyTable K} {name : K}

theorem Describes.of_table (isTable : struct.propertyTable = some table)
    (capacity : struct.inlineCapacity = layout.inlineCapacity) (offset : struct.offset = layout.last)
    (holds : table.Holds hash layout.properties layout.deleted)
    (fresh : struct.dictionaryKind ≠ .uncachedDictionaryKind → layout.deleted = [])
    (dictionary : struct.dictionaryKind ≠ .noneDictionaryKind → struct.isPinnedPropertyTable = true) :
    struct.Describes hash layout := by
  refine ⟨capacity, offset, ?_, fresh, fun _ => isTable ▸ some_ne_none table, dictionary⟩
  intro found isFound
  cases isTable.symm.trans isFound
  exact holds

theorem isDictionary_of_uncached (uncacheable : struct.dictionaryKind = .uncachedDictionaryKind) :
    struct.dictionaryKind ≠ .noneDictionaryKind := by
  rw [uncacheable]
  decide

variable (describes : struct.Describes hash layout)
include describes

theorem Describes.withAdded {attributes : BitVec 8} {lacks : layout.Lacks name}
    (holds : table.Holds hash (layout.add name attributes lacks).properties (layout.add name attributes lacks).deleted)
    (shouldPin : Bool) :
    (struct.withAdded shouldPin table (layout.add name attributes lacks).last).Describes hash
      (layout.add name attributes lacks) := by
  have fresh : struct.dictionaryKind ≠ .uncachedDictionaryKind → layout.deleted.dropLast = [] := by
    intro cacheable
    rw [describes.fresh cacheable]
    rfl
  cases shouldPin with
  | true => exact .of_table rfl describes.inlineCapacity rfl holds fresh (fun _ => rfl)
  | false => exact .of_table rfl describes.inlineCapacity rfl holds fresh describes.dictionary

theorem Describes.retable {after : Layout K} (capacity : after.inlineCapacity = layout.inlineCapacity)
    (last : after.last = layout.last) (holds : table.Holds hash after.properties after.deleted)
    (fresh : struct.dictionaryKind ≠ .uncachedDictionaryKind → after.deleted = []) :
    Describes hash { struct with propertyTable := some table } after :=
  .of_table rfl (describes.inlineCapacity.trans capacity.symm) (describes.offset.trans last.symm) holds fresh
    describes.dictionary

theorem Describes.collect (drops : Bool) (alive : Nat → Bool) : (struct.collect drops alive).Describes hash layout := by
  refine ⟨describes.inlineCapacity, describes.offset, ?_, describes.fresh, ?_, describes.dictionary⟩
  · intro table isTable
    simp only [Structure.collect] at isTable
    split at isTable
    · cases isTable
    · exact describes.table table isTable
  · intro pinned
    have isPinned : struct.isPinnedPropertyTable = true := pinned
    simp only [Structure.collect, isPinned]
    exact describes.pinned isPinned

theorem Describes.flatten_returns (dictionary : struct.dictionaryKind ≠ .noneDictionaryKind) :
    ∃ after flattened, struct.flattenDictionaryStructure = some after ∧
      flattened.inlineCapacity = layout.inlineCapacity ∧ after.Describes hash flattened ∧
      after.isPinnedPropertyTable = true ∧ after.transitionTable = struct.transitionTable := by
  have pinned := describes.dictionary dictionary
  unfold flattenDictionaryStructure
  by_cases uncacheable : struct.dictionaryKind = .uncachedDictionaryKind
  · obtain ⟨table, hasTable⟩ := ne_none_iff_exists'.mp (describes.pinned pinned)
    have holds := describes.table table hasTable
    obtain ⟨result, renumbered, resultHolds⟩ : ∃ result,
        PropertyTable.renumber layout.inlineCapacity (range table.usedCount) 0 invalidOffset table =
          (result, lastOffset layout.properties.length layout.inlineCapacity) ∧
        result.Holds hash (PropertyTable.numbered layout.inlineCapacity layout.properties 0)
          layout.deleted := holds.renumber
    refine ⟨{ struct with
      propertyTable := some result.clearDeletedOffsets
      offset := lastOffset layout.properties.length layout.inlineCapacity
      dictionaryKind := .noneDictionaryKind }, layout.flatten, ?_, rfl, ?_, pinned, rfl⟩
    · simp [isUncacheableDictionary, uncacheable, hasTable, describes.inlineCapacity, renumbered]
    · exact .of_table rfl describes.inlineCapacity layout.last_flatten.symm resultHolds.clearDeletedOffsets
        (fun _ => rfl) (fun impossible => absurd rfl impossible)
  · refine ⟨_, layout, if_neg (by simpa [isUncacheableDictionary] using uncacheable), rfl, ?_, pinned, rfl⟩
    exact ⟨describes.inlineCapacity, describes.offset, describes.table, fun _ => describes.fresh uncacheable,
      describes.pinned, fun impossible => absurd rfl impossible⟩

variable [DecidableEq K]

theorem Describes.add_returns (holds : table.Holds hash layout.properties layout.deleted)
    (lacks : layout.Lacks name) (attributes : BitVec 8) (shouldPin : Bool) :
    ∃ result, struct.add hash shouldPin table name attributes =
        some (struct.withAdded shouldPin result (layout.add name attributes lacks).last, layout.nextOffset) ∧
      (struct.withAdded shouldPin result (layout.add name attributes lacks).last).Describes hash
        (layout.add name attributes lacks) := by
  obtain ⟨middle, next, middleHolds⟩ := Layout.nextOffset_of_holds holds
  have absent : ∀ value ∈ layout.properties,
      value.key ≠ (⟨name, layout.nextOffset, attributes⟩ : PropertyMapEntry K).key := lacks
  obtain ⟨result, resultHolds, added⟩ := middleHolds.add_absent absent layout.last .propertyOffsetMayChange
  refine ⟨result, ?_, describes.withAdded resultHolds shouldPin⟩
  rw [layout.last_add]
  unfold add
  cases shouldPin <;>
    simp [pin, pinForCaching, Structure.withAdded, describes.inlineCapacity, describes.offset, next, added]

theorem Describes.remove_returns (uncacheable : struct.dictionaryKind = .uncachedDictionaryKind) (name : K) :
    ∃ table offset after, struct.remove hash name = some ({ struct with propertyTable := some table }, offset) ∧
      after.inlineCapacity = layout.inlineCapacity ∧
      Describes hash { struct with propertyTable := some table } after := by
  have pinned := describes.dictionary (isDictionary_of_uncached uncacheable)
  obtain ⟨table, hasTable⟩ := ne_none_iff_exists'.mp (describes.pinned pinned)
  have holds := describes.table table hasTable
  have cacheless : struct.dictionaryKind ≠ .uncachedDictionaryKind → ∀ list : List Int, list = [] :=
    fun cacheable => absurd uncacheable cacheable
  unfold remove
  by_cases lacks : layout.Lacks name
  · obtain ⟨place, search⟩ := holds.find_absent lacks
    refine ⟨table, invalidOffset, layout, ?_, rfl, describes.retable rfl rfl holds describes.fresh⟩
    simp [hasTable, search]
    rw [← hasTable]
  · simp only [Layout.Lacks, not_forall, not_not] at lacks
    obtain ⟨value, member, rfl⟩ := lacks
    obtain ⟨found, place, search, stored, within, slot⟩ := holds.find_present member
    obtain ⟨result, removed, resultHolds⟩ := holds.remove_present stored within slot
    refine ⟨result.addDeletedOffset value.offset, value.offset, layout.remove value member, ?_, rfl,
      describes.retable rfl (layout.last_remove member) (resultHolds.addDeletedOffset value.offset)
        (fun cacheable => cacheless cacheable _)⟩
    simp [hasTable, search, stored, removed]

theorem Describes.setAttributes_returns (holds : table.Holds hash layout.properties layout.deleted)
    (has : ¬layout.Lacks name) (attributes : BitVec 8) :
    ∃ found after, table.get hash name = some (some found) ∧ after.inlineCapacity = layout.inlineCapacity ∧
      Describes hash { struct with propertyTable := some (table.setAttributes found attributes) } after := by
  simp only [Layout.Lacks, not_forall, not_not] at has
  obtain ⟨value, member, rfl⟩ := has
  obtain ⟨found, got, stored⟩ := holds.get_present member
  refine ⟨found, layout.edit (fun other => if other.key = value.key then attributes else other.attributes),
    got, rfl, describes.retable rfl (layout.last_edit _) ?_ describes.fresh⟩
  have edited := holds.setAttributes stored attributes
  refine ⟨edited.wellFormed, edited.entries.trans (map_congr_left ?_), edited.deleted⟩
  intro other _
  by_cases same : other.key = value.key <;> simp [same]

end Structure

namespace Heap

def Unextended (heap : Heap K) (id : Nat) : Prop :=
  ∀ other child, heap.cell other = some child → child.isPinnedPropertyTable = false →
    child.previousID ≠ some id

variable {new : Structure K} {name : K}

theorem Sound.allocate_pinned (sound : heap.Sound hash layouts) (describes : new.Describes hash layout)
    (pinned : new.isPinnedPropertyTable = true) (transitions : new.transitionTable = []) :
    Continues hash heap layouts (heap.allocate new).1 := by
  refine ⟨_, sound.allocate describes transitions ?_⟩
  intro unpinned
  rw [pinned] at unpinned
  cases unpinned

theorem Continues.trans {middle after : Heap K} {layoutsMiddle : Nat → Layout K}
    (evolves : heap.Evolves layouts middle layoutsMiddle)
    (continues : Continues hash middle layoutsMiddle after) : Continues hash heap layouts after := by
  obtain ⟨layoutsAfter, sound, later⟩ := continues
  exact ⟨layoutsAfter, sound, evolves.trans later⟩

theorem Sound.collect_continues (sound : heap.Sound hash layouts) (drops alive : Nat → Bool) :
    Continues hash heap layouts (heap.collect drops alive) := by
  have cells : ∀ other, (heap.collect drops alive).cell other =
      (heap.cell other).map (fun struct => struct.collect (drops other) alive) := fun _ => rfl
  refine ⟨layouts, ⟨?_, ?_, ?_, ?_⟩, ?_⟩
  · intro other found here
    obtain ⟨before, isBefore, _⟩ := map_eq_some_iff.mp here
    exact sound.allocated other before isBefore
  · intro other found here
    obtain ⟨before, isBefore, rfl⟩ := map_eq_some_iff.mp here
    exact (sound.describes other before isBefore).collect (drops other) alive
  · intro other found here unpinned
    obtain ⟨before, isBefore, rfl⟩ := map_eq_some_iff.mp here
    have chained : heap.Extends layouts other (before.collect (drops other) alive) (layouts other) :=
      sound.chained other before isBefore unpinned
    refine chained.transfer ?_
    intro previous parent _ _ isParent notDictionary
    exact ⟨rfl, rfl, _, (cells previous).trans (congrArg _ isParent), notDictionary⟩
  · intro other found here entry isEntry
    obtain ⟨before, isBefore, rfl⟩ := map_eq_some_iff.mp here
    have there := sound.registered other before isBefore entry (mem_of_mem_filter isEntry)
    exact fun none => there (map_eq_none_iff.mp none)
  · intro other found here
    exact ⟨_, (cells other).trans (congrArg _ here), fun unpinned => ⟨unpinned, rfl⟩⟩

theorem add_allocated [DecidableEq K] (hash : K → Nat) (heap : Heap K) {table : PropertyTable K}
    (hasTable : new.propertyTable = some table) (shouldPin : Bool) (name : K) (attributes : BitVec 8) :
    (heap.allocate new).1.add hash shouldPin heap.next name attributes =
      (new.add hash shouldPin table name attributes).map (fun result => ((heap.allocate result.1).1, result.2)) := by
  have isCell : (heap.allocate new).1.cell heap.next = some new := update_self ..
  unfold add ensurePropertyTable
  simp only [bind_eq_bind, isCell, bind_some, hasTable]
  cases new.add hash shouldPin table name attributes with
  | none => rfl
  | some result => simp [allocate_write]

theorem remove_allocated [DecidableEq K] (hash : K → Nat) (heap : Heap K) (new : Structure K) (name : K) :
    (heap.allocate new).1.remove hash heap.next name =
      (new.remove hash name).map (fun result => ((heap.allocate result.1).1, result.2)) := by
  have isCell : (heap.allocate new).1.cell heap.next = some new := update_self ..
  unfold remove
  simp only [bind_eq_bind, isCell, bind_some]
  cases new.remove hash name with
  | none => rfl
  | some result => simp [allocate_write]

variable (sound : heap.Sound hash layouts) (isCell : heap.cell id = some struct)
include sound isCell

theorem Sound.unextended_of_dictionary (dictionary : struct.dictionaryKind ≠ .noneDictionaryKind) : heap.Unextended id := by
  intro other child isChild unpinned isPrevious
  exact dictionary (sound.kind_of_previous isCell isChild unpinned isPrevious)

theorem Sound.write_pinned {after : Structure K} (describes : after.Describes hash layout)
    (capacity : layout.inlineCapacity = (layouts id).inlineCapacity) (pinned : after.isPinnedPropertyTable = true)
    (transitions : after.transitionTable = struct.transitionTable) (alone : heap.Unextended id) :
    Continues hash heap layouts (heap.write id after) := by
  have contradicts : ¬after.isPinnedPropertyTable = false := by
    rw [pinned]
    decide
  refine ⟨_, sound.write isCell ⟨describes, capacity, fun unpinned => absurd unpinned contradicts,
    fun unpinned => absurd unpinned contradicts, ?_, ?_⟩⟩
  · intro other child isChild unpinned isPrevious
    exact absurd isPrevious (alone other child isChild unpinned)
  · intro entry isEntry
    rw [transitions] at isEntry
    exact sound.registered id struct isCell entry isEntry

theorem Sound.addTransition_returns {transition : Nat} {added : Structure K}
    (isAdded : heap.cell transition = some added) :
    ∃ after, heap.addTransition id transition = some after ∧ Continues hash heap layouts after := by
  have describes := sound.describes id struct isCell
  have registered : ∀ entry ∈ ((added.nameInPrevious, added.attributesInPrevious), transition) ::
      struct.transitionTable, heap.cell entry.2 ≠ none := by
    intro entry isEntry
    rcases mem_cons.mp isEntry with rfl | before
    · rw [isAdded]
      exact some_ne_none _
    · exact sound.registered id struct isCell entry before
  refine ⟨_, ?_, layouts, sound.retable isCell describes.table describes.pinned registered⟩
  simp [addTransition, isCell, isAdded]

theorem Sound.flatten_continues (dictionary : struct.dictionaryKind ≠ .noneDictionaryKind) :
    ∃ after, heap.flattenDictionaryStructure id = some after ∧ Continues hash heap layouts after := by
  obtain ⟨after, flattened, done, capacity, describes, pinned, transitions⟩ :=
    (sound.describes id struct isCell).flatten_returns dictionary
  refine ⟨_, ?_, sound.write_pinned isCell describes capacity pinned transitions
    (sound.unextended_of_dictionary isCell dictionary)⟩
  simp [flattenDictionaryStructure, isCell, done]

theorem Sound.allocate_addTransition (describes : new.Describes hash layout) (transitions : new.transitionTable = [])
    (chained : new.isPinnedPropertyTable = false → heap.Extends layouts heap.next new layout) :
    ∃ after, (heap.allocate new).1.addTransition id heap.next = some after ∧ Continues hash heap layouts after := by
  obtain ⟨allocatedSound, evolves⟩ := sound.allocate describes transitions chained
  have newCell : (heap.allocate new).1.cell heap.next = some new := update_self ..
  have oldCell : (heap.allocate new).1.cell id = some struct :=
    (update_of_ne (ne_of_lt (sound.allocated id struct isCell)) ..).trans isCell
  obtain ⟨after, done, continues⟩ := allocatedSound.addTransition_returns oldCell newCell
  exact ⟨after, done, Continues.trans evolves continues⟩

variable [DecidableEq K]

theorem Sound.ensure_returns : ∃ after table, heap.ensurePropertyTable hash id = some (after, table) ∧
      table.Holds hash (layouts id).properties (layouts id).deleted ∧
      after.cell id = some { struct with propertyTable := some table } ∧
      (heap.Unextended id → after.Unextended id) ∧ after.Sound hash layouts ∧ heap.Evolves layouts after layouts := by
  have describes := sound.describes id struct isCell
  cases hasTable : struct.propertyTable with
  | some table =>
    refine ⟨heap, table, ?_, describes.table table hasTable, ?_, fun alone => alone, sound, Evolves.refl⟩
    · simp [ensurePropertyTable, isCell, hasTable]
    · rw [isCell, ← hasTable]
  | none =>
    obtain ⟨table, materialized, holds⟩ := sound.materialize_returns isCell
    refine ⟨_, table, ?_, holds, update_self .., ?_, sound.retable isCell ?_ (fun _ => some_ne_none _)
      (sound.registered id struct isCell)⟩
    · simp [ensurePropertyTable, isCell, hasTable, materialized]
    · intro alone other child isChild unpinned isPrevious
      rw [cell_write] at isChild
      split at isChild
      · cases isChild
        exact alone id struct isCell unpinned isPrevious
      · exact alone other child isChild unpinned isPrevious
    · exact fun _ isTable => some.inj isTable ▸ holds

theorem Sound.copy_returns : ∃ table, heap.copyPropertyTableForPinning hash id = some table ∧
      table.Holds hash (layouts id).properties (layouts id).deleted := by
  cases hasTable : struct.propertyTable with
  | some table =>
    refine ⟨table, ?_, (sound.describes id struct isCell).table table hasTable⟩
    simp [copyPropertyTableForPinning, isCell, hasTable]
  | none =>
    obtain ⟨table, materialized, holds⟩ := sound.materialize_returns isCell
    refine ⟨table, ?_, holds⟩
    simp [copyPropertyTableForPinning, isCell, hasTable, materialized]

theorem Sound.take_returns : ∃ after table left, heap.takePropertyTableOrCloneIfPinned hash id = some (after, table) ∧
      table.Holds hash (layouts id).properties (layouts id).deleted ∧
      after.Sound hash layouts ∧ heap.Evolves layouts after layouts ∧
      after.cell id = some { struct with propertyTable := left } := by
  have describes := sound.describes id struct isCell
  cases hasTable : struct.propertyTable with
  | some table =>
    have holds := describes.table table hasTable
    by_cases pinned : struct.isPinnedPropertyTable = true
    · have enough : (layouts id).properties.length ≤ table.size + 1 := by
        rw [PropertyTable.size, holds.keyCount]
        omega
      obtain ⟨copied, done, copiedHolds⟩ := holds.copy_returns enough
      refine ⟨heap, copied, struct.propertyTable, ?_, copiedHolds, sound, Evolves.refl, isCell⟩
      simp [takePropertyTableOrCloneIfPinned, isCell, hasTable, pinned, done]
    · refine ⟨heap.write id { struct with propertyTable := none }, table, none, ?_, holds, ?_⟩
      · simp [takePropertyTableOrCloneIfPinned, isCell, hasTable, pinned]
      · have dropped : ∀ found, (none : Option (PropertyTable K)) = some found →
            found.Holds hash (layouts id).properties (layouts id).deleted := nofun
        have left := sound.retable isCell dropped (fun isPinned => absurd isPinned pinned)
          (sound.registered id struct isCell)
        exact ⟨left.1, left.2, update_self ..⟩
  | none =>
    obtain ⟨table, materialized, holds⟩ := sound.materialize_returns isCell
    refine ⟨heap, table, struct.propertyTable, ?_, holds, sound, Evolves.refl, isCell⟩
    simp [takePropertyTableOrCloneIfPinned, isCell, hasTable, materialized]

theorem Sound.createPinned_returns (kind : DictionaryKind)
    (fresh : kind ≠ .uncachedDictionaryKind → (layouts id).deleted = []) :
    ∃ new table, heap.createPinned hash id kind = some ((heap.allocate new).1, heap.next) ∧
      new.Describes hash (layouts id) ∧ new.propertyTable = some table ∧
      new.isPinnedPropertyTable = true ∧ new.dictionaryKind = kind ∧ new.transitionTable = [] := by
  have describes := sound.describes id struct isCell
  obtain ⟨table, copied, holds⟩ := sound.copy_returns isCell
  refine ⟨{ (struct.create id).pin table with offset := struct.offset, dictionaryKind := kind }, table,
    ?_, ?_, rfl, rfl, rfl, rfl⟩
  · simp [createPinned, isCell, copied]
    rfl
  · exact .of_table rfl describes.inlineCapacity describes.offset holds fresh (fun _ => rfl)

theorem Sound.createPinned_continues (kind : DictionaryKind)
    (fresh : kind ≠ .uncachedDictionaryKind → (layouts id).deleted = []) :
    Returns hash heap layouts (heap.createPinned hash id kind) := by
  obtain ⟨new, table, done, describes, _, pinned, _, transitions⟩ := sound.createPinned_returns isCell kind fresh
  exact ⟨_, _, done, sound.allocate_pinned describes pinned transitions⟩

theorem Sound.removePropertyTransition_continues (name : K) :
    Returns hash heap layouts (heap.removePropertyTransition hash id name) := by
  obtain ⟨new, table, done, describes, _, pinned, uncacheable, transitions⟩ :=
    sound.createPinned_returns isCell .uncachedDictionaryKind (fun impossible => absurd rfl impossible)
  obtain ⟨result, offset, after, removed, _, afterDescribes⟩ := describes.remove_returns uncacheable name
  refine ⟨(heap.allocate { new with propertyTable := some result }).1, (heap.next, offset), ?_,
    sound.allocate_pinned afterDescribes pinned transitions⟩
  unfold removePropertyTransition toUncacheableDictionaryTransition
  simp [done, remove_allocated, removed]

theorem Sound.remove_continues (uncacheable : struct.dictionaryKind = .uncachedDictionaryKind) (name : K) :
    Returns hash heap layouts (heap.remove hash id name) := by
  have dictionary := isDictionary_of_uncached uncacheable
  have describes := sound.describes id struct isCell
  obtain ⟨result, offset, after, removed, capacity, afterDescribes⟩ := describes.remove_returns uncacheable name
  refine ⟨_, offset, ?_, sound.write_pinned isCell afterDescribes capacity
    (describes.dictionary dictionary) rfl (sound.unextended_of_dictionary isCell dictionary)⟩
  simp [remove, isCell, removed]

theorem Sound.addPropertyWithoutTransition_continues (alone : heap.Unextended id) (lacks : (layouts id).Lacks name)
    (attributes : BitVec 8) :
    Returns hash heap layouts (heap.addPropertyWithoutTransition hash id name attributes) := by
  obtain ⟨middle, table, ensured, holds, middleCell, unextended, middleSound, evolves⟩ := sound.ensure_returns isCell
  obtain ⟨result, added, describes⟩ := (middleSound.describes id _ middleCell).add_returns holds lacks attributes true
  refine ⟨middle.write id _, (layouts id).nextOffset, ?_, Continues.trans evolves
    (middleSound.write_pinned middleCell describes rfl rfl rfl (unextended alone))⟩
  simp [addPropertyWithoutTransition, add, ensured, middleCell, added]

theorem Sound.attributeChange_continues (has : ¬(layouts id).Lacks name) (attributes : BitVec 8) :
    Returns hash heap layouts (heap.attributeChangeTransition hash id name attributes) := by
  have describes := sound.describes id struct isCell
  by_cases uncacheable : struct.dictionaryKind = .uncachedDictionaryKind
  · have dictionary := isDictionary_of_uncached uncacheable
    obtain ⟨middle, table, ensured, holds, middleCell, _, middleSound, evolves⟩ := sound.ensure_returns isCell
    obtain ⟨found, after, got, capacity, afterDescribes⟩ :=
      (middleSound.describes id _ middleCell).setAttributes_returns holds has attributes
    refine ⟨middle.write id _, id, ?_, Continues.trans evolves
      (middleSound.write_pinned middleCell afterDescribes capacity (describes.dictionary dictionary) rfl
        (middleSound.unextended_of_dictionary middleCell dictionary))⟩
    simp [attributeChangeTransition, structureForAttributeChange, isCell,
      isUncacheableDictionary, uncacheable, ensured, middleCell, got]
  · obtain ⟨new, table, done, newDescribes, hasTable, pinned, _, transitions⟩ :=
      sound.createPinned_returns isCell struct.dictionaryKind describes.fresh
    have newCell : (heap.allocate new).1.cell heap.next = some new := update_self ..
    obtain ⟨found, after, got, _, afterDescribes⟩ :=
      newDescribes.setAttributes_returns (newDescribes.table table hasTable) has attributes
    refine ⟨_, heap.next, ?_, sound.allocate_pinned afterDescribes pinned transitions⟩
    simp [attributeChangeTransition, structureForAttributeChange, isCell, isUncacheableDictionary,
      uncacheable, done, ensurePropertyTable, newCell, hasTable, got, allocate_write]

theorem Sound.addNewPropertyTransition_continues (notDictionary : struct.dictionaryKind = .noneDictionaryKind)
    (lacks : (layouts id).Lacks name) (attributes : BitVec 8) (putById : Bool) :
    Returns hash heap layouts (heap.addNewPropertyTransition hash id name attributes putById) := by
  have describes := sound.describes id struct isCell
  have fresh := describes.fresh_of_none notDictionary
  by_cases long : struct.transitionCount >
      (if putById then maxTransitionLengthForNonEvalPutById else maxTransitionLength)
  · obtain ⟨new, table, done, newDescribes, hasTable, pinned, _, transitions⟩ :=
      sound.createPinned_returns isCell .cachedDictionaryKind (fun _ => fresh)
    obtain ⟨result, added, afterDescribes⟩ :=
      newDescribes.add_returns (newDescribes.table table hasTable) lacks attributes false
    refine ⟨_, (heap.next, (layouts id).nextOffset), ?_, sound.allocate_pinned afterDescribes pinned transitions⟩
    simp [addNewPropertyTransition, isCell, if_pos long, toCacheableDictionaryTransition, done,
      add_allocated hash heap hasTable, added]
  · obtain ⟨middle, table, left, taken, holds, middleSound, evolves, middleCell⟩ := sound.take_returns isCell
    have startDescribes : (struct.createForProperty id name attributes table).Describes hash (layouts id) :=
      .of_table rfl describes.inlineCapacity describes.offset holds (fun _ => fresh) (absurd notDictionary)
    obtain ⟨result, added, newDescribes⟩ := startDescribes.add_returns holds lacks attributes false
    have chained : middle.Extends layouts middle.next
        ((struct.createForProperty id name attributes table).withAdded false result
          ((layouts id).add name attributes lacks).last)
        ((layouts id).add name attributes lacks) := by
      refine ⟨middleSound.allocated id _ middleCell, ?_, rfl, _, middleCell, notDictionary⟩
      have offset := ((layouts id).last_add_of_fresh name attributes lacks fresh).1
      rw [offset]
      rfl
    obtain ⟨after, done, continues⟩ :=
      middleSound.allocate_addTransition middleCell newDescribes rfl (fun _ => chained)
    refine ⟨after, (middle.next, (layouts id).nextOffset), ?_, Continues.trans evolves continues⟩
    have hasTable : (struct.createForProperty id name attributes table).propertyTable = some table := rfl
    have inAllocated := add_allocated hash middle hasTable false name attributes
    rw [added] at inAllocated
    simp only [addNewPropertyTransition, isCell, if_neg long, taken, bind_eq_bind, bind_some]
    have split : middle.allocate (struct.createForProperty id name attributes table) =
      ((middle.allocate (struct.createForProperty id name attributes table)).1, middle.next) := rfl
    rw [split]
    simp [inAllocated, done]

theorem Sound.addPropertyTransition_continues (notDictionary : struct.dictionaryKind = .noneDictionaryKind)
    (lacks : (layouts id).Lacks name) (attributes : BitVec 8) :
    Returns hash heap layouts (heap.addPropertyTransition hash id name attributes) := by
  cases existing : struct.transitionTable.lookup (some name, attributes) with
  | none =>
    obtain ⟨after, result, done, continues⟩ :=
      sound.addNewPropertyTransition_continues isCell notDictionary lacks attributes false
    refine ⟨after, result, ?_, continues⟩
    simp [addPropertyTransition, isCell, existing, done]
  | some transition =>
    obtain ⟨before, later, isList, _⟩ := lookup_eq_some_iff.mp existing
    have member : ((some name, attributes), transition) ∈ struct.transitionTable := by
      rw [isList]
      exact mem_append_right _ mem_cons_self
    obtain ⟨found, isFound⟩ := ne_none_iff_exists'.mp (sound.registered id struct isCell _ member)
    refine ⟨heap, (transition, found.offset), ?_, layouts, sound, Evolves.refl⟩
    simp [addPropertyTransition, isCell, existing, isFound]

theorem Sound.tableForNonProperty_returns (transitionKind : NonPropertyTransition) : ∃ after table pinned left edited,
      heap.tableForNonPropertyTransition hash id transitionKind = some (after, table, pinned) ∧
      after.Sound hash layouts ∧ heap.Evolves layouts after layouts ∧
      after.cell id = some { struct with propertyTable := left } ∧
      table.Holds hash edited.properties edited.deleted ∧
      edited.inlineCapacity = (layouts id).inlineCapacity ∧ edited.last = (layouts id).last ∧
      edited.deleted = (layouts id).deleted ∧ (pinned = false → edited = layouts id) := by
  unfold tableForNonPropertyTransition
  split
  · obtain ⟨table, copied, holds⟩ := sound.copy_returns isCell
    refine ⟨heap, table.mapAttributes (editAttributes transitionKind), true, struct.propertyTable,
      (layouts id).edit (editAttributes transitionKind ·.attributes), ?_, sound,
      Evolves.refl, isCell, holds.mapAttributes _, rfl, (layouts id).last_edit _, rfl, nofun⟩
    simp [copied]
  · obtain ⟨after, table, left, taken, holds, afterSound, evolves, afterCell⟩ := sound.take_returns isCell
    refine ⟨after, table, false, left, layouts id, ?_, afterSound, evolves, afterCell, holds, rfl, rfl, rfl,
      fun _ => rfl⟩
    simp [taken]

theorem Sound.nonPropertyTransition_continues (transitionKind : NonPropertyTransition) :
    Returns hash heap layouts (heap.nonPropertyTransition hash id transitionKind) := by
  have describes := sound.describes id struct isCell
  cases existing : (if struct.isDictionary = true then none
    else struct.transitionTable.lookup (none, toAttributes transitionKind)) with
  | some transition =>
    refine ⟨heap, transition, ?_, layouts, sound, Evolves.refl⟩
    simp [nonPropertyTransition, isCell, existing]
  | none =>
    obtain ⟨middle, table, pinned, left, edited, made, middleSound, evolves, middleCell, holds, capacity,
      last, deleted, same⟩ := sound.tableForNonProperty_returns isCell transitionKind
    have fresh : struct.dictionaryKind ≠ .uncachedDictionaryKind → edited.deleted = [] :=
      fun cacheable => deleted.trans (describes.fresh cacheable)
    have sized := describes.inlineCapacity.trans capacity.symm
    have offset := describes.offset.trans last.symm
    simp only [nonPropertyTransition, isCell, bind_eq_bind, bind_some, existing, made]
    by_cases notDictionary : struct.dictionaryKind = .noneDictionaryKind
    · have newDescribes : (struct.createForNonProperty id transitionKind table pinned).Describes hash edited :=
        .of_table rfl sized offset holds fresh (absurd notDictionary)
      have chained : (struct.createForNonProperty id transitionKind table pinned).isPinnedPropertyTable =
          false → middle.Extends layouts middle.next
            (struct.createForNonProperty id transitionKind table pinned) edited := by
        intro unpinned
        rw [same unpinned]
        exact ⟨middleSound.allocated id _ middleCell, (append_nil _).symm, rfl, _, middleCell, notDictionary⟩
      obtain ⟨after, done, continues⟩ := middleSound.allocate_addTransition middleCell newDescribes rfl chained
      refine ⟨after, middle.next, ?_, Continues.trans evolves continues⟩
      rw [if_neg (by simp [isDictionary, notDictionary])]
      exact bind_eq_some_iff.mpr ⟨after, done, rfl⟩
    · have newDescribes :
          ((struct.createForNonProperty id transitionKind table pinned).pin table).Describes hash edited :=
        .of_table rfl sized offset holds fresh (fun _ => rfl)
      refine ⟨_, middle.next, ?_, Continues.trans evolves (middleSound.allocate_pinned newDescribes rfl rfl)⟩
      rw [if_pos (by simp [isDictionary, notDictionary])]
      rfl

end Heap

end Odyssey.Structures
