import Odyssey.Structures.Transitions
import Odyssey.Systems.Run

namespace Odyssey.Structures

open Systems List Bool Prod

inductive Event (K : Type) where
  | create (inlineCapacity : Nat)
  | addPropertyTransition (id : Nat) (name : K) (attributes : BitVec 8)
  | addNewPropertyTransition (id : Nat) (name : K) (attributes : BitVec 8) (putById : Bool)
  | addPropertyWithoutTransition (id : Nat) (name : K) (attributes : BitVec 8)
  | removePropertyTransition (id : Nat) (name : K)
  | removePropertyWithoutTransition (id : Nat) (name : K)
  | changePrototypeTransition (id : Nat)
  | attributeChangeTransition (id : Nat) (name : K) (attributes : BitVec 8)
  | toCacheableDictionaryTransition (id : Nat)
  | toUncacheableDictionaryTransition (id : Nat)
  | nonPropertyTransition (id : Nat) (transitionKind : NonPropertyTransition)
  | flattenDictionaryStructure (id : Nat)
  | ensurePropertyTable (id : Nat)
  | collect (drops alive : Nat → Bool)

namespace Heap

variable {K : Type} {hash : K → Nat} {heap : Heap K} {layouts : Nat → Layout K} {id : Nat}

def has (heap : Heap K) (id : Nat) (test : Structure K → Bool) : Bool := (heap.cell id).any test

def isPrevious (heap : Heap K) (id : Nat) : Bool :=
  (List.range heap.next).any (fun other => heap.has other (·.previousID == some id))

theorem cell_of_has {test : Structure K → Bool} (there : heap.has id test = true) :
    ∃ struct, heap.cell id = some struct ∧ test struct = true :=
  (Option.any_eq_true _ _).mp there

theorem unextended_of_isPrevious (sound : heap.Sound hash layouts)
    (noPrevious : heap.isPrevious id = false) : heap.Unextended id := by
  intro other child isChild _ same
  have here : heap.isPrevious id = true := by
    refine any_eq_true.mpr ⟨other, mem_range.mpr (sound.allocated other child isChild), ?_⟩
    exact (Option.any_eq_true _ _).mpr ⟨child, isChild, beq_iff_eq.mpr same⟩
  rw [noPrevious] at here
  cases here

theorem map_fst_continues {α : Type} {operation : Option (Heap K × α)} (returns : Returns hash heap layouts operation) :
    ∃ after, operation.map Prod.fst = some after ∧ Continues hash heap layouts after := by
  obtain ⟨after, result, done, continues⟩ := returns
  exact ⟨after, by rw [done]; rfl, continues⟩

theorem sound_empty : (Heap.empty : Heap K).Sound hash (fun _ => .empty 0 (by decide)) := ⟨nofun, nofun, nofun, nofun⟩

variable [DecidableEq K]

def step (hash : K → Nat) (heap : Heap K) : Event K → Option (Heap K)
  | .create inlineCapacity =>
    if small : inlineCapacity < 100 then some (heap.allocate (.createRoot inlineCapacity small)).1 else none
  | .addPropertyTransition id name attributes =>
    (heap.addPropertyTransition hash id name attributes).map Prod.fst
  | .addNewPropertyTransition id name attributes putById =>
    (heap.addNewPropertyTransition hash id name attributes putById).map Prod.fst
  | .addPropertyWithoutTransition id name attributes =>
    (heap.addPropertyWithoutTransition hash id name attributes).map Prod.fst
  | .removePropertyTransition id name => (heap.removePropertyTransition hash id name).map Prod.fst
  | .removePropertyWithoutTransition id name => (heap.remove hash id name).map Prod.fst
  | .changePrototypeTransition id => (heap.changePrototypeTransition hash id).map Prod.fst
  | .attributeChangeTransition id name attributes =>
    (heap.attributeChangeTransition hash id name attributes).map Prod.fst
  | .toCacheableDictionaryTransition id => (heap.toCacheableDictionaryTransition hash id).map Prod.fst
  | .toUncacheableDictionaryTransition id => (heap.toUncacheableDictionaryTransition hash id).map Prod.fst
  | .nonPropertyTransition id transitionKind =>
    (heap.nonPropertyTransition hash id transitionKind).map Prod.fst
  | .flattenDictionaryStructure id => heap.flattenDictionaryStructure id
  | .ensurePropertyTable id => (heap.ensurePropertyTable hash id).map Prod.fst
  | .collect drops alive => some (heap.collect drops alive)

def lacks (heap : Heap K) (id : Nat) (name : K) : Bool :=
  (heap.getPropertiesConcurrently id).any (fun properties =>
    properties.all (fun entry => decide (entry.key ≠ name)))

/-- What the callers keep to, as far as the functions assert it. A property is added without a transition
    to a dictionary, or to a structure that is not part of any transition. -/
def permits (heap : Heap K) : Event K → Bool
  | .create inlineCapacity => decide (inlineCapacity < 100)
  | .addPropertyTransition id name _ => heap.has id (! ·.isDictionary) && heap.lacks id name
  | .addNewPropertyTransition id name _ _ =>
    heap.has id (! ·.isDictionary) && heap.lacks id name
  | .addPropertyWithoutTransition id name _ =>
    heap.has id (fun struct =>
      struct.isDictionary || (struct.previousID.isNone && !heap.isPrevious id)) && heap.lacks id name
  | .removePropertyTransition id _ => heap.has id (! ·.isUncacheableDictionary)
  | .removePropertyWithoutTransition id _ => heap.has id (·.isUncacheableDictionary)
  | .changePrototypeTransition id => heap.has id (fun _ => true)
  | .attributeChangeTransition id name _ => heap.has id (fun _ => true) && !heap.lacks id name
  | .toCacheableDictionaryTransition id => heap.has id (! ·.isUncacheableDictionary)
  | .toUncacheableDictionaryTransition id => heap.has id (! ·.isUncacheableDictionary)
  | .nonPropertyTransition id _ => heap.has id (fun _ => true)
  | .flattenDictionaryStructure id => heap.has id (·.isDictionary)
  | .ensurePropertyTable id => heap.has id (fun _ => true)
  | .collect _ _ => true

theorem Sound.lacks_iff (sound : heap.Sound hash layouts) {struct : Structure K} (isCell : heap.cell id = some struct)
    (name : K) : heap.lacks id name = true ↔ (layouts id).Lacks name := by
  rw [lacks, sound.getPropertiesConcurrently_eq isCell]
  simp [Layout.Lacks]

theorem Sound.step_continues (sound : heap.Sound hash layouts) {event : Event K}
    (permitted : heap.permits event = true) :
    ∃ after, heap.step hash event = some after ∧ Continues hash heap layouts after := by
  cases event with
  | create inlineCapacity =>
    have small := of_decide_eq_true permitted
    have describes : (Structure.createRoot inlineCapacity small).Describes hash (Layout.empty inlineCapacity small) :=
      ⟨rfl, rfl, nofun, fun _ => rfl, nofun, fun impossible => absurd rfl impossible⟩
    exact ⟨_, dif_pos small, _, sound.allocate describes rfl (fun _ => rfl)⟩
  | addPropertyTransition id name attributes =>
    obtain ⟨there, absent⟩ := and_eq_true_iff.mp permitted
    obtain ⟨struct, isCell, notDictionary⟩ := cell_of_has there
    refine map_fst_continues (sound.addPropertyTransition_continues isCell ?_
      ((sound.lacks_iff isCell name).mp absent) attributes)
    simpa [Structure.isDictionary] using notDictionary
  | addNewPropertyTransition id name attributes putById =>
    obtain ⟨there, absent⟩ := and_eq_true_iff.mp permitted
    obtain ⟨struct, isCell, notDictionary⟩ := cell_of_has there
    refine map_fst_continues (sound.addNewPropertyTransition_continues isCell ?_
      ((sound.lacks_iff isCell name).mp absent) attributes putById)
    simpa [Structure.isDictionary] using notDictionary
  | addPropertyWithoutTransition id name attributes =>
    obtain ⟨there, absent⟩ := and_eq_true_iff.mp permitted
    obtain ⟨struct, isCell, alone⟩ := cell_of_has there
    refine map_fst_continues (sound.addPropertyWithoutTransition_continues isCell ?_
      ((sound.lacks_iff isCell name).mp absent) attributes)
    rcases or_eq_true_iff.mp alone with dictionary | unrelated
    · exact sound.unextended_of_dictionary isCell (of_decide_eq_true dictionary)
    · have noPrevious := (and_eq_true_iff.mp unrelated).2
      rw [not_eq_true'] at noPrevious
      exact unextended_of_isPrevious sound noPrevious
  | removePropertyTransition id name =>
    obtain ⟨struct, isCell, _⟩ := cell_of_has permitted
    exact map_fst_continues (sound.removePropertyTransition_continues isCell name)
  | removePropertyWithoutTransition id name =>
    obtain ⟨struct, isCell, uncacheable⟩ := cell_of_has permitted
    exact map_fst_continues (sound.remove_continues isCell (of_decide_eq_true uncacheable) name)
  | changePrototypeTransition id =>
    obtain ⟨struct, isCell, _⟩ := cell_of_has permitted
    have made := sound.createPinned_continues isCell struct.dictionaryKind (sound.describes id struct isCell).fresh
    refine map_fst_continues ?_
    rw [changePrototypeTransition, isCell]
    exact made
  | attributeChangeTransition id name attributes =>
    obtain ⟨there, present⟩ := and_eq_true_iff.mp permitted
    obtain ⟨struct, isCell, _⟩ := cell_of_has there
    rw [not_eq_true', ← not_eq_true, sound.lacks_iff isCell name] at present
    exact map_fst_continues (sound.attributeChange_continues isCell present attributes)
  | toCacheableDictionaryTransition id =>
    obtain ⟨struct, isCell, cacheable⟩ := cell_of_has permitted
    refine map_fst_continues (sound.createPinned_continues isCell .cachedDictionaryKind (fun _ => ?_))
    refine (sound.describes id struct isCell).fresh ?_
    simpa [Structure.isUncacheableDictionary] using cacheable
  | toUncacheableDictionaryTransition id =>
    obtain ⟨struct, isCell, _⟩ := cell_of_has permitted
    exact map_fst_continues (sound.createPinned_continues isCell .uncachedDictionaryKind
      (fun impossible => absurd rfl impossible))
  | nonPropertyTransition id transitionKind =>
    obtain ⟨struct, isCell, _⟩ := cell_of_has permitted
    exact map_fst_continues (sound.nonPropertyTransition_continues isCell transitionKind)
  | flattenDictionaryStructure id =>
    obtain ⟨struct, isCell, dictionary⟩ := cell_of_has permitted
    exact sound.flatten_continues isCell (of_decide_eq_true dictionary)
  | ensurePropertyTable id =>
    obtain ⟨struct, isCell, _⟩ := cell_of_has permitted
    obtain ⟨after, table, ensured, _, _, _, continues⟩ := sound.ensure_returns isCell
    exact map_fst_continues ⟨after, table, ensured, layouts, continues⟩
  | collect drops alive => exact ⟨_, rfl, sound.collect_continues drops alive⟩

def Permitted (hash : K → Nat) : Heap K → List (Event K) → Prop :=
  StepsMeet (step hash) (fun heap event => heap.permits event = true)

theorem Sound.run_continues {events : List (Event K)} (sound : heap.Sound hash layouts)
    (permitted : Permitted hash heap events) :
    ∃ after, run (step hash) heap events = some after ∧ Continues hash heap layouts after := by
  refine run_returns ?_ events ⟨layouts, sound, Evolves.refl⟩ permitted
  intro middle event continues here
  obtain ⟨layoutsMiddle, middleSound, evolves⟩ := continues
  obtain ⟨next, stepped, continues⟩ := middleSound.step_continues here
  exact ⟨next, stepped, Continues.trans evolves continues⟩

end Heap

/-- The live offsets and the deleted ones are apart, and together those of the first property numbers. -/
structure Structure.OffsetsConsistent {K : Type} (struct : Structure K) (table : PropertyTable K) : Prop where
  distinct : (table.entries.map PropertyMapEntry.offset).Nodup
  disjoint : ∀ entry ∈ table.entries, entry.offset ∉ table.deletedOffsets
  deletedDistinct : table.deletedOffsets.Nodup
  exactly : ∀ offset, (∃ entry ∈ table.entries, entry.offset = offset) ∨ offset ∈ table.deletedOffsets ↔
    ∃ number < table.propertyStorageSize, offsetForPropertyNumber number struct.inlineCapacity = offset
  last : struct.offset =
    if table.propertyStorageSize = 0 then invalidOffset
    else offsetForPropertyNumber (table.propertyStorageSize - 1) struct.inlineCapacity
  fresh : struct.isDictionary = false → table.deletedOffsets = []
  slots : ∀ first ∈ table.entries, ∀ second ∈ table.entries,
    storageSlot first.offset = storageSlot second.offset → first = second

theorem Structure.Describes.offsetsConsistent {K : Type} {hash : K → Nat} {struct : Structure K}
    {layout : Layout K} (describes : struct.Describes hash layout) {table : PropertyTable K}
    (holds : table.Holds hash layout.properties layout.deleted) : struct.OffsetsConsistent table := by
  have size : table.propertyStorageSize = layout.slots := by
    rw [PropertyTable.propertyStorageSize, PropertyTable.size, holds.keyCount, holds.deleted, Layout.slots]
  obtain ⟨distinct, deletedDistinct, disjoint⟩ := nodup_append.mp layout.nodup_offsets
  rw [← holds.entries] at distinct
  rw [← holds.deleted] at deletedDistinct
  refine ⟨distinct, ?_, deletedDistinct, ?_, ?_, ?_, ?_⟩
  · intro entry member isDeleted
    rw [holds.entries] at member
    rw [holds.deleted] at isDeleted
    exact disjoint _ (mem_map_of_mem member) _ isDeleted rfl
  · intro offset
    have same := layout.offsets.mem_iff (a := offset)
    rw [mem_append, mem_map, firstOffsets, mem_map] at same
    rw [holds.entries, holds.deleted, size, describes.inlineCapacity, same]
    simp only [mem_range]
    rfl
  · rw [size, describes.offset, describes.inlineCapacity]
    rfl
  · intro notDictionary
    rw [holds.deleted]
    refine describes.fresh_of_none ?_
    simpa [isDictionary] using notDictionary
  · intro first isFirst second isSecond same
    rw [holds.entries] at isFirst isSecond
    exact inj_on_of_nodup_map layout.nodup_offsets.of_append_left isFirst isSecond (storageSlot_injective same)

variable {K : Type} [DecidableEq K]

theorem property_offsets_consistent (hash : K → Nat) (events : List (Event K))
    (permitted : Heap.Permitted hash Heap.empty events) :
    ∃ heap, run (Heap.step hash) Heap.empty events = some heap ∧ ∀ id struct, heap.cell id = some struct →
        ∃ after table, heap.ensurePropertyTable hash id = some (after, table) ∧
          struct.OffsetsConsistent table := by
  obtain ⟨heap, ran, layouts, sound, _⟩ := Heap.sound_empty.run_continues permitted
  refine ⟨heap, ran, ?_⟩
  intro id struct isCell
  obtain ⟨after, table, ensured, holds, _⟩ := sound.ensure_returns isCell
  exact ⟨after, table, ensured, (sound.describes id struct isCell).offsetsConsistent holds⟩

theorem permitted_of_check (hash : K → Nat) {heap : Heap K} {events : List (Event K)}
    (checked : checkSteps (Heap.step hash) Heap.permits heap events = true) : Heap.Permitted hash heap events :=
  stepsMeet_of_check (fun _ _ permitted => permitted) events heap checked

theorem property_offsets_consistent_reused : ∃ heap, run (Heap.step id) Heap.empty
        [.create 1, .addPropertyTransition 0 5 0, .addPropertyTransition 1 6 0,
          .removePropertyTransition 2 5, .addPropertyWithoutTransition 3 7 0] = some heap ∧
      ∀ number struct, heap.cell number = some struct →
        ∃ after table, heap.ensurePropertyTable id number = some (after, table) ∧ struct.OffsetsConsistent table :=
  property_offsets_consistent id _ (permitted_of_check id (by decide +kernel))

/-- The table, its order included, is rebuilt as it was, and the walks without a table see the same. -/
theorem materialized_table_lossless (hash : K → Nat) (before later : List (Event K)) {made heap : Heap K}
    {id : Nat} {created struct : Structure K} {table : PropertyTable K}
    (permitted : Heap.Permitted hash Heap.empty before)
    (ran : run (Heap.step hash) Heap.empty before = some made)
    (isCreated : made.cell id = some created) (had : created.propertyTable = some table)
    (permittedLater : Heap.Permitted hash made later)
    (ranLater : run (Heap.step hash) made later = some heap)
    (isCell : heap.cell id = some struct) (gone : struct.propertyTable = none) :
    (∃ rebuilt, heap.materializePropertyTable hash id = some rebuilt ∧ rebuilt.entries = table.entries) ∧
    (∀ (S : Type) (functor : S → PropertyMapEntry K → S × Bool) (state : S),
      heap.forEachPropertyConcurrently id functor state = some (Heap.visit functor table.entries state).1) ∧
    (∀ entry ∈ table.entries, heap.getConcurrently id entry.key = some (entry.offset, some entry.attributes)) ∧
    ∀ name, (∀ entry ∈ table.entries, entry.key ≠ name) →
      heap.getConcurrently id name = some (invalidOffset, none) := by
  obtain ⟨reached, ranMade, layoutsMade, madeSound, _⟩ := Heap.sound_empty.run_continues permitted
  rw [ran] at ranMade
  cases ranMade
  obtain ⟨last, ranHeap, layouts, sound, evolves⟩ := madeSound.run_continues permittedLater
  rw [ranLater] at ranHeap
  cases ranHeap
  obtain ⟨found, isFound, kept⟩ := evolves id created isCreated
  rw [isCell] at isFound
  cases isFound
  have unpinned := (sound.describes id struct isCell).unpinned_of_no_table gone
  have had := (madeSound.describes id created isCreated).table table had
  have same : (layouts id).properties = table.entries := by
    rw [(kept unpinned).2, had.entries]
  refine ⟨?_, ?_, ?_, ?_⟩
  · obtain ⟨rebuilt, materialized, holds⟩ := sound.materialize_returns isCell
    exact ⟨rebuilt, materialized, holds.entries.trans same⟩
  · intro S functor state
    rw [sound.forEach_eq isCell, same]
  · intro entry member
    rw [← same] at member
    refine (sound.forEach_eq isCell (Heap.matchUid entry.key) (invalidOffset, none)).trans ?_
    rw [Heap.visit_matchUid_present (layouts id).nodup member]
  · intro name absent
    rw [← same] at absent
    refine (sound.forEach_eq isCell (Heap.matchUid name) (invalidOffset, none)).trans ?_
    rw [Heap.visit_matchUid_absent absent]

theorem materialized_table_lossless_taken : ∃ made heap created struct table,
      run (Heap.step id) Heap.empty [.create 1, .addPropertyTransition 0 5 0] = some made ∧
      made.cell 1 = some created ∧ created.propertyTable = some table ∧
      run (Heap.step id) made [.addPropertyTransition 1 6 0, .collect (fun _ => true) (fun _ => true)] =
        some heap ∧
      heap.cell 1 = some struct ∧ struct.propertyTable = none ∧
      ∃ rebuilt, heap.materializePropertyTable id 1 = some rebuilt ∧ rebuilt.entries = table.entries := by
  refine ⟨_, _, _, _, _, rfl, rfl, rfl, rfl, rfl, rfl, ?_⟩
  exact (materialized_table_lossless id [.create 1, .addPropertyTransition 0 5 0]
    [.addPropertyTransition 1 6 0, .collect (fun _ => true) (fun _ => true)]
    (permitted_of_check id (by decide +kernel)) rfl rfl rfl
    (permitted_of_check id (by decide +kernel)) rfl rfl rfl).1

end Odyssey.Structures
