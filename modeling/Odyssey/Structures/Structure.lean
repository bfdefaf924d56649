import Odyssey.Structures.PropertyTable

namespace Odyssey.Structures

inductive DictionaryKind where
  | noneDictionaryKind
  | cachedDictionaryKind
  | uncachedDictionaryKind
  deriving DecidableEq

inductive NonPropertyTransition where
  | allocateUndecided
  | allocateInt32
  | allocateDouble
  | allocateContiguous
  | allocateArrayStorage
  | allocateSlowPutArrayStorage
  | switchToSlowPutArrayStorage
  | addIndexedAccessors
  | preventExtensions
  | seal
  | freeze
  deriving DecidableEq

namespace PropertyAttribute

def readOnly : BitVec 8 := 1 <<< 1

def dontDelete : BitVec 8 := 1 <<< 3

def accessor : BitVec 8 := 1 <<< 4

end PropertyAttribute

def firstInternalAttribute : BitVec 8 := 1 <<< 6

def toAttributes (transition : NonPropertyTransition) : BitVec 8 :=
  BitVec.ofNat 8 transition.ctorIdx + firstInternalAttribute

def setsDontDeleteOnAllProperties : NonPropertyTransition → Bool
  | .seal => true
  | .freeze => true
  | _ => false

def setsReadOnlyOnNonAccessorProperties : NonPropertyTransition → Bool
  | .freeze => true
  | _ => false

def editAttributes (transitionKind : NonPropertyTransition) (attributes : BitVec 8) : BitVec 8 :=
  let attributes :=
    if setsDontDeleteOnAllProperties transitionKind then attributes ||| PropertyAttribute.dontDelete
    else attributes
  if setsReadOnlyOnNonAccessorProperties transitionKind &&
      attributes &&& PropertyAttribute.accessor == 0 then attributes ||| PropertyAttribute.readOnly
  else attributes

def maxTransitionLength : Nat := 64

def maxTransitionLengthForNonEvalPutById : Nat := 512

/-- Other structures are known by their number. The transition table has the transitions under the name
    and the attributes they had when they were added to it. -/
structure Structure (K : Type) where
  inlineCapacity : Nat
  inlineCapacity_lt : inlineCapacity < 100
  offset : Int
  dictionaryKind : DictionaryKind
  isPinnedPropertyTable : Bool
  previousID : Option Nat
  nameInPrevious : Option K
  attributesInPrevious : BitVec 8
  propertyTable : Option (PropertyTable K)
  transitionTable : List ((Option K × BitVec 8) × Nat)

namespace Structure

variable {K : Type} (struct : Structure K)

def isDictionary : Bool :=
  decide (struct.dictionaryKind ≠ .noneDictionaryKind)

def isUncacheableDictionary : Bool :=
  decide (struct.dictionaryKind = .uncachedDictionaryKind)

def transitionCount : Nat :=
  numberOfSlotsForLastOffset struct.offset struct.inlineCapacity

def createRoot (inlineCapacity : Nat) (small : inlineCapacity < 100) : Structure K :=
  { inlineCapacity := inlineCapacity, inlineCapacity_lt := small, offset := invalidOffset,
    dictionaryKind := .noneDictionaryKind, isPinnedPropertyTable := false, previousID := none,
    nameInPrevious := none, attributesInPrevious := 0, propertyTable := none, transitionTable := [] }

variable (previous : Structure K)

def create (previousID : Nat) : Structure K :=
  { createRoot previous.inlineCapacity previous.inlineCapacity_lt with
    dictionaryKind := previous.dictionaryKind, previousID := some previousID }

def createForProperty (previousID : Nat) (name : K) (attributes : BitVec 8) (table : PropertyTable K) :
    Structure K :=
  { previous.create previousID with
    nameInPrevious := some name, attributesInPrevious := attributes,
    propertyTable := some table, offset := previous.offset }

def createForNonProperty (previousID : Nat) (transitionKind : NonPropertyTransition) (table : PropertyTable K)
    (pinned : Bool) : Structure K :=
  { previous.create previousID with
    attributesInPrevious := toAttributes transitionKind, isPinnedPropertyTable := pinned,
    propertyTable := some table, offset := previous.offset }

def pinForCaching (table : PropertyTable K) : Structure K :=
  { struct with
    isPinnedPropertyTable := true, propertyTable := some table, nameInPrevious := none }

def pin (table : PropertyTable K) : Structure K :=
  { struct.pinForCaching table with previousID := none }

/-- The collector drops tables that are not pinned, and transitions that are not alive. -/
def collect (drops : Bool) (alive : Nat → Bool) : Structure K :=
  { struct with
    propertyTable := if !struct.isPinnedPropertyTable && drops then none else struct.propertyTable
    transitionTable := struct.transitionTable.filter (alive ·.2) }

def ownEntries : List (PropertyMapEntry K) :=
  match struct.nameInPrevious with
  | none => []
  | some name => [⟨name, struct.offset, struct.attributesInPrevious⟩]

variable [DecidableEq K] (hash : K → Nat)

def add (struct : Structure K) (shouldPin : Bool) (table : PropertyTable K) (name : K)
    (attributes : BitVec 8) : Option (Structure K × Int) := do
  let struct :=
    if shouldPin then struct.pin table else { struct with propertyTable := some table }
  let (newOffset, table) := table.nextOffset struct.inlineCapacity
  let (table, newLastOffset) ←
    table.add hash ⟨name, newOffset, attributes⟩ struct.offset .propertyOffsetMayChange
  some ({ struct with propertyTable := some table, offset := newLastOffset }, newOffset)

def remove (struct : Structure K) (name : K) : Option (Structure K × Int) :=
  match struct.propertyTable with
  | none => some (struct, invalidOffset)
  | some table => do
    let (found, place) ← table.find hash name
    match found with
    | none => some (struct, invalidOffset)
    | some found =>
      let value ← table.values found
      let table ← table.remove hash found place
      some ({ struct with propertyTable := some (table.addDeletedOffset value.offset) }, value.offset)

/-- The values of the object are moved with the offsets. -/
def flattenDictionaryStructure (struct : Structure K) : Option (Structure K) :=
  if struct.isUncacheableDictionary then do
    let table ← struct.propertyTable
    let (table, offset) :=
      table.renumber struct.inlineCapacity (List.range table.usedCount) 0 invalidOffset
    some { struct with
      propertyTable := some table.clearDeletedOffsets, offset := offset,
      dictionaryKind := .noneDictionaryKind }
  else some { struct with dictionaryKind := .noneDictionaryKind }

end Structure

structure Heap (K : Type) where
  cell : Nat → Option (Structure K)
  next : Nat

namespace Heap

variable {K : Type}

def empty : Heap K := ⟨fun _ => none, 0⟩

def write (heap : Heap K) (id : Nat) (struct : Structure K) : Heap K :=
  { heap with cell := Function.update heap.cell id (some struct) }

def allocate (heap : Heap K) (struct : Structure K) : Heap K × Nat :=
  (⟨Function.update heap.cell heap.next (some struct), heap.next + 1⟩, heap.next)

def findStructuresAndMapForMaterialization (heap : Heap K) :
    Nat → Nat → Option (List (Structure K) × Option (PropertyTable K))
  | 0, _ => none
  | fuel + 1, id => do
    let struct ← heap.cell id
    match struct.propertyTable, struct.previousID with
    | some table, _ => some ([], some table)
    | none, none => some ([struct], none)
    | none, some previous =>
      let (structures, table) ← heap.findStructuresAndMapForMaterialization fuel previous
      some (struct :: structures, table)

def visit {S : Type} (functor : S → PropertyMapEntry K → S × Bool) :
    List (PropertyMapEntry K) → S → S × Bool
  | [], state => (state, true)
  | entry :: rest, state =>
    match functor state entry with
    | (state, true) => visit functor rest state
    | (state, false) => (state, false)

/-- The functor is called for the entries of the table, and then for those of the structures after it. -/
def forEachPropertyConcurrently {S : Type} (heap : Heap K) (id : Nat)
    (functor : S → PropertyMapEntry K → S × Bool) (state : S) : Option S := do
  let (structures, table) ← heap.findStructuresAndMapForMaterialization heap.next id
  let (state, goesOn) := visit functor ((table.map PropertyTable.entries).getD []) state
  if goesOn then some (visit functor (structures.reverse.flatMap Structure.ownEntries) state).1
  else some state

def getPropertiesConcurrently (heap : Heap K) (id : Nat) : Option (List (PropertyMapEntry K)) :=
  heap.forEachPropertyConcurrently id (fun result entry => (result ++ [entry], true)) []

variable [DecidableEq K] (hash : K → Nat) (heap : Heap K)

def getConcurrently (id : Nat) (uid : K) : Option (Int × Option (BitVec 8)) :=
  heap.forEachPropertyConcurrently id
    (fun result candidate =>
      if candidate.key ≠ uid then (result, true)
      else ((candidate.offset, some candidate.attributes), false))
    (invalidOffset, none)

def copyOrCreate (found : Option (PropertyTable K)) (capacity : Nat) : Option (PropertyTable K) :=
  match found with
  | some table => table.copy hash capacity
  | none => some (PropertyTable.create capacity)

def materializePropertyTable (id : Nat) : Option (PropertyTable K) := do
  let struct ← heap.cell id
  let (structures, table) ← heap.findStructuresAndMapForMaterialization heap.next id
  let table ← copyOrCreate hash table
    (numberOfSlotsForLastOffset struct.offset struct.inlineCapacity)
  (structures.reverse.flatMap Structure.ownEntries).foldlM
    (fun table entry =>
      (table.add hash entry struct.offset .propertyOffsetMustNotChange).map Prod.fst)
    table

def ensurePropertyTable (id : Nat) : Option (Heap K × PropertyTable K) := do
  let struct ← heap.cell id
  match struct.propertyTable with
  | some table => some (heap, table)
  | none =>
    let table ← heap.materializePropertyTable hash id
    some (heap.write id { struct with propertyTable := some table }, table)

def takePropertyTableOrCloneIfPinned (id : Nat) : Option (Heap K × PropertyTable K) := do
  let struct ← heap.cell id
  match struct.propertyTable with
  | some table =>
    if struct.isPinnedPropertyTable then
      (table.copy hash (table.size + 1)).map (fun copied => (heap, copied))
    else some (heap.write id { struct with propertyTable := none }, table)
  | none => (heap.materializePropertyTable hash id).map (fun table => (heap, table))

def copyPropertyTableForPinning (id : Nat) : Option (PropertyTable K) := do
  let struct ← heap.cell id
  match struct.propertyTable with
  | some table => some table
  | none => heap.materializePropertyTable hash id

def add (heap : Heap K) (shouldPin : Bool) (id : Nat) (name : K) (attributes : BitVec 8) :
    Option (Heap K × Int) := do
  let (heap, table) ← heap.ensurePropertyTable hash id
  let struct ← heap.cell id
  let (struct, offset) ← struct.add hash shouldPin table name attributes
  some (heap.write id struct, offset)

def addPropertyWithoutTransition (id : Nat) (name : K) (attributes : BitVec 8) : Option (Heap K × Int) :=
  heap.add hash true id name attributes

def remove (heap : Heap K) (id : Nat) (name : K) : Option (Heap K × Int) := do
  let struct ← heap.cell id
  let (struct, offset) ← struct.remove hash name
  some (heap.write id struct, offset)

def addTransition (id transition : Nat) : Option (Heap K) := do
  let struct ← heap.cell id
  let added ← heap.cell transition
  some (heap.write id { struct with
    transitionTable :=
      ((added.nameInPrevious, added.attributesInPrevious), transition) :: struct.transitionTable })

variable (id : Nat)

def createPinned (kind : DictionaryKind) : Option (Heap K × Nat) := do
  let struct ← heap.cell id
  let table ← heap.copyPropertyTableForPinning hash id
  some (heap.allocate { (struct.create id).pin table with offset := struct.offset, dictionaryKind := kind })

def toCacheableDictionaryTransition : Option (Heap K × Nat) :=
  heap.createPinned hash id .cachedDictionaryKind

def toUncacheableDictionaryTransition : Option (Heap K × Nat) :=
  heap.createPinned hash id .uncachedDictionaryKind

def changePrototypeTransition : Option (Heap K × Nat) := do
  let struct ← heap.cell id
  heap.createPinned hash id struct.dictionaryKind

def structureForAttributeChange : Option (Heap K × Nat) := do
  let struct ← heap.cell id
  if struct.isUncacheableDictionary then some (heap, id)
  else heap.createPinned hash id struct.dictionaryKind

def attributeChangeTransition (name : K) (attributes : BitVec 8) : Option (Heap K × Nat) := do
  let (heap, id) ← heap.structureForAttributeChange hash id
  let (heap, table) ← heap.ensurePropertyTable hash id
  let struct ← heap.cell id
  let found ← table.get hash name
  let entry ← found
  some (heap.write id { struct with propertyTable := some (table.setAttributes entry attributes) }, id)

def removePropertyTransition (name : K) : Option (Heap K × Nat × Int) := do
  let (heap, transition) ← heap.toUncacheableDictionaryTransition hash id
  let (heap, offset) ← heap.remove hash transition name
  some (heap, transition, offset)

def addNewPropertyTransition (name : K) (attributes : BitVec 8) (putById : Bool) :
    Option (Heap K × Nat × Int) := do
  let struct ← heap.cell id
  if struct.transitionCount >
      (if putById then maxTransitionLengthForNonEvalPutById else maxTransitionLength) then
    let (heap, transition) ← heap.toCacheableDictionaryTransition hash id
    let (heap, offset) ← heap.add hash false transition name attributes
    some (heap, transition, offset)
  else
    let (heap, table) ← heap.takePropertyTableOrCloneIfPinned hash id
    let (heap, transition) := heap.allocate (struct.createForProperty id name attributes table)
    let (heap, offset) ← heap.add hash false transition name attributes
    let heap ← heap.addTransition id transition
    some (heap, transition, offset)

def addPropertyTransition (name : K) (attributes : BitVec 8) : Option (Heap K × Nat × Int) := do
  let struct ← heap.cell id
  match struct.transitionTable.lookup (some name, attributes) with
  | some existing =>
    let transition ← heap.cell existing
    some (heap, existing, transition.offset)
  | none => heap.addNewPropertyTransition hash id name attributes false

def tableForNonPropertyTransition (transitionKind : NonPropertyTransition) :
    Option (Heap K × PropertyTable K × Bool) :=
  if setsDontDeleteOnAllProperties transitionKind ||
      setsReadOnlyOnNonAccessorProperties transitionKind then do
    let table ← heap.copyPropertyTableForPinning hash id
    some (heap, table.mapAttributes (editAttributes transitionKind), true)
  else do
    let (heap, table) ← heap.takePropertyTableOrCloneIfPinned hash id
    some (heap, table, false)

def nonPropertyTransition (transitionKind : NonPropertyTransition) : Option (Heap K × Nat) := do
  let struct ← heap.cell id
  match if struct.isDictionary then none
    else struct.transitionTable.lookup (none, toAttributes transitionKind) with
  | some existing => some (heap, existing)
  | none =>
    let (heap, table, pinned) ← heap.tableForNonPropertyTransition hash id transitionKind
    let transition := struct.createForNonProperty id transitionKind table pinned
    if struct.isDictionary then some (heap.allocate (transition.pin table))
    else
      let (heap, number) := heap.allocate transition
      let heap ← heap.addTransition id number
      some (heap, number)

def flattenDictionaryStructure (heap : Heap K) (id : Nat) : Option (Heap K) := do
  let struct ← heap.cell id
  let struct ← struct.flattenDictionaryStructure
  some (heap.write id struct)

def collect (heap : Heap K) (drops : Nat → Bool) (alive : Nat → Bool) : Heap K :=
  { heap with cell := fun id => (heap.cell id).map (fun struct => struct.collect (drops id) alive) }

end Heap

end Odyssey.Structures
