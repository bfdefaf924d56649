import Odyssey.Arithmetic.PowerOfTwo
import Odyssey.Containers.LinearProbing
import Odyssey.Structures.PropertyOffset

namespace Odyssey.Structures

open Containers

structure PropertyMapEntry (K : Type) where
  key : K
  offset : Int
  attributes : BitVec 8
  deriving DecidableEq

/-- What the smearing of the bits of a word gives, for numbers of any size. -/
def nextPowerOf2 (v : Nat) : Nat := 2 ^ (v - 1).size

def minimumTableSize : Nat := 16

def sizeForCapacity (capacity : Nat) : Nat :=
  if capacity < minimumTableSize / 2 then minimumTableSize else nextPowerOf2 (capacity + 1) * 2

inductive EffectOnPropertyOffset where
  | propertyOffsetMayChange
  | propertyOffsetMustNotChange

/-- The index holds, for a hash, the number of an entry plus one, or 0. The values are the entries in the
    order of their insertion, where a deleted one has no key. The vector of the deleted offsets that is
    not there is the empty one. The counts are those of the source, in 32 bits, for capacities below 2^30. -/
structure PropertyTable (K : Type) where
  indexSize : Nat
  index : Nat → Nat
  values : Nat → Option (PropertyMapEntry K)
  keyCount : Nat
  deletedCount : Nat
  deletedOffsets : List Int

namespace PropertyTable

variable {K : Type} [DecidableEq K] (hash : K → Nat) (table : PropertyTable K)

def tableCapacity : Nat := table.indexSize / 2

def deletedEntryIndex : Nat := table.tableCapacity + 1

def usedCount : Nat := table.keyCount + table.deletedCount

def canInsert : Bool := decide (table.usedCount < table.tableCapacity)

def size : Nat := table.keyCount

def propertyStorageSize : Nat := table.size + table.deletedOffsets.length

def entries : List (PropertyMapEntry K) :=
  (List.range table.usedCount).filterMap table.values

def create (initialCapacity : Nat) : PropertyTable K :=
  { indexSize := sizeForCapacity initialCapacity, index := fun _ => 0, values := fun _ => none,
    keyCount := 0, deletedCount := 0, deletedOffsets := [] }

def place (hash : Nat) : Nat := hash &&& (table.indexSize - 1)

def hasKey (key : K) (entry : Nat) : Bool :=
  (table.values entry).any (fun value => decide (key = value.key))

def find (key : K) : Option (Option Nat × Nat) := do
  let last ← firstStop
    (fun hash => table.index (table.place hash) == 0 ||
      table.hasKey key (table.index (table.place hash) - 1))
    (· + 1) table.indexSize (hash key)
  let found := table.index (table.place last)
  some (if found == 0 then none else some (found - 1), table.place last)

def get (key : K) : Option (Option Nat) :=
  if table.keyCount = 0 then some none else (table.find hash key).map Prod.fst

def insertAt (place : Nat) (entry : PropertyMapEntry K) : PropertyTable K :=
  { table with
    index := Function.update table.index place (table.usedCount + 1)
    values := Function.update table.values table.usedCount (some entry)
    keyCount := table.keyCount + 1 }

def reinsert (entry : PropertyMapEntry K) : Option (PropertyTable K) := do
  let (_, place) ← table.find hash entry.key
  some (table.insertAt place entry)

def rehash (newCapacity : Nat) : Option (PropertyTable K) :=
  table.entries.foldlM (reinsert hash) { create newCapacity with deletedOffsets := table.deletedOffsets }

def reserve (key : K) (place : Nat) : Option (PropertyTable K × Nat) :=
  if table.canInsert then some (table, place)
  else do
    let table ← table.rehash hash (table.keyCount + 1)
    let (_, place) ← table.find hash key
    some (table, place)

def add (entry : PropertyMapEntry K) (offset : Int) (offsetEffect : EffectOnPropertyOffset) :
    Option (PropertyTable K × Int) := do
  let (found, place) ← table.find hash entry.key
  match found with
  | some existing =>
    if (table.values existing).all (fun value => decide (value.offset ≤ offset)) then some (table, offset)
    else none
  | none =>
    let (table, place) ← table.reserve hash entry.key place
    let table := table.insertAt place entry
    match offsetEffect with
    | .propertyOffsetMayChange => some (table, max offset entry.offset)
    | .propertyOffsetMustNotChange => if offset ≥ entry.offset then some (table, offset) else none

def remove (found place : Nat) : Option (PropertyTable K) :=
  let table :=
    { table with
      index := Function.update table.index place table.deletedEntryIndex
      values := Function.update table.values found none
      keyCount := table.keyCount - 1
      deletedCount := table.deletedCount + 1 }
  if table.deletedCount * 4 ≥ table.indexSize then table.rehash hash table.keyCount else some table

def addDeletedOffset (offset : Int) : PropertyTable K :=
  { table with deletedOffsets := table.deletedOffsets ++ [offset] }

def clearDeletedOffsets : PropertyTable K :=
  { table with deletedOffsets := [] }

def nextOffset (inlineCapacity : Nat) : Int × PropertyTable K :=
  match table.deletedOffsets.getLast? with
  | some offset => (offset, { table with deletedOffsets := table.deletedOffsets.dropLast })
  | none => (offsetForPropertyNumber table.size inlineCapacity, table)

/-- A copy of the same size is one of the memory; otherwise the entries are inserted anew. -/
def copy (newCapacity : Nat) : Option (PropertyTable K) :=
  if sizeForCapacity newCapacity = table.indexSize then some table else table.rehash hash newCapacity

def setAttributes (found : Nat) (attributes : BitVec 8) : PropertyTable K :=
  { table with
    values := Function.update table.values found
      ((table.values found).map (fun value => { value with attributes := attributes })) }

def mapAttributes (change : BitVec 8 → BitVec 8) : PropertyTable K :=
  { table with
    values := fun number =>
      (table.values number).map (fun value => { value with attributes := change value.attributes }) }

def renumber (inlineCapacity : Nat) :
    List Nat → Nat → Int → PropertyTable K → PropertyTable K × Int
  | [], _, offset, table => (table, offset)
  | entry :: rest, number, offset, table =>
    match table.values entry with
    | none => renumber inlineCapacity rest number offset table
    | some value =>
      renumber inlineCapacity rest (number + 1) (offsetForPropertyNumber number inlineCapacity)
        { table with
          values := Function.update table.values entry
            (some { value with offset := offsetForPropertyNumber number inlineCapacity }) }

end PropertyTable

end Odyssey.Structures
