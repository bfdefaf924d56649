import Odyssey.Arithmetic.PowerOfTwo
import Odyssey.Containers.LinearProbing

namespace Odyssey.Collections

open Arithmetic Containers

/-- The functions of the keys. Keys are normalized before they are stored or compared, so the laws are
    those of normalized keys. The equality is an equivalence; that equal keys are hashed alike is none of
    the laws, and the functions of the source do not keep to it. -/
structure KeyTraits (K : Type) where
  normalizeMapKey : K → K
  jsMapHash : K → BitVec 32
  areKeysEqual : K → K → Bool
  refl : ∀ key, areKeysEqual (normalizeMapKey key) (normalizeMapKey key) = true
  symm : ∀ first second, areKeysEqual (normalizeMapKey first) (normalizeMapKey second) = true →
    areKeysEqual (normalizeMapKey second) (normalizeMapKey first) = true
  trans : ∀ first second third,
    areKeysEqual (normalizeMapKey first) (normalizeMapKey second) = true →
    areKeysEqual (normalizeMapKey second) (normalizeMapKey third) = true →
    areKeysEqual (normalizeMapKey first) (normalizeMapKey third) = true

def KeyTraits.EqualKeysHashEqually {K : Type} (traits : KeyTraits K) : Prop :=
  ∀ first second, traits.areKeysEqual (traits.normalizeMapKey first) (traits.normalizeMapKey second) = true →
    traits.jsMapHash (traits.normalizeMapKey first) = traits.jsMapHash (traits.normalizeMapKey second)

/-- A cell of the list of entries. The absent key and value are the empty value; the buckets of a set
    have no value. -/
structure Bucket (K V : Type) where
  next : Option Nat
  prev : Option Nat
  key : Option K
  value : Option V

namespace Bucket

variable {K V : Type}

def create : Bucket K V := ⟨none, none, none, none⟩

variable (bucket : Bucket K V)

def setNext (next : Nat) : Bucket K V := { bucket with next := some next }

def setPrev (prev : Nat) : Bucket K V := { bucket with prev := some prev }

def setKey (key : K) : Bucket K V := { bucket with key := some key }

def setValue (value : Option V) : Bucket K V := { bucket with value := value }

def deleted : Bool := bucket.key.isNone

def makeDeleted : Bucket K V := { bucket with key := none, value := none }

end Bucket

def shouldShrink (capacity keyCount : BitVec 32) : Bool :=
  decide (8 * keyCount ≤ capacity) && decide (capacity > 4)

def shouldRehashAfterAdd (capacity keyCount deleteCount : BitVec 32) : Bool :=
  decide (2 * (keyCount + deleteCount) ≥ capacity)

/-- There is none when the checked product overflows. -/
def nextCapacity (capacity keyCount : BitVec 32) : Option (BitVec 32) :=
  if shouldShrink capacity keyCount then some (capacity / 2)
  else if decide (3 * keyCount ≤ capacity) && decide (capacity > 64) then some capacity
  else if capacity.toNat * 2 < 2 ^ 32 then some (capacity * 2)
  else none

/-- The search of all operations: from the place of the hash, over the places that are neither empty nor
    of a bucket that can be used. A search that finds none in the whole buffer goes on for ever. -/
def probe (buffer : Nat → Slot Nat) (capacity : BitVec 32) (canUseBucket : Nat → Bool)
    (hash : BitVec 32) : Option (BitVec 32) :=
  let mask := capacity - 1
  firstStop (fun index => (buffer index.toNat).stops canUseBucket) (fun index => (index + 1) &&& mask)
    capacity.toNat (hash &&& mask)

/-- The cells are numbered in the order of their allocation, and no allocation fails. An operation without a
    result does not return, or a checked operation stops the program. -/
structure HashMapImpl (K V : Type) where
  buckets : Nat → Bucket K V
  allocated : Nat
  head : Nat
  tail : Nat
  buffer : Nat → Slot Nat
  keyCount : BitVec 32
  deleteCount : BitVec 32
  capacity : BitVec 32

namespace HashMapImpl

variable {K V : Type} (map : HashMapImpl K V)

def write (bucket : Nat) (change : Bucket K V → Bucket K V) : HashMapImpl K V :=
  { map with buckets := Function.update map.buckets bucket (change (map.buckets bucket)) }

def makeAndSetNewBuffer : HashMapImpl K V :=
  { map with buffer := fun _ => .empty }

def createBucket : HashMapImpl K V × Nat :=
  ({ map with
      buckets := Function.update map.buckets map.allocated Bucket.create
      allocated := map.allocated + 1 },
    map.allocated)

def setUpHeadAndTail : HashMapImpl K V :=
  let (map, head) := map.createBucket
  let (map, tail) := map.createBucket
  let map := { map with head := head, tail := tail }
  let map := map.write head (·.setNext tail)
  map.write tail (·.setPrev head)

def ofCapacity (capacity : BitVec 32) : HashMapImpl K V :=
  setUpHeadAndTail (makeAndSetNewBuffer
    { buckets := fun _ => Bucket.create, allocated := 0, head := 0, tail := 0,
      buffer := fun _ => .empty, keyCount := 0, deleteCount := 0, capacity := capacity })

def create : HashMapImpl K V := ofCapacity 4

def createWithSizeHint (sizeHint : BitVec 32) : Option (HashMapImpl K V) :=
  if sizeHint.toNat * 2 + 1 < 2 ^ 32 then
    let capacity := roundUpToPowerOfTwo (sizeHint * 2 + 1)
    some (ofCapacity (if capacity < 4 then 4 else capacity))
  else none

section Keys

variable (traits : KeyTraits K) (map : HashMapImpl K V)

def hasKey (key : K) (bucket : Nat) : Bool :=
  (map.buckets bucket).key.any (traits.areKeysEqual key)

/-- No entry has a key that is equal to this one and hashed apart from it. -/
def HashesAlike (key : K) : Prop :=
  ∀ bucket other, (map.buckets bucket).key = some other →
    traits.areKeysEqual (traits.normalizeMapKey key) other = true →
      traits.jsMapHash other = traits.jsMapHash (traits.normalizeMapKey key)

def findBucketAlreadyHashedAndNormalized (key : K) (hash : BitVec 32) : Option (Option (Nat × Nat)) := do
  let index ← probe map.buffer map.capacity (map.hasKey traits key) hash
  match map.buffer index.toNat with
  | .full bucket => some (some (index.toNat, bucket))
  | _ => some none

def findBucket (key : K) : Option (Option (Nat × Nat)) :=
  let key := traits.normalizeMapKey key
  map.findBucketAlreadyHashedAndNormalized traits key (traits.jsMapHash key)

def get (undefined : V) (map : HashMapImpl K V) (key : K) : Option (Option V) := do
  match ← map.findBucket traits key with
  | some (_, bucket) => some (map.buckets bucket).value
  | none => some (some undefined)

def has (key : K) : Option Bool := do
  let found ← map.findBucket traits key
  some found.isSome

def size : BitVec 32 := map.keyCount

/-- The tail becomes the new entry, in an empty place, and a new tail is allocated. -/
def append (index : Nat) (key : K) (value : Option V) : HashMapImpl K V :=
  let newEntry := map.tail
  let map := { map with buffer := Function.update map.buffer index (.full newEntry) }
  let map := map.write newEntry (fun bucket => (bucket.setKey key).setValue value)
  let (map, newTail) := map.createBucket
  let map := { map with tail := newTail }
  let map := map.write newTail (·.setPrev newEntry)
  let map := map.write newEntry (·.setNext newTail)
  { map with keyCount := map.keyCount + 1 }

def addNormalizedInternal (key : K) (value : Option V) (hash : BitVec 32) (canUseBucket : Nat → Bool) :
    Option (HashMapImpl K V) := do
  let index ← probe map.buffer map.capacity canUseBucket hash
  match map.buffer index.toNat with
  | .full bucket => some (map.write bucket (·.setValue value))
  -- no search stops at the mark of a removed bucket
  | .deleted => none
  | .empty => some (map.append index.toNat key value)

def reinsert (map : HashMapImpl K V) : Nat → Nat → (Nat → Slot Nat) → Option (Nat → Slot Nat)
  | 0, _, _ => none
  | fuel + 1, iter, buffer =>
    if iter = map.tail then some buffer
    else do
      let key ← (map.buckets iter).key
      let index ← probe buffer map.capacity (fun _ => false) (traits.jsMapHash key)
      let next ← (map.buckets iter).next
      map.reinsert fuel next (Function.update buffer index.toNat (.full iter))

def rehash : Option (HashMapImpl K V) := do
  let capacity ← nextCapacity map.capacity map.keyCount
  let map := { map with capacity := capacity }
  let map := map.makeAndSetNewBuffer
  let iter ← (map.buckets map.head).next
  if (map.capacity &&& (map.capacity - 1)) != 0 then none
  else
    let buffer ← map.reinsert traits map.allocated iter map.buffer
    some { map with buffer := buffer, deleteCount := 0 }

def add (key : K) (value : Option V) : Option (HashMapImpl K V) := do
  let key := traits.normalizeMapKey key
  let map ← map.addNormalizedInternal key value (traits.jsMapHash key) (map.hasKey traits key)
  if shouldRehashAfterAdd map.capacity map.keyCount map.deleteCount then map.rehash traits
  else some map

def unlink (index impl : Nat) : Option (HashMapImpl K V) := do
  let next ← (map.buckets impl).next
  let prev ← (map.buckets impl).prev
  let map := map.write next (·.setPrev prev)
  let map := map.write prev (·.setNext next)
  let map := map.write impl (·.makeDeleted)
  some { map with
    buffer := Function.update map.buffer index .deleted
    deleteCount := map.deleteCount + 1
    keyCount := map.keyCount - 1 }

def remove (key : K) : Option (HashMapImpl K V × Bool) := do
  match ← map.findBucket traits key with
  | none => some (map, false)
  | some (index, impl) =>
    let map ← map.unlink index impl
    if shouldShrink map.capacity map.keyCount then
      let map ← map.rehash traits
      some (map, true)
    else some (map, true)

end Keys

/-- Each bucket of the list from one on is deleted, with the head as its next one: an iterator that
    stands on it starts again. -/
def clearFrom (map : HashMapImpl K V) : Nat → Nat → Option (HashMapImpl K V)
  | 0, _ => none
  | fuel + 1, bucket =>
    if bucket = map.tail then some map
    else do
      let next ← (map.buckets bucket).next
      (map.write bucket (fun cell => (cell.setNext map.head).makeDeleted)).clearFrom fuel next

def clear : Option (HashMapImpl K V) := do
  let map := { map with keyCount := 0, deleteCount := 0 }
  let bucket ← (map.buckets map.head).next
  let map ← map.clearFrom map.allocated bucket
  let map := map.write map.head (·.setNext map.tail)
  let map := map.write map.tail (·.setPrev map.head)
  some { map with capacity := 4 }.makeAndSetNewBuffer

def bucketsFrom (map : HashMapImpl K V) : Nat → Nat → Option (List Nat)
  | 0, _ => none
  | fuel + 1, bucket =>
    if bucket = map.tail then some []
    else do
      let next ← (map.buckets bucket).next
      let rest ← map.bucketsFrom fuel next
      some (bucket :: rest)

def bucketList : Option (List Nat) := do
  let first ← (map.buckets map.head).next
  map.bucketsFrom map.allocated first

/-- The walk of an iterator over deleted buckets, to one that is not or past the last one. -/
def skipDeleted (map : HashMapImpl K V) : Nat → Option Nat → Option (Option Nat)
  | 0, _ => none
  | _, none => some none
  | fuel + 1, some bucket =>
    if (map.buckets bucket).deleted then map.skipDeleted fuel (map.buckets bucket).next
    else some (some bucket)

/-- The position of an iterator after it has moved: its bucket, or none for ever. -/
def advanceIter : Option Nat → Option (Option Nat)
  | none => some none
  | some bucket => map.skipDeleted (map.allocated + 2) (map.buckets bucket).next

end HashMapImpl

end Odyssey.Collections
