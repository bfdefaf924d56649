import Mathlib.Data.List.Range
import Mathlib.Data.List.Nodup
import Mathlib.Data.List.Perm.Basic
import Mathlib.Order.Monotone.Basic

namespace Odyssey.Structures

/-- A property offset is an int of the source, of which this is the one that is not valid. -/
def invalidOffset : Int := -1

def firstOutOfLineOffset : Int := 100

def isInlineOffset (offset : Int) : Bool := decide (offset < firstOutOfLineOffset)

def numberOfOutOfLineSlotsForLastOffset (offset : Int) : Nat :=
  if offset < firstOutOfLineOffset then 0 else (offset - firstOutOfLineOffset + 1).toNat

def numberOfSlotsForLastOffset (offset : Int) (inlineCapacity : Nat) : Nat :=
  if offset < inlineCapacity then (offset + 1).toNat
  else inlineCapacity + numberOfOutOfLineSlotsForLastOffset offset

def offsetForPropertyNumber (propertyNumber inlineCapacity : Nat) : Int :=
  if propertyNumber ≥ inlineCapacity then propertyNumber + firstOutOfLineOffset - inlineCapacity
  else propertyNumber

/-- The place of a property in an object: in the object itself, or in the storage that the butterfly
    points past. -/
inductive StorageSlot where
  | inlineSlot (index : Int)
  | outOfLineSlot (index : Int)
  deriving DecidableEq

/-- `offsetInRespectiveStorage`, with the storage it is in. -/
def storageSlot (offset : Int) : StorageSlot :=
  if isInlineOffset offset then .inlineSlot offset
  else .outOfLineSlot (-(offset - firstOutOfLineOffset) - 1)

theorem storageSlot_injective {first second : Int} (same : storageSlot first = storageSlot second) : first = second := by
  unfold storageSlot at same
  split at same <;> split at same
  · exact StorageSlot.inlineSlot.inj same
  · cases same
  · cases same
  · have := StorageSlot.outOfLineSlot.inj same
    omega

def lastOffset (count inlineCapacity : Nat) : Int :=
  if count = 0 then invalidOffset else offsetForPropertyNumber (count - 1) inlineCapacity

section Numbers

variable {inlineCapacity : Nat} (small : inlineCapacity ≤ 100)

include small

theorem offsetForPropertyNumber_lt {first second : Nat} (less : first < second) :
    offsetForPropertyNumber first inlineCapacity < offsetForPropertyNumber second inlineCapacity := by
  unfold offsetForPropertyNumber firstOutOfLineOffset
  split <;> split <;> omega

theorem lastOffset_lt (count : Nat) :
    lastOffset count inlineCapacity < offsetForPropertyNumber count inlineCapacity := by
  unfold lastOffset
  split
  · unfold offsetForPropertyNumber invalidOffset firstOutOfLineOffset
    split <;> omega
  · exact offsetForPropertyNumber_lt small (by omega)

theorem offsetForPropertyNumber_le_lastOffset {number count : Nat} (below : number < count) :
    offsetForPropertyNumber number inlineCapacity ≤ lastOffset count inlineCapacity := by
  unfold lastOffset
  rw [if_neg (by omega)]
  exact StrictMono.monotone (fun _ _ => offsetForPropertyNumber_lt small) (Nat.le_sub_one_of_lt below)

theorem numberOfSlotsForLastOffset_lastOffset (count : Nat) :
    numberOfSlotsForLastOffset (lastOffset count inlineCapacity) inlineCapacity = count := by
  unfold numberOfSlotsForLastOffset lastOffset numberOfOutOfLineSlotsForLastOffset
    offsetForPropertyNumber invalidOffset firstOutOfLineOffset
  split_ifs <;> omega

end Numbers

def firstOffsets (count inlineCapacity : Nat) : List Int :=
  (List.range count).map (offsetForPropertyNumber · inlineCapacity)

end Odyssey.Structures
