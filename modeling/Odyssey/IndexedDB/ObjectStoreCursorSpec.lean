import Odyssey.IndexedDB.DeleteRangeSpec
import Odyssey.IndexedDB.ObjectStoreCursor

namespace Odyssey.IndexedDB

open Containers Option Finset MemoryObjectStore IDBKeyRangeData IDBKeyOrder

variable {K : Type} [IDBKeyOrder K]

theorem filter_isValid {key : Option K} (valid : ∀ held, key = some held → isValid held = true) :
    key.filter isValid = key := by
  cases key with
  | none => rfl
  | some held => rw [filter_some, if_pos (valid held rfl)]

namespace IDBKeyRangeData

structure Valid (range : IDBKeyRangeData K) : Prop where
  lower : ∀ lower, range.lowerKey = some lower → IDBKeyOrder.isValid lower = true
  upper : ∀ upper, range.upperKey = some upper → IDBKeyOrder.isValid upper = true

variable {range : IDBKeyRangeData K} {first key last : K}

theorem containsKey_iff : range.containsKey key = true ↔ ({ range with
        lowerKey := range.lowerKey.filter isValid
        upperKey := range.upperKey.filter isValid } : IDBKeyRangeData K).Bounds key := by
  unfold containsKey Bounds
  rw [Bool.and_eq_true]
  apply and_congr
  · cases range.lowerKey with
    | none => simp
    | some lower =>
      cases valid : isValid lower <;> cases range.lowerOpen <;> simp [valid, lt_iff_le_and_ne]
  · cases range.upperKey with
    | none => simp
    | some upper =>
      cases valid : isValid upper <;> cases range.upperOpen <;> simp [valid, lt_iff_le_and_ne']

theorem Valid.containsKey_iff (valid : range.Valid) : range.containsKey key = true ↔ range.Bounds key := by
  rw [IDBKeyRangeData.containsKey_iff, filter_isValid valid.lower, filter_isValid valid.upper]

theorem Bounds.convex (low : range.Bounds first) (high : range.Bounds last) (above : first ≤ key)
    (below : key ≤ last) : range.Bounds key :=
  ⟨fun lower bound => above_of_le above (low.1 lower bound),
    fun upper bound => below_of_le below (high.2 upper bound)⟩

theorem containsKey_convex (low : range.containsKey first = true) (high : range.containsKey last = true)
    (above : first ≤ key) (below : key ≤ last) : range.containsKey key = true := by
  rw [containsKey_iff] at low high ⊢
  exact low.convex high above below

end IDBKeyRangeData

namespace MemoryObjectStoreCursor

variable {range : IDBKeyRangeData K} {key start : K} {cursor : MemoryObjectStoreCursor K}

section Searches

variable (set : Finset K)
include set

theorem setForwardIterator_eq (range : IDBKeyRangeData K) :
    setForwardIteratorFromRemainingRange set range = least (set.filter range.Bounds) := by
  unfold setForwardIteratorFromRemainingRange
  split_ifs with empty one
  · rw [card_eq_zero.mp empty]
    rfl
  · exact (exactlyOne_search set one).1
  · exact firstInRange_eq set range

theorem lastFromUpper_eq {upper : K} (bound : range.upperKey = some upper) :
    lastFromUpper set upper range.upperOpen = greatest (set.filter (range.isNotAbove ·)) := by
  simp only [isNotAbove_iff, bound, some.injEq, forall_eq', lastFromUpper]
  cases range.upperOpen with
  | false =>
    change _ = highestAtMost set upper
    cases highestAtMost set upper <;> rfl
  | true =>
    change _ = highestBelow set upper
    rw [highestAtMost_eq_ite]
    by_cases member : upper ∈ set
    · simp [member]
    · rw [if_neg member]
      cases found : highestBelow set upper with
      | none => rfl
      | some last => simp [(highestBelow_eq_some.mp found).2.1.ne]

theorem setReverseIterator_eq (valid : range.Valid) :
    setReverseIteratorFromRemainingRange set range = greatest (set.filter range.Bounds) := by
  unfold setReverseIteratorFromRemainingRange
  split_ifs with empty one unbounded
  · rw [card_eq_zero.mp empty]
    rfl
  · exact (exactlyOne_search set one).2
  · rcases bound : range.upperKey with _ | upper
    · rw [← filter_greatest]
      · simp only [valid.containsKey_iff]
      · intro last _ other le inside
        rw [valid.containsKey_iff] at inside ⊢
        exact ⟨fun lower lowered => above_of_le le (inside.1 lower lowered), by simp [bound]⟩
    · simp [isValidKey, bound, valid.upper upper bound] at unbounded
  · rcases bound : range.upperKey with _ | upper
    · simp [isValidKey, bound] at unbounded
    · rw [bind_some, lastFromUpper_eq set bound, ← filter_greatest, Finset.filter_filter]
      · simp only [bounds_iff, and_comm]
      · intro last _ other le below
        rw [isNotBelow_iff] at below ⊢
        exact fun lower bound => above_of_le le (below lower bound)

theorem moveForward_eq (valid : range.Valid) (count : Nat) (inside : range.Bounds key) :
    moveForward set range count key = advance (set.filter (range.containsKey ·)) count key := by
  induction count generalizing key with
  | zero => rfl
  | succ count ih =>
    rw [moveForward, advance, upperBound_filter]
    · cases upperBound set key with
      | none => rfl
      | some next =>
        rw [filter_some]
        dsimp only
        split_ifs with contained
        · exact ih (valid.containsKey_iff.mp contained)
        · rfl
    · intro next other above later bounds
      exact valid.containsKey_iff.mpr (inside.convex (valid.containsKey_iff.mp bounds) (le_of_lt above) later)

theorem moveReverse_eq (valid : range.Valid) (count : Nat) (inside : range.Bounds key) :
    moveReverse set range count key = retreat (set.filter (range.containsKey ·)) count key := by
  induction count generalizing key with
  | zero => rfl
  | succ count ih =>
    rw [moveReverse, retreat, highestBelow_filter]
    · cases highestBelow set key with
      | none => rfl
      | some next =>
        rw [filter_some]
        dsimp only
        split_ifs with contained
        · exact ih (valid.containsKey_iff.mp contained)
        · rfl
    · intro next other below earlier bounds
      exact valid.containsKey_iff.mpr ((valid.containsKey_iff.mp bounds).convex inside earlier (le_of_lt below))

/-- What a cursor keeps of its range: the bound it moves away from may be replaced, the bound it
    moves to is the one of its info. -/
structure Ranged (cursor : MemoryObjectStoreCursor K) : Prop where
  valid : cursor.info.range.Valid
  forward : cursor.info.isDirectionForward = true →
    cursor.remainingRange.upperKey = cursor.info.range.upperKey ∧
      cursor.remainingRange.upperOpen = cursor.info.range.upperOpen
  reverse : cursor.info.isDirectionForward = false →
    cursor.remainingRange.lowerKey = cursor.info.range.lowerKey ∧
      cursor.remainingRange.lowerOpen = cursor.info.range.lowerOpen

theorem setFirstInRemainingRange_iterator (cursor : MemoryObjectStoreCursor K) :
    (setFirstInRemainingRange set cursor).iterator = if cursor.info.isDirectionForward then
        setForwardIteratorFromRemainingRange set cursor.remainingRange
      else setReverseIteratorFromRemainingRange set cursor.remainingRange := by
  unfold setFirstInRemainingRange
  split
  · cases setForwardIteratorFromRemainingRange set cursor.remainingRange <;> rfl
  · cases setReverseIteratorFromRemainingRange set cursor.remainingRange <;> rfl

end Searches

def keysInRange (info : IDBCursorInfo K) (set : Finset K) : Finset K :=
  set.filter (info.range.containsKey ·)

theorem mem_keysInRange {info : IDBCursorInfo K} (valid : info.range.Valid) {set : Finset K} :
    key ∈ keysInRange info set ↔ key ∈ set ∧ info.range.Bounds key := by
  rw [keysInRange, mem_filter, valid.containsKey_iff]

section

variable (ranged : cursor.Ranged)
include ranged

theorem forwardBounds_iff (forward : cursor.info.isDirectionForward = true) (inside : cursor.info.range.Bounds start) :
    ({ cursor.remainingRange with lowerKey := some start, lowerOpen := false } :
      IDBKeyRangeData K).Bounds key ↔ start ≤ key ∧ cursor.info.range.Bounds key := by
  rcases ranged.forward forward with ⟨upperKey, upperOpen⟩
  simp only [IDBKeyRangeData.Bounds, upperKey, upperOpen, some.injEq, forall_eq']
  constructor
  · intro bounds
    exact ⟨bounds.1, fun lower bound => above_of_le bounds.1 (inside.1 lower bound), bounds.2⟩
  · intro bounds
    exact ⟨bounds.1, bounds.2.2⟩

theorem reverseBounds_iff (reverse : cursor.info.isDirectionForward = false) (inside : cursor.info.range.Bounds start) :
    ({ cursor.remainingRange with upperKey := some start, upperOpen := false } :
      IDBKeyRangeData K).Bounds key ↔ key ≤ start ∧ cursor.info.range.Bounds key := by
  rcases ranged.reverse reverse with ⟨lowerKey, lowerOpen⟩
  simp only [IDBKeyRangeData.Bounds, lowerKey, lowerOpen, some.injEq, forall_eq']
  constructor
  · intro bounds
    exact ⟨bounds.2, bounds.1, fun upper bound => below_of_le bounds.2 (inside.2 upper bound)⟩
  · intro bounds
    exact ⟨bounds.2.1, bounds.1⟩

theorem resetForward_iterator (forward : cursor.info.isDirectionForward = true) (set : Finset K)
    (inside : cursor.info.range.Bounds start) :
    (resetForward set start cursor).iterator = lowerBound (keysInRange cursor.info set) start := by
  rw [resetForward, setFirstInRemainingRange_iterator]
  simp only [if_pos forward]
  rw [setForwardIterator_eq, lowerBound, keysInRange, Finset.filter_filter]
  congr 1
  apply filter_congr
  intro key _
  rw [forwardBounds_iff ranged forward inside, ranged.valid.containsKey_iff, and_comm]

theorem resetReverse_iterator (reverse : cursor.info.isDirectionForward = false) (set : Finset K)
    (checked : isValid start = true) (inside : cursor.info.range.Bounds start) :
    (resetReverse set start cursor).iterator = highestAtMost (keysInRange cursor.info set) start := by
  have valid : ({ cursor.remainingRange with upperKey := some start, upperOpen := false } :
      IDBKeyRangeData K).Valid := by
    constructor
    · intro lower bound
      exact ranged.valid.lower lower ((ranged.reverse reverse).1 ▸ bound)
    · intro upper bound
      cases bound
      exact checked
  rw [resetReverse, setFirstInRemainingRange_iterator]
  simp only [reverse, Bool.false_eq_true, if_false]
  rw [setReverseIterator_eq set valid, highestAtMost, keysInRange, Finset.filter_filter]
  congr 1
  apply filter_congr
  intro key _
  rw [reverseBounds_iff ranged reverse inside, ranged.valid.containsKey_iff, and_comm]

end

structure Moved (after before : MemoryObjectStoreCursor K) : Prop where
  info : after.info = before.info
  position : after.currentPositionKey = before.currentPositionKey
  ranged : before.Ranged → after.Ranged

theorem Moved.refl (cursor : MemoryObjectStoreCursor K) : Moved cursor cursor := ⟨rfl, rfl, id⟩

theorem Moved.trans {first second third : MemoryObjectStoreCursor K} (left : Moved first second)
    (right : Moved second third) : Moved first third :=
  ⟨left.info.trans right.info, left.position.trans right.position, left.ranged ∘ right.ranged⟩

theorem Moved.withIterator {after before : MemoryObjectStoreCursor K} (moved : Moved after before)
    {position : Option K} (same : before.currentPositionKey = position) (iterator : Option K) :
    Moved ⟨before.info, after.remainingRange, iterator, position⟩ before := by
  refine ⟨rfl, same.symm, ?_⟩
  intro ranged
  have kept := moved.ranged ranged
  exact ⟨ranged.valid, moved.info ▸ kept.forward, moved.info ▸ kept.reverse⟩

theorem setFirst_moved (set : Finset K) (cursor : MemoryObjectStoreCursor K) :
    Moved (setFirstInRemainingRange set cursor) cursor := by
  unfold setFirstInRemainingRange
  split
  · rename_i forward
    cases setForwardIteratorFromRemainingRange set cursor.remainingRange with
    | none => exact (Moved.refl cursor).withIterator rfl none
    | some key => exact ⟨rfl, rfl, fun ranged =>
        ⟨ranged.valid, ranged.forward, fun reverse => by simp [forward] at reverse⟩⟩
  · rename_i reverse
    cases setReverseIteratorFromRemainingRange set cursor.remainingRange with
    | none => exact (Moved.refl cursor).withIterator rfl none
    | some key => exact ⟨rfl, rfl, fun ranged =>
        ⟨ranged.valid, fun forward => absurd forward reverse, ranged.reverse⟩⟩

end MemoryObjectStoreCursor

end Odyssey.IndexedDB
