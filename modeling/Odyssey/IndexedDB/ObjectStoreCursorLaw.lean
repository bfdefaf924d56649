import Odyssey.IndexedDB.ObjectStoreCursorSpec

namespace Odyssey.IndexedDB

open Containers IDBCursorInfo Option Bool IDBKeyOrder

variable {K : Type} [IDBKeyOrder K]

namespace IDBCursorInfo

def Beyond (info : IDBCursorInfo K) (first second : K) : Prop :=
  if info.isDirectionForward then first < second else second < first

instance (info : IDBCursorInfo K) (first second : K) : Decidable (info.Beyond first second) := by
  unfold Beyond
  infer_instance

def AtOrBeyond (info : IDBCursorInfo K) (first second : K) : Prop :=
  first = second ∨ info.Beyond first second

variable {info : IDBCursorInfo K} {first second third : K}

theorem beyond_forward (forward : info.isDirectionForward = true) : info.Beyond first second ↔ first < second := by
  rw [Beyond, if_pos forward]

theorem beyond_reverse (reverse : info.isDirectionForward = false) : info.Beyond first second ↔ second < first := by
  rw [Beyond, reverse]
  rfl

theorem beyond_trans (left : info.Beyond first second) (right : info.Beyond second third) :
    info.Beyond first third := by
  cases direction : info.isDirectionForward
  · rw [beyond_reverse direction] at *
    exact right.trans left
  · rw [beyond_forward direction] at *
    exact left.trans right

theorem atOrBeyond_iff :
    info.AtOrBeyond first second ↔ if info.isDirectionForward then first ≤ second else second ≤ first := by
  unfold AtOrBeyond Beyond
  split
  · exact le_iff_eq_or_lt.symm
  · rw [le_iff_eq_or_lt, eq_comm]

theorem not_beyond_self (info : IDBCursorInfo K) (key : K) : ¬ info.Beyond key key := by
  unfold Beyond
  split <;> exact lt_irrefl key

end IDBCursorInfo

namespace MemoryObjectStoreCursor

/-- Where a cursor at a position has to go, among these keys: to the first key at or beyond the one
    asked for, or else past as many keys as asked for, one if none are. -/
def Lands (info : IDBCursorInfo K) (keys : Finset K) (position : K) (key : Option K) (count : Nat)
    (found : K) : Prop :=
  match key with
  | some target => found ∈ keys ∧ info.AtOrBeyond target found ∧
      ∀ other ∈ keys, info.AtOrBeyond target other → info.AtOrBeyond found other
  | none => found ∈ keys ∧ info.Beyond position found ∧
      (keys.filter (fun other => info.Beyond position other ∧ info.Beyond other found)).card + 1 =
        max count 1

def landing (info : IDBCursorInfo K) (keys : Finset K) (position : K) (key : Option K) (count : Nat) :
    Option K :=
  match key with
  | some target => if info.isDirectionForward then lowerBound keys target else highestAtMost keys target
  | none => if info.isDirectionForward then advance keys (max count 1) position
      else retreat keys (max count 1) position

theorem steps_eq (count : Nat) : max count 1 = count - 1 + 1 := by omega

variable {info : IDBCursorInfo K} {position : K} {key : Option K} {cursor : MemoryObjectStoreCursor K}
  {store : MemoryObjectStore K} {keys : Finset K} {found : K} {count : Nat}

theorem landing_eq_some :
    landing info keys position key count = some found ↔ Lands info keys position key count found := by
  unfold landing Lands
  cases key with
  | none =>
    simp only [steps_eq, add_right_cancel_iff]
    cases forward : info.isDirectionForward with
    | true =>
      simp only [beyond_forward forward]
      exact advance_eq_some
    | false =>
      simp only [beyond_reverse forward]
      rw [retreat_eq_advance]
      exact advance_eq_some (K := Kᵒᵈ)
  | some target =>
    simp only [atOrBeyond_iff]
    cases info.isDirectionForward with
    | true => exact lowerBound_eq_some
    | false => exact highestAtMost_eq_some

theorem remainingCount_eq (count : Nat) (passed : Bool) :
    remainingCount count passed = if passed then count - 1 else count - 1 + 1 := by
  unfold remainingCount
  cases passed with
  | true => by_cases zero : count = 0 <;> simp [zero]
  | false =>
    by_cases zero : count = 0
    · simp [zero]
    · simp only [if_neg zero, false_eq_true, if_false]
      omega

def Admitted (info : IDBCursorInfo K) (position : K) (key : Option K) : Prop :=
  ∀ target, key = some target → IDBKeyOrder.isValid target = true ∧ info.Beyond position target

theorem filter_valid (admitted : Admitted info position key) : key.filter isValid = key :=
  filter_isValid fun target same => (admitted target same).1

theorem landing_beyond (admitted : Admitted info position key)
    (lands : landing info keys position key count = some found) : found ∈ keys ∧ info.Beyond position found := by
  have law := landing_eq_some.mp lands
  cases key with
  | none => exact ⟨law.1, law.2.1⟩
  | some target =>
    refine ⟨law.1, ?_⟩
    have first := (admitted target rfl).2
    rcases law.2.1 with same | beyond
    · exact same ▸ first
    · exact beyond_trans first beyond

def reset (set : Finset K) (start : K) (cursor : MemoryObjectStoreCursor K) : MemoryObjectStoreCursor K :=
  if cursor.info.isDirectionForward then resetForward set start cursor else resetReverse set start cursor

theorem reset_iterator (ranged : cursor.Ranged) (set : Finset K) {start : K}
    (checked : isValid start = true) (inside : cursor.info.range.Bounds start) (count : Nat) :
    (reset set start cursor).iterator =
      landing cursor.info (keysInRange cursor.info set) start (some start) count := by
  unfold reset landing
  split
  · exact resetForward_iterator ranged ‹_› set inside
  · exact resetReverse_iterator ranged (eq_false_of_not_eq_true ‹_›) set checked inside

theorem reset_moved (set : Finset K) (start : K) (cursor : MemoryObjectStoreCursor K) :
    Moved (reset set start cursor) cursor := by
  unfold reset
  split
  · rename_i forward
    exact (setFirst_moved set _).trans ⟨rfl, rfl, fun ranged =>
      ⟨ranged.valid, ranged.forward, fun reverse => by simp [forward] at reverse⟩⟩
  · rename_i reverse
    exact (setFirst_moved set _).trans ⟨rfl, rfl, fun ranged =>
      ⟨ranged.valid, fun forward => absurd forward reverse, ranged.reverse⟩⟩

def settle (set : Finset K) (key : Option K) (count : Nat) (position current : K)
    (cursor : MemoryObjectStoreCursor K) : MemoryObjectStoreCursor K :=
  match key.filter IDBKeyOrder.isValid with
  | some target =>
    if !cursor.info.range.containsKey target then cursor
    else if cursor.info.Beyond current target then reset set target cursor
    else cursor
  | none => { cursor with
      iterator := (if cursor.info.isDirectionForward then moveForward else moveReverse) set cursor.info.range
        (remainingCount count (cursor.info.Beyond position current)) current }

theorem move_from (valid : info.range.Valid) (set : Finset K) {current : K} (inside : info.range.Bounds current)
    (found : landing info (keysInRange info set) position (some position) 0 = some current ∨ current = position)
    (count : Nat) :
    (if info.isDirectionForward then moveForward else moveReverse) set info.range
      (remainingCount count (info.Beyond position current)) current =
      landing info (keysInRange info set) position none count := by
  rw [remainingCount_eq]
  cases direction : info.isDirectionForward with
  | true =>
    simp only [landing, steps_eq, beyond_forward direction, direction, if_true, decide_eq_true_eq] at found ⊢
    rw [moveForward_eq set valid _ inside]
    rcases found with found | rfl
    · exact (advance_of_lowerBound (count - 1) found).symm
    · rw [if_neg (lt_irrefl current)]
      rfl
  | false =>
    simp only [landing, steps_eq, beyond_reverse direction, direction, false_eq_true, if_false,
      decide_eq_true_eq] at found ⊢
    rw [moveReverse_eq set valid _ inside]
    rcases found with found | rfl
    · rw [retreat_eq_advance, retreat_eq_advance]
      exact (advance_of_lowerBound (K := Kᵒᵈ) (count - 1) found).symm
    · rw [if_neg (lt_irrefl current)]
      rfl

theorem landing_between {current target : K} (found : landing info keys position (some position) 0 = some current)
    (beyond : info.Beyond position target) (short : ¬ info.Beyond current target) :
    landing info keys position (some target) count = some current := by
  unfold landing Beyond at *
  split_ifs at * with direction
  · exact lowerBound_of_between found (le_of_lt beyond) (not_lt.mp short)
  · exact lowerBound_of_between (K := Kᵒᵈ) found (le_of_lt beyond) (not_lt.mp short)

def increment (set : Finset K) (key : Option K) (count : Nat) (cursor : MemoryObjectStoreCursor K) :
    Option (MemoryObjectStoreCursor K) :=
  if cursor.info.isDirectionForward then some (incrementForwardIterator set key count cursor)
  else incrementReverseIterator set key count cursor

structure Placed (cursor : MemoryObjectStoreCursor K) (position : K) : Prop extends cursor.Ranged where
  current : cursor.currentPositionKey = some position
  checked : IDBKeyOrder.isValid position = true
  inside : cursor.info.range.Bounds position
  seated : ∀ key, cursor.iterator = some key → key = position

section Increment

variable (placed : cursor.Placed position)
include placed

theorem Placed.isValidKey : isValidKey cursor.currentPositionKey = true := by
  rw [placed.current]
  exact placed.checked

/-- A cursor without an iterator is first set to where it was; the reverse one does not look whether
    there is a key. -/
theorem increment_eq (set : Finset K) (key : Option K) (count : Nat) : increment set key count cursor =
      if cursor.iterator.isSome then some (settle set key count position position cursor)
      else match (reset set position cursor).iterator with
        | some current => some (settle set key count position current (reset set position cursor))
        | none => if cursor.info.isDirectionForward then some (reset set position cursor) else none := by
  unfold increment incrementForwardIterator incrementReverseIterator settle
  simp only [placed.isValidKey, Bool.not_true, Bool.and_false]
  cases iterator : cursor.iterator with
  | some current =>
    obtain rfl := placed.seated current iterator
    cases direction : cursor.info.isDirectionForward <;> cases key.filter isValid <;>
      simp [reset, Beyond, direction, iterator]
    all_goals split_ifs <;> rfl
  | none =>
    have moved := reset_moved set position cursor
    simp only [placed.current]
    cases direction : cursor.info.isDirectionForward <;> cases key.filter isValid <;>
      simp only [reset, Beyond, direction, if_true, false_eq_true, if_false] at moved ⊢ <;>
      split <;> simp [*, moved.info, moved.position, placed.current]
    all_goals split_ifs <;> rfl

variable (set : Finset K) (admitted : Admitted cursor.info position key)
  (contained : ∀ target, key = some target → cursor.info.range.containsKey target = true) (count : Nat)
include admitted contained

theorem settle_spec {after : MemoryObjectStoreCursor K} (moved : Moved after cursor) {current : K}
    (reached : after.iterator = some current) (inside : cursor.info.range.Bounds current)
    (found : landing cursor.info (keysInRange cursor.info set) position (some position) 0 = some current ∨
      current = position) :
    (settle set key count position current after).iterator =
        landing cursor.info (keysInRange cursor.info set) position key count ∧
      Moved (settle set key count position current after) cursor := by
  unfold settle
  rw [filter_valid admitted, moved.info]
  cases key with
  | none =>
    simp only [moved.position, placed.current]
    exact ⟨move_from placed.valid set inside found count, moved.withIterator placed.current _⟩
  | some target =>
    rcases admitted target rfl with ⟨checked, beyond⟩
    have within := placed.valid.containsKey_iff.mp (contained target rfl)
    simp only [contained target rfl, Bool.not_true]
    by_cases short : cursor.info.Beyond current target
    · rw [if_pos short, ← moved.info]
      exact ⟨reset_iterator (moved.ranged placed.toRanged) set checked (moved.info ▸ within) count,
        (reset_moved set target after).trans moved⟩
    · rw [if_neg short]
      rcases found with found | same
      · exact ⟨reached.trans (landing_between found beyond short).symm, moved⟩
      · exact absurd (same ▸ beyond) short

theorem increment_spec (left : cursor.info.isDirectionForward = false →
      landing cursor.info (keysInRange cursor.info set) position (some position) 0 ≠ none) :
    ∃ after, increment set key count cursor = some after ∧
      after.iterator = landing cursor.info (keysInRange cursor.info set) position key count ∧
      Moved after cursor := by
  have start := reset_iterator placed.toRanged set placed.checked placed.inside 0
  have moved := reset_moved set position cursor
  rw [increment_eq placed]
  cases iterator : cursor.iterator with
  | some current =>
    obtain rfl := placed.seated current iterator
    exact ⟨_, rfl, settle_spec placed set admitted contained count (.refl cursor) iterator placed.inside (.inr rfl)⟩
  | none =>
    cases found : landing cursor.info (keysInRange cursor.info set) position (some position) 0 with
    | some current =>
      rw [found] at start
      have within := ((mem_keysInRange placed.valid).mp (landing_eq_some.mp found).1).2
      simp only [start]
      exact ⟨_, rfl, settle_spec placed set admitted contained count moved start within (.inl found)⟩
    | none =>
      have forward := of_not_eq_false fun reverse => left reverse found
      rw [found] at start
      simp only [start, forward]
      refine ⟨_, rfl, ?_, moved⟩
      rw [start]
      symm
      apply eq_none_iff_forall_ne_some.mpr
      intro other lands
      rcases landing_beyond admitted lands with ⟨member, beyond⟩
      simp only [landing, forward] at found
      exact lt_asymm ((beyond_forward forward).mp beyond) (lowerBound_eq_none.mp found other member)

end Increment

/-- What holds between a cursor and its object store: a cursor that is not at its end is placed, and
    the key its iterator points to is stored. -/
structure Follows (store : MemoryObjectStore K) (cursor : MemoryObjectStoreCursor K) : Prop
    extends cursor.Ranged where
  placed : ∀ position, cursor.currentPositionKey = some position → cursor.Placed position
  stored : ∀ position, cursor.currentPositionKey = some position →
    ∀ key, cursor.iterator = some key → key ∈ store.orderedKeys.getD ∅

theorem Ranged.withPosition (ranged : cursor.Ranged) (position : Option K) :
    ({ cursor with currentPositionKey := position } : MemoryObjectStoreCursor K).Ranged :=
  ⟨ranged.valid, ranged.forward, ranged.reverse⟩

theorem follows_of_end (ranged : cursor.Ranged) (finished : cursor.currentPositionKey = none) :
    cursor.Follows store := by
  constructor
  · exact ranged
  all_goals
    intro position current
    rw [finished] at current
    cases current

theorem currentData_spec (ranged : cursor.Ranged) (valid : ∀ key ∈ store.orderedKeys.getD ∅, isValid key = true)
    (stored : ∀ key, cursor.iterator = some key → key ∈ keysInRange cursor.info (store.orderedKeys.getD ∅)) :
    (currentData store cursor).2.map (·.keyData) = cursor.iterator ∧ (currentData store cursor).1.Follows store := by
  unfold currentData
  cases iterator : cursor.iterator with
  | none => exact ⟨rfl, follows_of_end ⟨ranged.valid, ranged.forward, ranged.reverse⟩ rfl⟩
  | some found =>
    rcases (mem_keysInRange ranged.valid).mp (stored found iterator) with ⟨member, inside⟩
    have kept : (⟨cursor.info, cursor.remainingRange, some found, some found⟩ :
        MemoryObjectStoreCursor K).Ranged := ⟨ranged.valid, ranged.forward, ranged.reverse⟩
    refine ⟨rfl, kept, ?_, ?_⟩
    · intro position current
      cases current
      exact ⟨kept, rfl, valid found member, inside, fun key same => (some.inj same).symm⟩
    · intro position current key same
      exact some.inj same ▸ member

theorem iterate_eq {set : Finset K} (ordered : store.orderedKeys = some set)
    (contained : ∀ target, key = some target → cursor.info.range.containsKey target = true) (count : Nat) :
    iterate store key count cursor = (increment set key count cursor).map
      (fun after => currentData store { after with currentPositionKey := none }) := by
  have inRange : (key.filter isValid).any (!cursor.info.range.containsKey ·) = false := by
    cases key with
    | none => rfl
    | some target =>
      rw [filter_some]
      split
      · simp [contained target rfl]
      · rfl
  unfold iterate increment
  simp only [ordered, inRange, false_eq_true, if_false]
  split
  · rfl
  · cases incrementReverseIterator set key count cursor <;> rfl

def Stranded (store : MemoryObjectStore K) (cursor : MemoryObjectStoreCursor K) (position : K)
    (key : Option K) : Prop :=
  cursor.info.isDirectionForward = false ∧ ∃ set, store.orderedKeys = some set ∧
    (∀ target, key = some target → cursor.info.range.containsKey target = true) ∧
    ∀ other ∈ keysInRange cursor.info set, position < other

theorem stranded_iterate (follows : cursor.Follows store) (current : cursor.currentPositionKey = some position)
    (stranded : Stranded store cursor position key) (count : Nat) : iterate store key count cursor = none := by
  have placed := follows.placed position current
  rcases stranded with ⟨reverse, set, ordered, contained, above⟩
  have absent : cursor.iterator = none := by
    cases iterator : cursor.iterator with
    | none => rfl
    | some found =>
      have member := follows.stored position current found iterator
      rw [placed.seated found iterator, ordered] at member
      exact absurd (above position ((mem_keysInRange placed.valid).mpr ⟨member, placed.inside⟩)) (lt_irrefl position)
  have nothing : landing cursor.info (keysInRange cursor.info set) position (some position) 0 = none := by
    simpa [landing, reverse] using highestAtMost_eq_none.mpr above
  rw [← reset_iterator placed.toRanged set placed.checked placed.inside] at nothing
  rw [iterate_eq ordered contained count, increment_eq placed]
  simp [absent, nothing, reverse]

theorem landing_of_outside (valid : info.range.Valid) {set : Finset K} {target : K}
    (inside : info.range.Bounds position) (beyond : info.Beyond position target)
    (outside : info.range.containsKey target = false) (count : Nat) :
    landing info (keysInRange info set) position (some target) count = none := by
  apply eq_none_iff_forall_ne_some.mpr
  intro found lands
  rcases landing_eq_some.mp lands with ⟨member, further, _⟩
  have within := ((mem_keysInRange valid).mp member).2
  have bounds : info.range.Bounds target := by
    unfold AtOrBeyond Beyond at further
    unfold Beyond at beyond
    rcases further with same | further
    · exact same ▸ within
    · split_ifs at beyond further
      · exact inside.convex within (le_of_lt beyond) (le_of_lt further)
      · exact within.convex inside (le_of_lt further) (le_of_lt beyond)
  rw [valid.containsKey_iff.mpr bounds] at outside
  cases outside

theorem landing_of_empty (info : IDBCursorInfo K) (position : K) (key : Option K) (count : Nat) :
    landing info ∅ position key count = none := by
  apply eq_none_iff_forall_ne_some.mpr
  intro found lands
  have law := landing_eq_some.mp lands
  cases key <;> exact absurd law.1 (Finset.notMem_empty found)

theorem iterate_spec (follows : cursor.Follows store) (valid : ∀ key ∈ store.orderedKeys.getD ∅, isValid key = true)
    (current : cursor.currentPositionKey = some position) (admitted : Admitted cursor.info position key) (count : Nat)
    (free : ¬ Stranded store cursor position key) :
    ∃ after result, iterate store key count cursor = some (after, result) ∧
      result.map (·.keyData) = landing cursor.info
        (keysInRange cursor.info (store.orderedKeys.getD ∅)) position key count ∧ after.Follows store := by
  have placed := follows.placed position current
  have ended : ({ cursor with currentPositionKey := none } : MemoryObjectStoreCursor K).Follows store :=
    follows_of_end (placed.toRanged.withPosition none) rfl
  cases ordered : store.orderedKeys with
  | none =>
    have stopped : iterate store key count cursor = some ({ cursor with currentPositionKey := none }, none) := by
      unfold iterate
      rw [ordered]
    exact ⟨_, none, stopped, (landing_of_empty cursor.info position key count).symm, ended⟩
  | some set =>
    by_cases contained : ∀ target, key = some target → cursor.info.range.containsKey target = true
    · have left : cursor.info.isDirectionForward = false →
          landing cursor.info (keysInRange cursor.info set) position (some position) 0 ≠ none := by
        intro reverse nothing
        simp only [landing, reverse] at nothing
        exact free ⟨reverse, set, ordered, contained, highestAtMost_eq_none.mp nothing⟩
      rcases increment_spec placed set admitted contained count left with ⟨after, increment, lands, moved⟩
      have ranged : ({ after with currentPositionKey := none } : MemoryObjectStoreCursor K).Ranged :=
        (moved.ranged placed.toRanged).withPosition none
      have stored : ∀ found, after.iterator = some found →
          found ∈ keysInRange after.info (store.orderedKeys.getD ∅) := by
        intro found same
        rw [moved.info, ordered]
        exact (landing_beyond admitted (lands.symm.trans same)).1
      rcases currentData_spec ranged valid stored with ⟨data, following⟩
      refine ⟨_, _, ?_, data.trans lands, following⟩
      rw [iterate_eq ordered contained count, increment]
      rfl
    · push Not at contained
      rcases contained with ⟨target, rfl, outside⟩
      have apart : cursor.info.range.containsKey target = false := by simpa using outside
      have stopped : iterate store (some target) count cursor =
          some ({ cursor with currentPositionKey := none }, none) := by
        unfold iterate
        simp only [ordered, filter_valid admitted, any_some, apart, Bool.not_false, if_true]
      exact ⟨_, none, stopped, (landing_of_outside placed.valid placed.inside (admitted target rfl).2
        apart count).symm, ended⟩

end MemoryObjectStoreCursor

end Odyssey.IndexedDB
