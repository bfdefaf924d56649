import Odyssey.Collections.HashMapImpl

namespace Odyssey.Collections.HashMapImpl

open List Option Function Bucket Nat

variable {K V : Type} (map : HashMapImpl K V)

def Live (bucket : Nat) : Prop := (map.buckets bucket).key.isSome = true

instance (bucket : Nat) : Decidable (map.Live bucket) :=
  inferInstanceAs (Decidable (_ = true))

variable {map} in
theorem not_live_iff {bucket : Nat} : ¬map.Live bucket ↔ (map.buckets bucket).key = none := by
  rw [Live, Bool.not_eq_true, isSome_eq_false_iff, isNone_iff_eq_none]

def Adjacent (first second : Nat) : Prop :=
  first < second ∧ ∀ bucket, map.Live bucket → first < bucket → second ≤ bucket

/-- The list of the live buckets in the order of their allocation. A bucket that was taken out keeps a
    next one: either no entry lies in between, or it is the head and every entry comes later. -/
structure Linked : Prop where
  head : map.head = 0
  tail : map.tail + 1 = map.allocated
  nonempty : 0 < map.tail
  within : ∀ bucket, map.Live bucket → 0 < bucket ∧ bucket < map.tail
  next : ∀ bucket, bucket = 0 ∨ map.Live bucket → ∃ after, (map.buckets bucket).next = some after ∧
    map.Adjacent bucket after ∧ (map.Live after ∨ after = map.tail)
  prev : ∀ bucket, map.Live bucket ∨ bucket = map.tail → ∃ before,
    (map.buckets bucket).prev = some before ∧ map.Adjacent before bucket ∧
      (before = 0 ∨ map.Live before)
  stale : ∀ bucket, bucket ≠ 0 → bucket < map.tail → ¬map.Live bucket → ∃ after,
    (map.buckets bucket).next = some after ∧
      (map.Adjacent bucket after ∧ after ≤ map.tail ∨ after = 0 ∧ ∀ other, map.Live other → bucket < other)
  last : (map.buckets map.tail).next = none

theorem write_buckets (bucket : Nat) (change : Bucket K V → Bucket K V) (other : Nat) :
    (map.write bucket change).buckets other =
      if other = bucket then change (map.buckets other) else map.buckets other := by
  by_cases same : other = bucket
  · subst same
    rw [if_pos rfl]
    exact update_self ..
  · rw [if_neg same]
    exact update_of_ne same ..

variable {map} {result : HashMapImpl K V} {bucket after fuel : Nat}

theorem Linked.of_same {other : HashMapImpl K V} (linked : map.Linked)
    (live : ∀ bucket, other.Live bucket ↔ map.Live bucket)
    (next : ∀ bucket, (other.buckets bucket).next = (map.buckets bucket).next)
    (prev : ∀ bucket, (other.buckets bucket).prev = (map.buckets bucket).prev)
    (allocated : other.allocated = map.allocated) (head : other.head = map.head)
    (tail : other.tail = map.tail) : other.Linked := by
  refine ⟨head.trans linked.head, ?_, ?_, ?_, ?_, ?_, ?_, ?_⟩
  · rw [tail, allocated]
    exact linked.tail
  · rw [tail]
    exact linked.nonempty
  · simpa only [live, tail] using linked.within
  · simpa only [Adjacent, live, next, tail] using linked.next
  · simpa only [Adjacent, live, prev, tail] using linked.prev
  · simpa only [Adjacent, live, next, tail] using linked.stale
  · rw [tail, next]
    exact linked.last

theorem Linked.of_dead (dead : ∀ bucket, ¬map.Live bucket) (head : map.head = 0)
    (tail : map.tail + 1 = map.allocated) (nonempty : 0 < map.tail) (first : (map.buckets 0).next = some map.tail)
    (prev : (map.buckets map.tail).prev = some 0)
    (stale : ∀ bucket, bucket ≠ 0 → bucket < map.tail → ∃ after, (map.buckets bucket).next = some after ∧
      (bucket < after ∧ after ≤ map.tail ∨ after = 0))
    (last : (map.buckets map.tail).next = none) : map.Linked := by
  have adjacent : ∀ {first second : Nat}, first < second → map.Adjacent first second :=
    fun less => ⟨less, fun bucket lives => absurd lives (dead bucket)⟩
  refine ⟨head, tail, nonempty, fun bucket lives => absurd lives (dead bucket), ?_, ?_, ?_, last⟩
  · rintro bucket (rfl | lives)
    · exact ⟨map.tail, first, adjacent nonempty, .inr rfl⟩
    · exact absurd lives (dead bucket)
  · rintro bucket (lives | rfl)
    · exact absurd lives (dead bucket)
    · exact ⟨0, prev, adjacent nonempty, .inl rfl⟩
  · intro bucket notHead before _
    obtain ⟨after, nextIs, ⟨less, within⟩ | isHead⟩ := stale bucket notHead before
    · exact ⟨after, nextIs, .inl ⟨adjacent less, within⟩⟩
    · exact ⟨after, nextIs, .inr ⟨isHead, fun other lives => absurd lives (dead other)⟩⟩

theorem write_setValue_links (map : HashMapImpl K V) (written bucket : Nat) (value : Option V) :
    ((map.write written (·.setValue value)).buckets bucket).next = (map.buckets bucket).next ∧
      ((map.write written (·.setValue value)).buckets bucket).prev = (map.buckets bucket).prev ∧
      ((map.write written (·.setValue value)).buckets bucket).key = (map.buckets bucket).key := by
  rw [write_buckets]
  by_cases same : bucket = written
  · rw [if_pos same]
    exact ⟨rfl, rfl, rfl⟩
  · rw [if_neg same]
    exact ⟨rfl, rfl, rfl⟩

theorem Linked.setValue (linked : map.Linked) (written : Nat) (value : Option V) :
    (map.write written (·.setValue value)).Linked := by
  have links := write_setValue_links map written
  refine linked.of_same ?_ (fun bucket => (links bucket value).1) (fun bucket => (links bucket value).2.1) rfl rfl rfl
  intro bucket
  unfold Live
  rw [(links bucket value).2.2]

theorem Linked.not_live_head (linked : map.Linked) : ¬map.Live 0 := by
  intro live
  exact absurd (linked.within 0 live).1 (lt_irrefl 0)

theorem Linked.not_live_tail (linked : map.Linked) : ¬map.Live map.tail := by
  intro live
  exact absurd (linked.within map.tail live).2 (lt_irrefl _)

section Append

variable (index : Nat) (key : K) (value : Option V)

theorem append_buckets (fresh : map.tail ≠ map.allocated) (bucket : Nat) :
    (map.append index key value).buckets bucket = if bucket = map.tail then
        ⟨some map.allocated, (map.buckets bucket).prev, some key, value⟩
      else if bucket = map.allocated then ⟨none, some map.tail, none, none⟩
      else map.buckets bucket := by
  simp only [append, createBucket, write]
  by_cases atTail : bucket = map.tail
  · subst atTail
    simp [fresh, setKey, setValue, setNext]
  · by_cases atNew : bucket = map.allocated
    · simp [atNew, symm fresh, Bucket.create, setPrev]
    · simp [atTail, atNew]

theorem append_live (fresh : map.tail ≠ map.allocated) (unused : ¬map.Live map.allocated) (bucket : Nat) :
    (map.append index key value).Live bucket ↔ map.Live bucket ∨ bucket = map.tail := by
  unfold Live
  rw [append_buckets index key value fresh]
  by_cases atTail : bucket = map.tail
  · simp [atTail]
  · by_cases atNew : bucket = map.allocated
    · subst atNew
      simp only [atTail, or_false]
      exact iff_of_false (by simp) unused
    · simp [atTail, atNew]

theorem Linked.append (linked : map.Linked) : (map.append index key value).Linked := by
  have fresh : map.tail ≠ map.allocated := by
    have := linked.tail
    omega
  have unused : ¬map.Live map.allocated := by
    intro live
    have := linked.within _ live
    have := linked.tail
    omega
  have live := append_live index key value fresh unused
  have cell := append_buckets index key value fresh
  have newTail : (map.append index key value).tail = map.allocated := rfl
  have size := linked.tail
  have positive := linked.nonempty
  have within := linked.within
  refine ⟨linked.head, ?_, ?_, ?_, ?_, ?_, ?_, ?_⟩
  · rfl
  · omega
  · intro bucket lives
    rcases (live bucket).mp lives with lives | rfl
    · have := within bucket lives
      omega
    · omega
  · intro bucket lives
    have old := linked.next bucket
    simp only [Adjacent] at *
    grind
  · intro bucket lives
    have old := linked.prev bucket
    simp only [Adjacent] at *
    grind
  · intro bucket notHead before dead
    have old := linked.stale bucket notHead
    simp only [Adjacent] at *
    grind
  · rw [newTail, cell, if_neg (Ne.symm fresh), if_pos rfl]

end Append

section Unlink

variable {impl next prev index : Nat}

theorem unlink_eq_some : map.unlink index impl = some result ↔ ∃ next prev, (map.buckets impl).next = some next ∧
      (map.buckets impl).prev = some prev ∧
      result = { ((map.write next (·.setPrev prev)).write prev (·.setNext next)).write impl (·.makeDeleted) with
        buffer := Function.update map.buffer index .deleted
        deleteCount := map.deleteCount + 1
        keyCount := map.keyCount - 1 } := by
  unfold unlink
  cases (map.buckets impl).next with
  | none => simp
  | some next =>
    cases (map.buckets impl).prev with
    | none => simp
    | some prev =>
      simp only [bind_eq_bind, bind_some, some.injEq, exists_and_left, exists_eq_left']
      exact eq_comm

theorem unlink_links (nextIs : (map.buckets impl).next = some next) (prevIs : (map.buckets impl).prev = some prev)
    (unlinked : map.unlink index impl = some result) (bucket : Nat) :
    (result.buckets bucket).next = (if bucket = prev then some next else (map.buckets bucket).next) ∧
      (result.buckets bucket).prev = (if bucket = next then some prev else (map.buckets bucket).prev) := by
  obtain ⟨other, another, isNext, isPrev, rfl⟩ := unlink_eq_some.mp unlinked
  obtain rfl := some.inj (nextIs.symm.trans isNext)
  obtain rfl := some.inj (prevIs.symm.trans isPrev)
  simp [write_buckets, setNext, setPrev, makeDeleted, apply_ite Bucket.next, apply_ite Bucket.prev]

theorem unlink_entry (unlinked : map.unlink index impl = some result) (bucket : Nat) :
    (result.buckets bucket).key = (if bucket = impl then none else (map.buckets bucket).key) ∧
      (result.buckets bucket).value = (if bucket = impl then none else (map.buckets bucket).value) := by
  obtain ⟨next, prev, _, _, rfl⟩ := unlink_eq_some.mp unlinked
  simp [write_buckets, setNext, setPrev, makeDeleted, apply_ite key, apply_ite value]

theorem unlink_live (unlinked : map.unlink index impl = some result) (bucket : Nat) :
    result.Live bucket ↔ map.Live bucket ∧ bucket ≠ impl := by
  unfold Live
  rw [(unlink_entry unlinked bucket).1]
  by_cases same : bucket = impl <;> simp [same]

theorem Linked.unlink_returns (linked : map.Linked) (lives : map.Live impl) (index : Nat) :
    ∃ result, map.unlink index impl = some result := by
  obtain ⟨next, nextIs, _⟩ := linked.next impl (.inr lives)
  obtain ⟨prev, prevIs, _⟩ := linked.prev impl (.inl lives)
  exact ⟨_, unlink_eq_some.mpr ⟨next, prev, nextIs, prevIs, rfl⟩⟩

theorem Linked.unlink (linked : map.Linked) (lives : map.Live impl)
    (unlinked : map.unlink index impl = some result) : result.Linked := by
  obtain ⟨next, nextIs, after, isNext⟩ := linked.next impl (.inr lives)
  obtain ⟨prev, prevIs, before, isPrev⟩ := linked.prev impl (.inl lives)
  have live := unlink_live unlinked
  have links := unlink_links nextIs prevIs unlinked
  have same : result.head = map.head ∧ result.tail = map.tail ∧ result.allocated = map.allocated := by
    obtain ⟨_, _, _, _, rfl⟩ := unlink_eq_some.mp unlinked
    exact ⟨rfl, rfl, rfl⟩
  obtain ⟨sameHead, sameTail, sameAllocated⟩ := same
  have within := linked.within
  refine ⟨sameHead.trans linked.head, ?_, ?_, ?_, ?_, ?_, ?_, ?_⟩
  · rw [sameTail, sameAllocated]
    exact linked.tail
  · rw [sameTail]
    exact linked.nonempty
  · intro bucket stays
    rw [sameTail]
    exact within bucket ((live bucket).mp stays).1
  · intro bucket stays
    have old := linked.next bucket
    simp only [Adjacent] at *
    grind
  · intro bucket stays
    have old := linked.prev bucket
    simp only [Adjacent] at *
    grind
  · intro bucket notHead inside dead
    have old := linked.stale bucket notHead
    simp only [Adjacent] at *
    grind
  · have := linked.last
    grind [Adjacent]

end Unlink

theorem ofCapacity_buckets (capacity : BitVec 32) (bucket : Nat) :
    ((ofCapacity capacity : HashMapImpl K V).buckets bucket) = if bucket = 0 then ⟨some 1, none, none, none⟩
      else if bucket = 1 then ⟨none, some 0, none, none⟩
      else Bucket.create := by
  simp only [ofCapacity, setUpHeadAndTail, createBucket, makeAndSetNewBuffer, write]
  by_cases first : bucket = 0
  · simp [first, Bucket.create, setNext]
  · by_cases second : bucket = 1 <;> simp [first, second, Bucket.create, setPrev]

theorem ofCapacity_key (capacity : BitVec 32) (bucket : Nat) :
    ((ofCapacity capacity : HashMapImpl K V).buckets bucket).key = none := by
  rw [ofCapacity_buckets]
  by_cases first : bucket = 0
  · rw [if_pos first]
  · by_cases second : bucket = 1
    · rw [if_neg first, if_pos second]
    · rw [if_neg first, if_neg second]
      rfl

theorem Linked.ofCapacity (capacity : BitVec 32) : (ofCapacity capacity : HashMapImpl K V).Linked := by
  apply Linked.of_dead (fun bucket => not_live_iff.mpr (ofCapacity_key capacity bucket)) rfl rfl Nat.one_pos
  · rw [ofCapacity_buckets, if_pos rfl]
    rfl
  · rfl
  · intro bucket notHead before
    have : bucket < 1 := before
    omega
  · rfl

def liveFrom (map : HashMapImpl K V) (bucket : Nat) : List Nat :=
  (List.range' bucket (map.tail - bucket)).filter map.Live

theorem mem_liveFrom {other : Nat} :
    other ∈ map.liveFrom bucket ↔ bucket ≤ other ∧ other < map.tail ∧ map.Live other := by
  simp only [liveFrom, mem_filter, mem_range'_1, decide_eq_true_eq]
  constructor
  · rintro ⟨⟨start, before⟩, lives⟩
    exact ⟨start, by omega, lives⟩
  · rintro ⟨start, before, lives⟩
    exact ⟨⟨start, by omega⟩, lives⟩

theorem liveFrom_congr {other : HashMapImpl K V} (tail : other.tail = map.tail)
    (live : ∀ bucket, other.Live bucket ↔ map.Live bucket) : other.liveFrom bucket = map.liveFrom bucket := by
  unfold liveFrom
  rw [tail]
  exact filter_congr (fun bucket _ => decide_eq_decide.mpr (live bucket))

theorem liveFrom_tail : map.liveFrom map.tail = [] := by
  rw [liveFrom, Nat.sub_self]
  rfl

theorem liveFrom_skip (ordered : bucket ≤ after) (within : after ≤ map.tail)
    (none : ∀ other, map.Live other → bucket ≤ other → after ≤ other) : map.liveFrom bucket = map.liveFrom after := by
  have split : range' bucket (map.tail - bucket) =
      range' bucket (after - bucket) ++ range' after (map.tail - after) := by
    have joined : range' bucket (after - bucket) ++ range' (bucket + (after - bucket)) (map.tail - after) =
          range' bucket (after - bucket + (map.tail - after)) := range'_append_1
    rw [Nat.add_sub_cancel' ordered] at joined
    rw [joined]
    congr 1
    omega
  have skipped : (range' bucket (after - bucket)).filter map.Live = [] := by
    rw [filter_eq_nil_iff]
    intro other inside lives
    have := none other (of_decide_eq_true lives)
    rw [mem_range'_1] at inside
    omega
  rw [liveFrom, split, filter_append, skipped, nil_append, liveFrom]

theorem liveFrom_cons (lives : map.Live bucket) (adjacent : map.Adjacent bucket after)
    (within : after ≤ map.tail) : map.liveFrom bucket = bucket :: map.liveFrom after := by
  have before := adjacent.1
  have head : map.liveFrom bucket = bucket :: map.liveFrom (bucket + 1) := by
    unfold liveFrom
    rw [show map.tail - bucket = (map.tail - (bucket + 1)) + 1 by omega, range'_succ,
      filter_cons, if_pos (decide_eq_true lives)]
  rw [head, liveFrom_skip (by omega) within]
  intro other lives later
  exact adjacent.2 other lives (by omega)

def clearedBelow (map : HashMapImpl K V) (bound : Nat) : HashMapImpl K V :=
  { map with
    buckets := fun bucket =>
      if bucket < bound ∧ map.Live bucket then ((map.buckets bucket).setNext map.head).makeDeleted
      else map.buckets bucket }

theorem clearedBelow_write (lives : map.Live bucket) (adjacent : map.Adjacent bucket after) :
    (map.clearedBelow bucket).write bucket (fun cell => (cell.setNext map.head).makeDeleted) =
      map.clearedBelow after := by
  have cells : ∀ other, ((map.clearedBelow bucket).write bucket
      (fun cell => (cell.setNext map.head).makeDeleted)).buckets other = (map.clearedBelow after).buckets other := by
    intro other
    have before := adjacent.1
    rw [write_buckets]
    by_cases same : other = bucket
    · subst same
      simp [clearedBelow, before, lives]
    · have iff : other < bucket ∧ map.Live other ↔ other < after ∧ map.Live other := by
        have := adjacent.2 other
        grind
      simp only [clearedBelow, if_neg same, iff]
  exact congrArg (fun buckets => { map with buckets := buckets }) (funext cells)

theorem clearedBelow_of_le {bound : Nat} (none : ∀ other, map.Live other → bound ≤ other) :
    map.clearedBelow bound = map := by
  have cells : ∀ other, (map.clearedBelow bound).buckets other = map.buckets other := by
    intro other
    refine if_neg ?_
    rintro ⟨below, lives⟩
    have := none other lives
    omega
  exact congrArg (fun buckets => { map with buckets := buckets }) (funext cells)

def NextEntry (map : HashMapImpl K V) (bucket : Nat) : Option Nat → Prop
  | some after => map.Live after ∧ map.Adjacent bucket after
  | none => ∀ other, map.Live other → other ≤ bucket

variable {target : Option Nat}

theorem NextEntry.unique {first second : Option Nat} (left : map.NextEntry bucket first)
    (right : map.NextEntry bucket second) : first = second := by
  cases first with
  | none =>
    cases second with
    | none => rfl
    | some after =>
      have := left after right.1
      have := right.2.1
      omega
  | some after =>
    cases second with
    | none =>
      have := right after left.1
      have := left.2.1
      omega
    | some other =>
      have := left.2.2 other right.1 right.2.1
      have := right.2.2 after left.1 left.2.1
      exact congrArg some (by omega)

theorem NextEntry.shift (next : map.NextEntry bucket target)
    (same : ∀ other, map.Live other → (bucket < other ↔ after < other)) : map.NextEntry after target := by
  cases target with
  | none =>
    intro other lives
    have := next other lives
    have := same other lives
    omega
  | some found =>
    refine ⟨next.1, (same found next.1).mp next.2.1, ?_⟩
    intro other lives later
    exact next.2.2 other lives ((same other lives).mpr later)

/-- How many buckets the walk may still visit. A bucket that was taken out leads upwards or to the
    head. -/
def walkBound (map : HashMapImpl K V) (bucket : Nat) : Nat :=
  if bucket = 0 then 2 else if bucket = map.tail then 1 else map.tail - bucket + 2

namespace Linked

variable (linked : map.Linked)
include linked

theorem le_tail (here : map.Live bucket ∨ bucket = map.tail) : bucket ≤ map.tail := by
  rcases here with lives | same
  · exact le_of_lt (linked.within bucket lives).2
  · exact le_of_eq same

theorem step (here : map.Live bucket ∨ bucket = map.tail) (notLast : bucket ≠ map.tail) :
    ∃ after, (map.buckets bucket).next = some after ∧ (map.Live after ∨ after = map.tail) ∧
      map.Live bucket ∧ map.Adjacent bucket after ∧ after ≤ map.tail := by
  have lives := here.resolve_right notLast
  obtain ⟨after, nextIs, adjacent, there⟩ := linked.next bucket (.inr lives)
  exact ⟨after, nextIs, there, lives, adjacent, linked.le_tail there⟩

theorem first : ∃ first, (map.buckets map.head).next = some first ∧ (map.Live first ∨ first = map.tail) ∧
      (∀ other, map.Live other → first ≤ other) ∧ first ≤ map.tail ∧
      map.tail - first < map.allocated := by
  obtain ⟨first, nextIs, adjacent, there⟩ := linked.next 0 (.inl rfl)
  have size := linked.tail
  refine ⟨first, linked.head ▸ nextIs, there, ?_, linked.le_tail there, by omega⟩
  intro other lives
  exact adjacent.2 other lives (linked.within other lives).1

theorem bucketsFrom_eq (here : map.Live bucket ∨ bucket = map.tail)
    (enough : map.tail - bucket < fuel) : map.bucketsFrom fuel bucket = some (map.liveFrom bucket) := by
  induction fuel generalizing bucket with
  | zero => omega
  | succ fuel ih =>
    unfold bucketsFrom
    by_cases last : bucket = map.tail
    · rw [if_pos last, last, liveFrom_tail]
    · obtain ⟨after, nextIs, there, lives, adjacent, within⟩ := linked.step here last
      have before := adjacent.1
      rw [if_neg last, nextIs, liveFrom_cons lives adjacent within]
      simp [ih there (by omega)]

theorem bucketList_eq : map.bucketList = some (map.liveFrom 0) := by
  obtain ⟨first, nextIs, there, lowest, inside, enough⟩ := linked.first
  unfold bucketList
  rw [nextIs, liveFrom_skip (zero_le _) inside (fun other lives _ => lowest other lives)]
  exact linked.bucketsFrom_eq there enough

theorem clearFrom_eq (here : map.Live bucket ∨ bucket = map.tail) (enough : map.tail - bucket < fuel) :
    (map.clearedBelow bucket).clearFrom fuel bucket = some (map.clearedBelow map.tail) := by
  induction fuel generalizing bucket with
  | zero => omega
  | succ fuel ih =>
    unfold clearFrom
    have sameTail : (map.clearedBelow bucket).tail = map.tail := rfl
    have sameHead : (map.clearedBelow bucket).head = map.head := rfl
    rw [sameTail, sameHead]
    by_cases last : bucket = map.tail
    · rw [if_pos last, last]
    · obtain ⟨after, nextIs, there, lives, adjacent, _⟩ := linked.step here last
      have before := adjacent.1
      have sameCell : (map.clearedBelow bucket).buckets bucket = map.buckets bucket := by
        simp [clearedBelow]
      rw [if_neg last, sameCell, nextIs, clearedBelow_write lives adjacent]
      exact ih there (by omega)

theorem clear_eq :
    map.clear = some { (((map.clearedBelow map.tail).write map.head (·.setNext map.tail)).write map.tail
        (·.setPrev map.head)) with
      buffer := fun _ => .empty, keyCount := 0, deleteCount := 0, capacity := 4 } := by
  have reset : HashMapImpl.Linked { map with keyCount := 0, deleteCount := 0 } :=
    linked.of_same (fun _ => Iff.rfl) (fun _ => rfl) (fun _ => rfl) rfl rfl rfl
  obtain ⟨first, nextIs, there, lowest, _, enough⟩ := reset.first
  have walked := reset.clearFrom_eq there enough
  rw [clearedBelow_of_le lowest] at walked
  change bind (map.buckets map.head).next _ = _
  rw [show (map.buckets map.head).next = some first from nextIs]
  change bind (clearFrom { map with keyCount := 0, deleteCount := 0 } map.allocated first) _ = _
  rw [show clearFrom { map with keyCount := 0, deleteCount := 0 } map.allocated first = _ from walked]
  rfl

theorem clear_links (cleared : map.clear = some result) (bucket : Nat) :
    (result.buckets bucket).next = (if bucket = 0 then some map.tail else if map.Live bucket then some 0
          else (map.buckets bucket).next) ∧
      (result.buckets bucket).prev = (if bucket = map.tail then some 0 else (map.buckets bucket).prev) ∧
      (result.buckets bucket).key = none := by
  rw [linked.clear_eq] at cleared
  obtain rfl := Option.some.inj cleared
  simp only [write_buckets, clearedBelow, setNext, setPrev, makeDeleted, apply_ite Bucket.prev, ite_self, linked.head]
  refine ⟨?_, trivial, ?_⟩
  · have := linked.within bucket
    grind
  · have := linked.within bucket
    grind [not_live_iff]

theorem clear (cleared : map.clear = some result) : result.Linked := by
  have links := linked.clear_links cleared
  have dead : ∀ bucket, ¬result.Live bucket := by
    intro bucket
    unfold Live
    rw [(links bucket).2.2]
    exact Bool.false_ne_true
  have same : result.head = map.head ∧ result.tail = map.tail ∧ result.allocated = map.allocated := by
    rw [linked.clear_eq] at cleared
    obtain rfl := some.inj cleared
    exact ⟨rfl, rfl, rfl⟩
  obtain ⟨sameHead, sameTail, sameAllocated⟩ := same
  have positive := linked.nonempty
  apply Linked.of_dead dead (sameHead.trans linked.head)
  · rw [sameTail, sameAllocated]
    exact linked.tail
  · rw [sameTail]
    exact positive
  · rw [(links 0).1, if_pos rfl, sameTail]
  · rw [(links result.tail).2.1, if_pos sameTail]
  · intro bucket notHead before
    rw [(links bucket).1, if_neg notHead]
    -- what was live points to the head now, and what was not keeps its next bucket
    by_cases lived : map.Live bucket
    · exact ⟨0, if_pos lived, .inr rfl⟩
    · rw [if_neg lived]
      obtain ⟨after, nextIs, ⟨adjacent, within⟩ | ⟨isHead, _⟩⟩ :=
        linked.stale bucket notHead (sameTail ▸ before) lived
      · exact ⟨after, nextIs, .inl ⟨adjacent.1, sameTail ▸ within⟩⟩
      · exact ⟨after, nextIs, .inr isHead⟩
  · rw [sameTail, (links map.tail).1, if_neg (by omega), if_neg linked.not_live_tail]
    exact linked.last

theorem skipDeleted_eq (within : bucket ≤ map.tail) (next : map.NextEntry bucket target)
    (enough : map.walkBound bucket ≤ fuel) : map.skipDeleted fuel (map.buckets bucket).next = some target := by
  induction fuel generalizing bucket with
  | zero =>
    unfold walkBound at enough
    grind
  | succ fuel ih =>
    by_cases last : bucket = map.tail
    · subst last
      have none : target = none := next.unique (fun other lives => le_of_lt (linked.within other lives).2)
      rw [linked.last, none]
      rfl
    · have towards : ∀ after, (map.buckets bucket).next = some after → after ≤ map.tail →
          (map.Live after → map.Adjacent bucket after) →
          (¬map.Live after → map.walkBound after ≤ fuel ∧
            ∀ other, map.Live other → (bucket < other ↔ after < other)) →
          map.skipDeleted (fuel + 1) (map.buckets bucket).next = some target := by
        intro after nextIs inside found passed
        rw [nextIs, skipDeleted]
        by_cases lives : map.Live after
        · have same : target = some after := next.unique ⟨lives, found lives⟩
          rw [if_neg (by simpa [deleted, Live, isSome_iff_ne_none] using lives), same]
        · rw [if_pos (by simpa [deleted, Live] using lives)]
          obtain ⟨bound, same⟩ := passed lives
          exact ih inside (next.shift same) bound
      have above : ∀ other, map.Live other → other < map.tail := by
        intro other lives
        exact (linked.within other lives).2
      unfold walkBound at enough towards
      by_cases listed : bucket = 0 ∨ map.Live bucket
      · obtain ⟨after, nextIs, adjacent, there⟩ := linked.next bucket listed
        have := adjacent.2
        grind
      · obtain ⟨notHead, dead⟩ := not_or.mp listed
        obtain ⟨after, nextIs, kind⟩ := linked.stale bucket notHead (by omega) dead
        rcases kind with ⟨adjacent, inside⟩ | ⟨isHead, later⟩
        · refine towards after nextIs inside (fun _ => adjacent) ?_
          intro passed
          obtain ⟨before, lowest⟩ := adjacent
          refine ⟨by grind, ?_⟩
          intro other lives
          have := lowest other lives
          have : other ≠ after := fun same => passed (same ▸ lives)
          omega
        · refine towards after nextIs (by omega) (fun lives => absurd (isHead ▸ lives) linked.not_live_head) ?_
          intro _
          refine ⟨by grind, ?_⟩
          intro other lives
          have := later other lives
          omega

theorem advanceIter_eq (within : bucket ≤ map.tail)
    (next : map.NextEntry bucket target) : map.advanceIter (some bucket) = some target := by
  refine linked.skipDeleted_eq within next ?_
  have := linked.tail
  unfold walkBound
  grind

end Linked

end Odyssey.Collections.HashMapImpl
