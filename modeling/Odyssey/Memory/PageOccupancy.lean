import Mathlib.Algebra.GroupWithZero.Nat
import Mathlib.Data.List.Intervals
import Mathlib.Data.Multiset.Bind
import Odyssey.Containers.HashMap
import Odyssey.Systems.Run

namespace Odyssey.Memory

open Containers Systems Function List Multiset HashMap Option List.Ico

structure MetaAllocatorHandle where
  start : Nat
  sizeInBytes : Nat
  deriving DecidableEq

inductive Notice where
  | notifyNeedPage
  | notifyPageIsFree

/-- What an allocator knows of its pages, the calls for each page, the last one first, and the live handles. -/
structure MetaAllocator where
  pageOccupancyMap : HashMap Nat Nat
  bytesCommitted : Nat
  notices : Nat → List Notice
  handles : Multiset MetaAllocatorHandle

/-- The space of an allocation is what the free list or the embedder has for its size. -/
inductive Event where
  | allocate (sizeInBytes : Nat) (space : Option Nat)
  | release (handle : MetaAllocatorHandle)
  | shrink (handle : MetaAllocatorHandle) (newSizeInBytes : Nat)

namespace MetaAllocator

def initial : MetaAllocator := ⟨∅, 0, fun _ => [], 0⟩

def roundUp (allocationGranule sizeInBytes : Nat) : Option Nat :=
  if 2^64 - 1 - allocationGranule ≤ sizeInBytes then none
  else some ((sizeInBytes + allocationGranule - 1) / allocationGranule * allocationGranule)

variable (pageSize allocationGranule : Nat) (state : MetaAllocator)

def pages (address sizeInBytes : Nat) : List Nat :=
  let firstPage := address / pageSize
  let lastPage := (address + sizeInBytes - 1) / pageSize
  List.Ico firstPage (lastPage + 1)

def incrementPage (page : Nat) : MetaAllocator :=
  match state.pageOccupancyMap.lookup page with
  | none => { state with
      pageOccupancyMap := state.pageOccupancyMap.insert page 1
      bytesCommitted := state.bytesCommitted + pageSize
      notices := update state.notices page (.notifyNeedPage :: state.notices page) }
  | some value => { state with pageOccupancyMap := state.pageOccupancyMap.insert page (value + 1) }

def incrementPageOccupancy (address sizeInBytes : Nat) : MetaAllocator :=
  (pages pageSize address sizeInBytes).foldl (incrementPage pageSize) state

def decrementPage (page : Nat) : Option MetaAllocator := do
  let value ← state.pageOccupancyMap.lookup page
  if value - 1 = 0 then
    some { state with
      pageOccupancyMap := state.pageOccupancyMap.erase page
      bytesCommitted := state.bytesCommitted - pageSize
      notices := update state.notices page (.notifyPageIsFree :: state.notices page) }
  else some { state with pageOccupancyMap := state.pageOccupancyMap.insert page (value - 1) }

def decrementPageOccupancy (address sizeInBytes : Nat) : Option MetaAllocator :=
  (pages pageSize address sizeInBytes).foldlM (decrementPage pageSize) state

def step : Event → Option MetaAllocator
  | .allocate sizeInBytes space =>
    if sizeInBytes = 0 then some state
    else do
      let sizeInBytes ← roundUp allocationGranule sizeInBytes
      match space with
      | none => some state
      | some start => some { state.incrementPageOccupancy pageSize start sizeInBytes with
          handles := ⟨start, sizeInBytes⟩ ::ₘ state.handles }
  | .release handle => do
    let released ← if handle.sizeInBytes ≠ 0 then
        state.decrementPageOccupancy pageSize handle.start handle.sizeInBytes
      else some state
    some { released with handles := state.handles.erase handle }
  | .shrink handle newSizeInBytes => do
    let newSizeInBytes ← roundUp allocationGranule newSizeInBytes
    if newSizeInBytes = handle.sizeInBytes then some state
    else
      let freeStart := handle.start + newSizeInBytes
      let freeSize := handle.sizeInBytes - newSizeInBytes
      let freeEnd := freeStart + freeSize
      let firstCompletelyFreePage := (freeStart + pageSize - 1) / pageSize * pageSize
      let shrunk ← if firstCompletelyFreePage < freeEnd then
          state.decrementPageOccupancy pageSize firstCompletelyFreePage
            (freeSize - (firstCompletelyFreePage - freeStart))
        else some state
      some { shrunk with handles := ⟨handle.start, newSizeInBytes⟩ ::ₘ state.handles.erase handle }

/-- The number of live handles with a byte in the page. -/
def live (page : Nat) : Nat := state.handles.countP fun handle : MetaAllocatorHandle =>
  ∃ byte ∈ List.Ico handle.start (handle.start + handle.sizeInBytes), byte / pageSize = page

/-- The calls for a page, the last one first, alternate from the first one on. -/
inductive Alternates : Bool → List Notice → Prop
  | none : Alternates false []
  | need {calls : List Notice} (before : Alternates false calls) : Alternates true (.notifyNeedPage :: calls)
  | free {calls : List Notice} (before : Alternates true calls) : Alternates false (.notifyPageIsFree :: calls)

/-- The pages are committed as counted. -/
structure Committed (count : Nat → Nat) : Prop where
  mapped : ∀ page, state.pageOccupancyMap.lookup page = if count page = 0 then none else some (count page)
  bytes : state.bytesCommitted = pageSize * state.pageOccupancyMap.keys.card
  alternate : ∀ page, Alternates (count page ≠ 0) (state.notices page)

/-- What the assertions and the address space ask of a call. A handle that is shrunk to nothing starts a page. -/
def Allowed : Event → Prop
  | .allocate sizeInBytes space => ∃ size, roundUp allocationGranule sizeInBytes = some size ∧
      ∀ start ∈ space, start + size + pageSize ≤ 2^64
  | .release handle => handle ∈ state.handles
  | .shrink handle newSizeInBytes => handle ∈ state.handles ∧ ∃ size ≤ handle.sizeInBytes,
      roundUp allocationGranule newSizeInBytes = some size ∧ (size = 0 → pageSize ∣ handle.start)

variable {pageSize allocationGranule state} {used : Multiset Nat} {page : Nat} {count : Nat → Nat}

theorem Committed.change {after : MetaAllocator} {other : Nat → Nat} (committed : state.Committed pageSize count)
    (page : Nat) (mapped : ∀ q, after.pageOccupancyMap.lookup q =
      if q = page then if other page = 0 then none else some (other page) else state.pageOccupancyMap.lookup q)
    (bytes : after.bytesCommitted = pageSize * after.pageOccupancyMap.keys.card)
    (noticed : Alternates (other page ≠ 0) (after.notices page))
    (others : ∀ q ≠ page, count q = other q ∧ after.notices q = state.notices q) :
    after.Committed pageSize other := by
  refine ⟨?_, bytes, ?_⟩
  · intro q
    rcases eq_or_ne q page with rfl | different
    · rw [mapped, if_pos rfl]
    · rw [mapped, if_neg different, committed.mapped, (others q different).1]
  · intro q
    rcases eq_or_ne q page with rfl | different
    · exact noticed
    · rw [(others q different).2, ← (others q different).1]
      exact committed.alternate q

theorem Committed.set {other : Nat → Nat} (committed : state.Committed pageSize count) (page : Nat)
    (before : count page ≠ 0) (after : other page ≠ 0) (others : ∀ q ≠ page, count q = other q) :
    Committed pageSize { state with pageOccupancyMap := state.pageOccupancyMap.insert page (other page) } other := by
  apply committed.change page
  · intro q
    rw [lookup_insert_eq, if_neg after]
  · have found := (committed.mapped page).trans (if_neg before)
    rw [keys_insert, Finset.insert_eq_of_mem (mem_keys_iff.mpr ⟨_, found⟩)]
    exact committed.bytes
  · simpa [before, after] using committed.alternate page
  · exact fun q different => ⟨others q different, rfl⟩

theorem Committed.increment (committed : state.Committed pageSize used.count) (page : Nat) :
    (state.incrementPage pageSize page).Committed pageSize (page ::ₘ used).count := by
  have others : ∀ q ≠ page, used.count q = (page ::ₘ used).count q :=
    fun q different => (count_cons_of_ne different used).symm
  have more := count_cons_self page used
  have mapped := committed.mapped page
  unfold incrementPage
  split_ifs at mapped with zero
  · simp only [mapped]
    rw [zero] at more
    apply committed.change page
    · intro q
      rw [lookup_insert_eq, more]
      rfl
    · rw [keys_insert, Finset.card_insert_of_notMem (not_mem_keys_iff.mpr mapped), committed.bytes]
      rfl
    · simp only [more, update_self]
      apply Alternates.need
      simpa [zero] using committed.alternate page
    · exact fun q different => ⟨others q different, update_of_ne different ..⟩
  · simp only [mapped, ← more]
    exact committed.set page zero (by omega) others

theorem Committed.decrement (committed : state.Committed pageSize (page ::ₘ used).count) :
    ∃ after, state.decrementPage pageSize page = some after ∧ after.Committed pageSize used.count := by
  have others : ∀ q ≠ page, (page ::ₘ used).count q = used.count q :=
    fun q different => count_cons_of_ne different used
  have less := count_cons_self page used
  have mapped := committed.mapped page
  rw [less, if_neg (Nat.succ_ne_zero _)] at mapped
  simp only [decrementPage, mapped, bind_eq_bind, bind_some, Nat.add_sub_cancel]
  split_ifs with last
  · refine ⟨_, rfl, ?_⟩
    apply committed.change page
    · intro q
      rw [lookup_erase_eq, if_pos last]
    · rw [Finmap.keys_erase, Finset.card_erase_of_mem (mem_keys_iff.mpr ⟨_, mapped⟩), Nat.mul_sub_one,
        committed.bytes]
    · simp only [last, update_self]
      apply Alternates.free
      simpa [less] using committed.alternate page
    · exact fun q different => ⟨others q different, update_of_ne different ..⟩
  · exact ⟨_, rfl, committed.set page (by omega) last others⟩

theorem Committed.incrementAll (committed : state.Committed pageSize used.count) (pages : List Nat) :
    (pages.foldl (incrementPage pageSize) state).Committed pageSize (pages + used).count := by
  induction pages generalizing state used with
  | nil => simpa using committed
  | cons page pages ih =>
    rw [← cons_coe, cons_add, ← add_cons]
    exact ih (committed.increment page)

theorem Committed.decrementAll (pages : List Nat) (committed : state.Committed pageSize (pages + used).count) :
    ∃ after, pages.foldlM (decrementPage pageSize) state = some after ∧ after.Committed pageSize used.count := by
  induction pages generalizing state with
  | nil => exact ⟨state, rfl, by simpa using committed⟩
  | cons page pages ih =>
    rw [← cons_coe, cons_add] at committed
    obtain ⟨middle, first, between⟩ := committed.decrement
    rw [foldlM_cons, first]
    exact ih between

/-- The pages that are counted for a handle. -/
def spanned (pageSize : Nat) (handle : MetaAllocatorHandle) : Multiset Nat :=
  if handle.sizeInBytes ≠ 0 then pages pageSize handle.start handle.sizeInBytes else 0

variable [NeZero pageSize] {start size whole : Nat}

theorem mem_spanned_iff {handle : MetaAllocatorHandle} : page ∈ spanned pageSize handle ↔
    ∃ byte ∈ List.Ico handle.start (handle.start + handle.sizeInBytes), byte / pageSize = page := by
  have positive := Nat.pos_of_neZero pageSize
  unfold spanned pages
  split_ifs with none
  · simp only [mem_coe, mem, Nat.lt_succ_iff]
    constructor
    · rintro ⟨low, high⟩
      rcases low.eq_or_lt with rfl | low
      · exact ⟨handle.start, by omega, rfl⟩
      · rw [Nat.div_lt_iff_lt_mul positive] at low
        rw [Nat.le_div_iff_mul_le positive] at high
        exact ⟨page * pageSize, by omega, Nat.mul_div_cancel _ positive⟩
    · rintro ⟨byte, within, rfl⟩
      exact ⟨Nat.div_le_div_right within.1, Nat.div_le_div_right (by omega)⟩
  · simp [not_not.mp none]

theorem live_eq : state.live pageSize = (state.handles.bind (spanned pageSize)).count := by
  funext page
  unfold live
  induction state.handles using Multiset.induction with
  | empty => rfl
  | cons handle handles ih =>
    have once : (spanned pageSize handle).Nodup := by
      unfold spanned pages
      split_ifs
      · exact nodup ..
      · exact nodup_zero
    rw [Multiset.countP_cons, cons_bind, count_add, ih, count_eq_of_nodup once, add_comm]
    simp only [mem_spanned_iff]

theorem pages_eq (address : Nat) (some : 0 < size) : pages pageSize address size =
    List.Ico (address / pageSize) ((address + size + pageSize - 1) / pageSize) := by
  rw [show address + size + pageSize - 1 = address + size - 1 + pageSize by omega,
    Nat.add_div_right _ (Nat.pos_of_neZero pageSize)]
  rfl

theorem spanned_eq (aligned : size = 0 → pageSize ∣ start) : spanned pageSize ⟨start, size⟩ =
    List.Ico (start / pageSize) ((start + size + pageSize - 1) / pageSize) := by
  have positive := Nat.pos_of_neZero pageSize
  rcases Nat.eq_zero_or_pos size with rfl | some
  · obtain ⟨number, rfl⟩ := aligned rfl
    rw [Nat.add_zero, Nat.add_sub_assoc positive, Nat.mul_add_div positive, Nat.mul_div_cancel_left _ positive,
      Nat.div_eq_of_lt (Nat.sub_one_lt positive.ne'), Nat.add_zero, self_empty]
    rfl
  · rw [spanned, if_pos some.ne', pages_eq start some]

/-- What a shrunk handle no longer touches are the pages that lie in what it gives back. -/
theorem spanned_shrunk {first : Nat} (less : size < whole) (aligned : size = 0 → pageSize ∣ start)
    (isFirst : (start + size + pageSize - 1) / pageSize * pageSize = first) :
    spanned pageSize ⟨start, whole⟩ = spanned pageSize ⟨start, size⟩ +
      if first < start + size + (whole - size) then
        ↑(pages pageSize first (whole - size - (first - (start + size)))) else 0 := by
  have positive := Nat.pos_of_neZero pageSize
  have page_first : (start + size + pageSize - 1) / pageSize = first / pageSize := by
    rw [← isFirst, Nat.mul_div_cancel _ positive]
  have above : start + size ≤ first := by
    have := Nat.lt_div_mul_add positive (a := start + size + pageSize - 1)
    omega
  have freed : (if first < start + size + (whole - size) then
      (pages pageSize first (whole - size - (first - (start + size))) : Multiset Nat) else 0) =
      List.Ico (first / pageSize) ((start + whole + pageSize - 1) / pageSize) := by
    split_ifs with free
    · rw [pages_eq first (by omega), show first + (whole - size - (first - (start + size))) = start + whole by omega]
    · rw [eq_nil_of_le]
      · rfl
      · rw [Nat.div_le_iff_le_mul_add_pred positive, ← page_first, Nat.mul_comm]
        omega
  rw [freed, spanned_eq aligned, spanned_eq (by omega), page_first, coe_add, append_consecutive]
  · exact Nat.div_le_div_right (by omega)
  · rw [← page_first]
    exact Nat.div_le_div_right (by omega)

theorem Committed.withHandles {handles : Multiset MetaAllocatorHandle}
    (committed : state.Committed pageSize (handles.bind (spanned pageSize)).count) :
    Committed pageSize { state with handles := handles } (live pageSize { state with handles := handles }) := by
  rw [live_eq]
  exact ⟨committed.mapped, committed.bytes, committed.alternate⟩

theorem Committed.returned {condition : Prop} [Decidable condition] {address : Nat}
    {handles : Multiset MetaAllocatorHandle} (committed : state.Committed pageSize
      ((if condition then ↑(pages pageSize address size) else 0) + handles.bind (spanned pageSize)).count) :
    ∃ next, (do
      let after ← if condition then state.decrementPageOccupancy pageSize address size else some state
      some { after with handles := handles }) = some next ∧ next.Committed pageSize (next.live pageSize) := by
  split_ifs at committed ⊢
  · obtain ⟨after, made, done⟩ := committed.decrementAll
    exact ⟨_, bind_eq_some_iff.mpr ⟨after, made, rfl⟩, done.withHandles⟩
  · exact ⟨_, rfl, withHandles (by simpa using committed)⟩

variable [NeZero allocationGranule]

theorem roundUp_ne_zero {sizeInBytes : Nat} (some : sizeInBytes ≠ 0)
    (rounded : roundUp allocationGranule sizeInBytes = .some size) : size ≠ 0 := by
  unfold roundUp at rounded
  split_ifs at rounded
  cases rounded
  have positive := Nat.pos_of_neZero allocationGranule
  exact (Nat.mul_pos (Nat.div_pos (by omega) positive) positive).ne'

theorem step_committed {event : Event} (allowed : state.Allowed pageSize allocationGranule event)
    (committed : state.Committed pageSize (state.live pageSize)) :
    ∃ next, state.step pageSize allocationGranule event = some next ∧ next.Committed pageSize (next.live pageSize) := by
  have before := committed
  rw [live_eq] at before
  cases event with
  | allocate sizeInBytes space =>
    obtain ⟨size, rounded, _⟩ := allowed
    by_cases none : sizeInBytes = 0
    · exact ⟨state, if_pos none, committed⟩
    simp only [step, if_neg none, rounded, bind_eq_bind, bind_some]
    cases space with
    | none => exact ⟨state, rfl, committed⟩
    | some start =>
      refine ⟨_, rfl, Committed.withHandles ?_⟩
      rw [cons_bind, spanned, if_pos (roundUp_ne_zero none rounded)]
      exact before.incrementAll _
  | release handle =>
    rw [← cons_erase allowed, cons_bind] at before
    exact before.returned
  | shrink handle newSizeInBytes =>
    obtain ⟨member, size, fits, rounded, aligned⟩ := allowed
    simp only [step, rounded, bind_eq_bind, bind_some]
    rcases fits.eq_or_lt with same | less
    · exact ⟨state, if_pos same, committed⟩
    rw [← cons_erase member, cons_bind, spanned_shrunk less aligned rfl, add_comm (spanned _ _), add_assoc,
      ← cons_bind] at before
    rw [if_neg less.ne]
    exact before.returned

theorem page_commitment (events : List Event)
    (allowed : StepsMeet (step pageSize allocationGranule) (Allowed pageSize allocationGranule) initial events) :
    ∃ final, run (step pageSize allocationGranule) initial events = some final ∧
      final.Committed pageSize (final.live pageSize) := by
  have start : initial.Committed pageSize (live pageSize initial) := ⟨fun _ => rfl, rfl, fun _ => .none⟩
  exact run_returns (fun _ _ committed allowed => step_committed allowed committed) events start allowed

theorem page_commitment_shrunk : ∃ final, run (step 4096 32) initial
    [.allocate 8192 (some 4096), .shrink ⟨4096, 8192⟩ 100] = some final ∧ final.Committed 4096 (final.live 4096) :=
  page_commitment _ ⟨⟨8192, by decide, by simp⟩, fun next stepped => by
    cases stepped
    exact ⟨⟨by decide, 128, by decide, by decide, by decide⟩, fun _ _ => trivial⟩⟩

theorem empty_handle_keeps_page : ∃ final, run (step 4096 32) initial [.allocate 32 (some 4096),
    .allocate 32 (some 4128), .shrink ⟨4128, 32⟩ 0, .release ⟨4128, 0⟩, .release ⟨4096, 32⟩] = some final ∧
      final.handles = 0 ∧ final.bytesCommitted = 4096 ∧ final.pageOccupancyMap.lookup 1 = some 1 :=
  ⟨_, rfl, rfl, rfl, rfl⟩

end MetaAllocator

end Odyssey.Memory
