import Mathlib.Data.Finset.Card

namespace Odyssey.Containers

open Function Finset Nat

section Walk

variable {ι : Type*} {stop : ι → Bool} {next : ι → ι} {fuel : Nat} {place found : ι}

def firstStop (stop : ι → Bool) (next : ι → ι) : Nat → ι → Option ι
  | 0, _ => none
  | fuel + 1, place => if stop place then some place else firstStop stop next fuel (next place)

theorem firstStop_found (done : firstStop stop next fuel place = some found) :
    ∃ n < fuel, next^[n] place = found ∧ stop found = true ∧ ∀ m < n, stop (next^[m] place) = false := by
  induction fuel generalizing place with
  | zero => cases done
  | succ fuel ih =>
    unfold firstStop at done
    by_cases stops : stop place = true
    · rw [if_pos stops] at done
      obtain rfl := Option.some.inj done
      exact ⟨0, succ_pos fuel, rfl, stops, fun m impossible => absurd impossible m.not_lt_zero⟩
    · rw [if_neg stops] at done
      obtain ⟨n, within, reached, last, passed⟩ := ih done
      refine ⟨n + 1, succ_lt_succ within, reached, last, ?_⟩
      intro m before
      cases m with
      | zero => exact Bool.eq_false_iff.mpr stops
      | succ m => exact passed m (lt_of_succ_lt_succ before)

theorem firstStop_returns {n : Nat} (within : n < fuel) (stops : stop (next^[n] place) = true) :
    ∃ found, firstStop stop next fuel place = some found := by
  induction fuel generalizing place n with
  | zero => omega
  | succ fuel ih =>
    unfold firstStop
    by_cases here : stop place = true
    · exact ⟨place, if_pos here⟩
    · rw [if_neg here]
      cases n with
      | zero => exact absurd stops here
      | succ n => exact ih (lt_of_succ_lt_succ within) stops

end Walk

/-- A place of an open-addressing table. A removed entry leaves a mark, so that the probes that went
    past it still do. -/
inductive Slot (β : Type*) where
  | empty
  | deleted
  | full (entry : β)
  deriving DecidableEq, Repr

theorem Slot.full_ne_empty {β : Type*} (entry : β) : Slot.full entry ≠ .empty := nofun

theorem Slot.deleted_ne_empty {β : Type*} : (Slot.deleted : Slot β) ≠ .empty := nofun

variable {β : Type*} {slots : Nat → Slot β} {capacity start index : Nat} {usable : β → Bool}

def Slot.stops (usable : β → Bool) : Slot β → Bool
  | .empty => true
  | .deleted => false
  | .full entry => usable entry

def OnPath (slots : Nat → Slot β) (capacity start index : Nat) : Prop :=
  ∃ n < capacity, (start + n) % capacity = index ∧
    ∀ m < n, slots ((start + m) % capacity) ≠ .empty

def ProbeEnds (slots : Nat → Slot β) (capacity : Nat) (usable : β → Bool) (start index : Nat) : Prop :=
  ∃ n < capacity, (start + n) % capacity = index ∧ (slots index).stops usable = true ∧
    ∀ m < n, (slots ((start + m) % capacity)).stops usable = false

theorem OnPath.lt (path : OnPath slots capacity start index) : index < capacity := by
  obtain ⟨n, within, rfl, _⟩ := path
  exact mod_lt _ (by omega)

theorem OnPath.update (path : OnPath slots capacity start index) (other : Nat) {slot : Slot β}
    (filled : slot ≠ .empty) : OnPath (Function.update slots other slot) capacity start index := by
  obtain ⟨n, within, reached, passed⟩ := path
  refine ⟨n, within, reached, ?_⟩
  intro m before
  by_cases same : (start + m) % capacity = other
  · rw [same, update_self]
    exact filled
  · rw [update_of_ne same]
    exact passed m before

theorem ProbeEnds.onPath (ends : ProbeEnds slots capacity usable start index) : OnPath slots capacity start index := by
  obtain ⟨n, within, reached, _, passed⟩ := ends
  refine ⟨n, within, reached, ?_⟩
  intro m before empty
  have := passed m before
  rw [empty] at this
  cases this

theorem ProbeEnds.ne_empty {other : Nat} {entry : β}
    (ends : ProbeEnds slots capacity usable start index) (path : OnPath slots capacity start other)
    (stored : slots other = .full entry) (suits : usable entry = true) : slots index ≠ .empty := by
  obtain ⟨n, _, reached, _, passed⟩ := ends
  obtain ⟨k, _, atOther, occupied⟩ := path
  have noLater : n ≤ k := by
    by_contra later
    have := passed k (by omega)
    rw [atOther, stored] at this
    exact absurd suits (Bool.eq_false_iff.mp this)
  rcases lt_or_eq_of_le noLater with before | same
  · exact reached ▸ occupied n before
  · rw [← reached, same, atOther, stored]
    exact Slot.full_ne_empty entry

theorem ProbeEnds.cases (ends : ProbeEnds slots capacity usable start index) :
    (∃ entry, slots index = .full entry ∧ usable entry = true) ∨ slots index = .empty := by
  obtain ⟨_, _, _, stops, _⟩ := ends
  cases slot : slots index with
  | empty => exact Or.inr rfl
  | deleted =>
    rw [slot] at stops
    cases stops
  | full entry =>
    rw [slot] at stops
    exact Or.inl ⟨entry, rfl, stops⟩

theorem exists_offset (start : Nat) (within : index < capacity) : ∃ n < capacity, (start + n) % capacity = index := by
  have small := mod_lt start (by omega : 0 < capacity)
  by_cases before : start % capacity ≤ index
  · refine ⟨index - start % capacity, by omega, ?_⟩
    rw [← mod_add_mod, Nat.add_sub_cancel' before, mod_eq_of_lt within]
  · refine ⟨index + capacity - start % capacity, by omega, ?_⟩
    rw [← mod_add_mod, Nat.add_sub_cancel' (by omega), add_mod_right, mod_eq_of_lt within]

section Search

variable {ι : Type*} {stop : ι → Bool} {next : ι → ι} {first found : ι} {place : ι → Nat}
  (walks : ∀ n, place (next^[n] first) = (start + n) % capacity)
  (stops : ∀ here, stop here = (slots (place here)).stops usable)
include walks stops

theorem ProbeEnds.of_firstStop (done : firstStop stop next capacity first = some found) :
    ProbeEnds slots capacity usable start (place found) := by
  obtain ⟨n, within, rfl, last, passed⟩ := firstStop_found done
  refine ⟨n, within, (walks n).symm, stops _ ▸ last, ?_⟩
  intro m before
  rw [← walks, ← stops]
  exact passed m before

theorem firstStop_of_empty (within : index < capacity) (empty : slots index = .empty) :
    ∃ found, firstStop stop next capacity first = some found := by
  obtain ⟨n, inside, reached⟩ := exists_offset start within
  refine firstStop_returns inside ?_
  rw [stops, walks, reached, empty]
  rfl

end Search

theorem distinct_fill {κ : Type*} {keys filled : Nat → Option κ} {same : κ → κ → Prop} {new : Nat} {key : κ}
    (distinct : ∀ first second one two, keys first = some one → keys second = some two → same one two →
      first = second) (fill : ∀ place, filled place = if place = new then some key else keys place)
    (fresh : ∀ place other, keys place = some other → ¬same key other ∧ ¬same other key)
    (first second : Nat) (one two : κ) (atFirst : filled first = some one) (atSecond : filled second = some two)
    (equal : same one two) : first = second := by
  grind

def occupied [DecidableEq β] (slots : Nat → Slot β) (capacity : Nat) : Nat :=
  ((Finset.range capacity).filter (slots · ≠ .empty)).card

section Occupied

variable [DecidableEq β]

theorem occupied_fresh (capacity : Nat) : occupied (fun _ => (.empty : Slot β)) capacity = 0 := by
  simp [occupied]

theorem occupied_fill (within : index < capacity) (free : slots index = .empty) {slot : Slot β}
    (filled : slot ≠ .empty) : occupied (Function.update slots index slot) capacity = occupied slots capacity + 1 := by
  have grown : (range capacity).filter (fun i => update slots index slot i ≠ .empty) =
      insert index ((range capacity).filter (fun i => slots i ≠ .empty)) := by
    ext i
    by_cases same : i = index
    · subst same
      simp [within, filled]
    · simp [same]
  rw [occupied, grown, card_insert_of_notMem (by simp [free])]
  rfl

theorem occupied_replace (taken : slots index ≠ .empty) {slot : Slot β} (filled : slot ≠ .empty) :
    occupied (Function.update slots index slot) capacity = occupied slots capacity := by
  unfold occupied
  congr 1
  ext i
  by_cases same : i = index
  · subst same
    simp [taken, filled]
  · simp [same]

theorem exists_empty (room : occupied slots capacity < capacity) : ∃ index < capacity, slots index = .empty := by
  by_contra none
  have all : (range capacity).filter (slots · ≠ .empty) = range capacity := by
    refine filter_true_of_mem ?_
    intro index within empty
    exact none ⟨index, mem_range.mp within, empty⟩
  rw [occupied, all, card_range] at room
  exact absurd room (lt_irrefl _)

end Occupied

structure Stores (slots : Nat → Slot β) (capacity : Nat) (home : β → Nat) (member : β → Prop) : Prop where
  only : ∀ index < capacity, ∀ entry, slots index = .full entry → member entry
  placed : ∀ entry, member entry → ∃ index, OnPath slots capacity (home entry) index ∧
    slots index = .full entry
  once : ∀ first < capacity, ∀ second < capacity, ∀ entry, slots first = .full entry →
    slots second = .full entry → first = second

variable {home : β → Nat} {member : β → Prop} {entry : β}

theorem Stores.of_none (none : ∀ index < capacity, ∀ entry, slots index ≠ .full entry) :
    Stores slots capacity home (fun _ => False) :=
  ⟨none, fun _ impossible => impossible.elim,
    fun first within _ _ entry stored => absurd stored (none first within entry)⟩

theorem stored_fill {place : Nat} {other : β} : Function.update slots index (.full entry) place = .full other ↔
    place = index ∧ other = entry ∨ place ≠ index ∧ slots place = .full other := by
  by_cases same : place = index <;> simp [same, eq_comm]

theorem stored_erase {place : Nat} : Function.update slots index .deleted place = .full entry ↔
    place ≠ index ∧ slots place = .full entry := by
  by_cases same : place = index <;> simp [same]

variable (stores : Stores slots capacity home member)
include stores

theorem Stores.congr {home' : β → Nat} {member' : β → Prop} (same : ∀ entry, member' entry ↔ member entry)
    (homes : ∀ entry, member entry → home' entry = home entry) : Stores slots capacity home' member' where
  only := fun index within entry stored => (same entry).mpr (stores.only index within entry stored)
  placed := by
    intro entry belongs
    have belongs := (same entry).mp belongs
    rw [homes entry belongs]
    exact stores.placed entry belongs
  once := stores.once

theorem Stores.fill (free : slots index = .empty)
    (path : OnPath slots capacity (home entry) index) (new : ¬member entry) :
    Stores (Function.update slots index (.full entry)) capacity home (fun other => member other ∨ other = entry) where
  only := by
    intro place within other stored
    obtain ⟨-, rfl⟩ | ⟨-, kept⟩ := stored_fill.mp stored
    · exact Or.inr rfl
    · exact Or.inl (stores.only place within other kept)
  placed := by
    rintro other (belongs | rfl)
    · obtain ⟨place, reached, stored⟩ := stores.placed other belongs
      refine ⟨place, reached.update index (Slot.full_ne_empty _), stored_fill.mpr (Or.inr ⟨?_, stored⟩)⟩
      rintro rfl
      rw [free] at stored
      cases stored
    · exact ⟨index, path.update index (Slot.full_ne_empty _), update_self ..⟩
  once := by
    intro first firstWithin second secondWithin other atFirst atSecond
    obtain ⟨isFirst, rfl⟩ | ⟨-, atFirst⟩ := stored_fill.mp atFirst <;>
      obtain ⟨isSecond, same⟩ | ⟨-, atSecond⟩ := stored_fill.mp atSecond
    · exact isFirst.trans isSecond.symm
    · exact absurd (stores.only second secondWithin _ atSecond) new
    · exact absurd (same ▸ stores.only first firstWithin other atFirst) new
    · exact stores.once first firstWithin second secondWithin other atFirst atSecond

theorem Stores.erase (within : index < capacity) (stored : slots index = .full entry) :
    Stores (Function.update slots index .deleted) capacity home (fun other => member other ∧ other ≠ entry) where
  only := by
    intro place inside other atPlace
    obtain ⟨elsewhere, atPlace⟩ := stored_erase.mp atPlace
    refine ⟨stores.only place inside other atPlace, ?_⟩
    rintro rfl
    exact elsewhere (stores.once place inside index within other atPlace stored)
  placed := by
    rintro other ⟨belongs, apart⟩
    obtain ⟨place, reached, atPlace⟩ := stores.placed other belongs
    refine ⟨place, reached.update index Slot.deleted_ne_empty, stored_erase.mpr ⟨?_, atPlace⟩⟩
    rintro rfl
    rw [stored, Slot.full.injEq] at atPlace
    exact apart atPlace.symm
  once := fun first firstWithin second secondWithin other atFirst atSecond =>
    stores.once first firstWithin second secondWithin other (stored_erase.mp atFirst).2 (stored_erase.mp atSecond).2

theorem Stores.absent (homes : ∀ entry, usable entry = true → member entry ∧ home entry = start)
    (ends : ProbeEnds slots capacity usable start index) (empty : slots index = .empty) (entry : β) :
    usable entry = false := by
  rw [Bool.eq_false_iff]
  intro suits
  obtain ⟨belongs, rfl⟩ := homes entry suits
  obtain ⟨place, reached, stored⟩ := stores.placed entry belongs
  exact ends.ne_empty reached stored suits empty

end Odyssey.Containers
