import Mathlib.Data.Finset.Sort

namespace Odyssey.Containers

open Finset

variable {K : Type*} [LinearOrder K] (set : Finset K)

def least : Option K :=
  if nonempty : set.Nonempty then some (set.min' nonempty) else none

def greatest : Option K :=
  if nonempty : set.Nonempty then some (set.max' nonempty) else none

def lowerBound (key : K) : Option K := least (set.filter (key ≤ ·))

def upperBound (key : K) : Option K := least (set.filter (key < ·))

def highestAtMost (key : K) : Option K := greatest (set.filter (· ≤ key))

def highestBelow (key : K) : Option K := greatest (set.filter (· < key))

variable {set : Finset K} {key found : K}

theorem least_eq_some : least set = some key ↔ key ∈ set ∧ ∀ other ∈ set, key ≤ other := by
  unfold least
  split_ifs with nonempty
  · rw [Option.some.injEq, min'_eq_iff]
  · rw [not_nonempty_iff_eq_empty.mp nonempty]
    simp

theorem greatest_eq_some : greatest set = some key ↔ key ∈ set ∧ ∀ other ∈ set, other ≤ key :=
  least_eq_some (K := Kᵒᵈ)

theorem least_eq_none : least set = none ↔ set = ∅ := by
  unfold least
  split_ifs with nonempty
  · simp [nonempty.ne_empty]
  · simp [not_nonempty_iff_eq_empty.mp nonempty]

theorem greatest_eq_none : greatest set = none ↔ set = ∅ := least_eq_none (K := Kᵒᵈ)

theorem sort_least (lowest : least set = some key) : set.sort = key :: (set.filter (key < ·)).sort := by
  obtain ⟨member, lowest⟩ := least_eq_some.mp lowest
  rw [← sort_insert _ (fun other above => (mem_filter.mp above).2.le) (by simp)]
  congr 1
  ext other
  rw [mem_insert, mem_filter]
  constructor
  · intro present
    exact (lowest other present).eq_or_lt.imp symm (⟨present, ·⟩)
  · rintro (rfl | above)
    exacts [member, above.1]

theorem least_eq_head (set : Finset K) : least set = set.sort.head? := by
  cases lowest : least set with
  | none => simp [least_eq_none.mp lowest]
  | some first => rw [sort_least lowest, List.head?_cons]

theorem filter_least {p : K → Bool} (closed : ∀ first ∈ set, ∀ other, first ≤ other → p other → p first) :
    least (set.filter (p ·)) = (least set).filter p := by
  cases lowest : least set with
  | none =>
    rw [least_eq_none.mp lowest]
    rfl
  | some first =>
    obtain ⟨member, lowest⟩ := least_eq_some.mp lowest
    rw [Option.filter_some]
    split_ifs with holds
    · exact least_eq_some.mpr ⟨mem_filter.mpr ⟨member, holds⟩,
        fun other present => lowest other (mem_filter.mp present).1⟩
    · rw [least_eq_none, filter_eq_empty_iff]
      exact fun other present passes => holds (closed first member other (lowest other present) passes)

theorem filter_greatest {p : K → Bool} (closed : ∀ last ∈ set, ∀ other, other ≤ last → p other → p last) :
    greatest (set.filter (p ·)) = (greatest set).filter p :=
  filter_least (K := Kᵒᵈ) closed

theorem lowerBound_eq_some : lowerBound set key = some found ↔
      found ∈ set ∧ key ≤ found ∧ ∀ other ∈ set, key ≤ other → found ≤ other := by
  simp only [lowerBound, least_eq_some, mem_filter, and_imp, and_assoc]

theorem lowerBound_eq_none : lowerBound set key = none ↔ ∀ other ∈ set, other < key := by
  simp only [lowerBound, least_eq_none, filter_eq_empty_iff, not_le]

theorem upperBound_eq_some : upperBound set key = some found ↔
      found ∈ set ∧ key < found ∧ ∀ other ∈ set, key < other → found ≤ other := by
  simp only [upperBound, least_eq_some, mem_filter, and_imp, and_assoc]

theorem upperBound_eq_none : upperBound set key = none ↔ ∀ other ∈ set, other ≤ key := by
  simp only [upperBound, least_eq_none, filter_eq_empty_iff, not_lt]

theorem highestAtMost_eq_some : highestAtMost set key = some found ↔
      found ∈ set ∧ found ≤ key ∧ ∀ other ∈ set, other ≤ key → other ≤ found :=
  lowerBound_eq_some (K := Kᵒᵈ)

theorem highestAtMost_eq_none : highestAtMost set key = none ↔ ∀ other ∈ set, key < other :=
  lowerBound_eq_none (K := Kᵒᵈ)

theorem highestBelow_eq_some : highestBelow set key = some found ↔
      found ∈ set ∧ found < key ∧ ∀ other ∈ set, other < key → other ≤ found :=
  upperBound_eq_some (K := Kᵒᵈ)

theorem highestBelow_eq_none : highestBelow set key = none ↔ ∀ other ∈ set, key ≤ other :=
  upperBound_eq_none (K := Kᵒᵈ)

theorem lowerBound_eq_ite (set : Finset K) (key : K) :
    lowerBound set key = if key ∈ set then some key else upperBound set key := by
  split
  · rename_i member
    exact lowerBound_eq_some.mpr ⟨member, le_refl key, fun _ _ above => above⟩
  · rename_i absent
    have strict : set.filter (key ≤ ·) = set.filter (key < ·) := by
      apply filter_congr
      intro other member
      constructor
      · intro above
        exact lt_of_le_of_ne above (fun same => absent (same ▸ member))
      · exact le_of_lt
    rw [lowerBound, upperBound, strict]

theorem highestAtMost_eq_ite (set : Finset K) (key : K) :
    highestAtMost set key = if key ∈ set then some key else highestBelow set key :=
  lowerBound_eq_ite (K := Kᵒᵈ) set key

end Odyssey.Containers
