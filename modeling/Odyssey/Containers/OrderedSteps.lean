import Odyssey.Containers.OrderedSet

namespace Odyssey.Containers

open Option Finset

variable {K : Type*} [LinearOrder K]

def advance (set : Finset K) : Nat → K → Option K
  | 0, key => some key
  | count + 1, key => (upperBound set key).bind (advance set count)

def retreat (set : Finset K) : Nat → K → Option K
  | 0, key => some key
  | count + 1, key => (highestBelow set key).bind (retreat set count)

variable {set : Finset K} {key found current : K}

theorem upperBound_filter {p : K → Bool} (convex : ∀ next other, key < next → next ≤ other → p other → p next) :
    upperBound (set.filter (p ·)) key = (upperBound set key).filter p := by
  rw [upperBound, filter_comm]
  exact filter_least fun first member other => convex first other (mem_filter.mp member).2

theorem highestBelow_filter {p : K → Bool} (convex : ∀ next other, next < key → other ≤ next → p other → p next) :
    highestBelow (set.filter (p ·)) key = (highestBelow set key).filter p :=
  upperBound_filter (K := Kᵒᵈ) convex

theorem filter_between_upperBound {next : K} (first : upperBound set key = some next) (below : next < found) :
    set.filter (fun other => key < other ∧ other < found) =
      insert next (set.filter (fun other => next < other ∧ other < found)) := by
  rcases upperBound_eq_some.mp first with ⟨member, above, lowest⟩
  ext other
  simp only [mem_filter, mem_insert]
  constructor
  · intro inside
    rcases inside with ⟨present, beyond, before⟩
    rcases eq_or_lt_of_le (lowest other present beyond) with same | later
    · exact Or.inl same.symm
    · exact Or.inr ⟨present, later, before⟩
  · intro inside
    rcases inside with rfl | ⟨present, later, before⟩
    · exact ⟨member, above, below⟩
    · exact ⟨present, lt_trans above later, before⟩

theorem advance_eq_some {count : Nat} : advance set (count + 1) key = some found ↔ found ∈ set ∧ key < found ∧
        (set.filter (fun other => key < other ∧ other < found)).card = count := by
  induction count generalizing key with
  | zero =>
    have single : advance set 1 key = upperBound set key := by
      simp only [advance]
      cases upperBound set key <;> rfl
    rw [single, upperBound_eq_some, card_eq_zero, filter_eq_empty_iff]
    constructor
    · intro first
      rcases first with ⟨member, above, lowest⟩
      exact ⟨member, above, fun other present between =>
        absurd between.2 (not_lt.mpr (lowest other present between.1))⟩
    · intro first
      rcases first with ⟨member, above, none⟩
      exact ⟨member, above, fun other present beyond =>
        not_lt.mp (fun before => none present ⟨beyond, before⟩)⟩
  | succ count ih =>
    have step : advance set (count + 1 + 1) key = (upperBound set key).bind (advance set (count + 1)) := rfl
    rw [step, bind_eq_some_iff]
    constructor
    · intro reached
      rcases reached with ⟨next, first, rest⟩
      rcases ih.mp rest with ⟨member, above, between⟩
      have start := (upperBound_eq_some.mp first).2.1
      refine ⟨member, lt_trans start above, ?_⟩
      rw [filter_between_upperBound first above, card_insert_of_notMem, between]
      simp
    · intro reached
      rcases reached with ⟨member, above, between⟩
      cases first : upperBound set key with
      | none => exact absurd above (not_lt.mpr (upperBound_eq_none.mp first found member))
      | some next =>
        rcases upperBound_eq_some.mp first with ⟨_, _, lowest⟩
        have nonempty : (set.filter (fun other => key < other ∧ other < found)).Nonempty := by
          apply card_pos.mp
          omega
        rcases nonempty with ⟨other, inside⟩
        rcases mem_filter.mp inside with ⟨present, beyond, before⟩
        have below : next < found := lt_of_le_of_lt (lowest other present beyond) before
        refine ⟨next, rfl, ih.mpr ⟨member, below, ?_⟩⟩
        rw [filter_between_upperBound first below, card_insert_of_notMem (by simp)] at between
        omega

theorem retreat_eq_advance (set : Finset K) (count : Nat) (key : K) :
    retreat set count key = advance (K := Kᵒᵈ) set count key := by
  induction count generalizing key with
  | zero => rfl
  | succ count ih => exact congrArg (highestBelow set key).bind (funext ih)

theorem advance_of_lowerBound (count : Nat) (found : lowerBound set key = some current) :
    advance set (count + 1) key = advance set (if key < current then count else count + 1) current := by
  rcases lowerBound_eq_some.mp found with ⟨member, above, lowest⟩
  rcases eq_or_lt_of_le above with same | beyond
  · rw [same, if_neg (lt_irrefl current)]
  · have first : upperBound set key = some current :=
      upperBound_eq_some.mpr ⟨member, beyond, fun other present later => lowest other present (le_of_lt later)⟩
    rw [if_pos beyond, advance, first, bind_some]

theorem lowerBound_of_between {target : K} (found : lowerBound set key = some current)
    (above : key ≤ target) (below : target ≤ current) : lowerBound set target = some current := by
  rcases lowerBound_eq_some.mp found with ⟨member, _, lowest⟩
  exact lowerBound_eq_some.mpr ⟨member, below, fun other present later =>
    lowest other present (le_trans above later)⟩

end Odyssey.Containers
