import Odyssey.Containers.OrderedSet

namespace Odyssey.Containers

open Option

/-- An iterator of an ordered set holds a node: that of its element, or, in a reverse iterator, that
    of the element after it, with `none` for the end. Erasing the node leaves it dangling. -/
inductive SetIterator (K : Type*) where
  | forward (key : K)
  | reverse (base : Option K)
  | dangling

namespace SetIterator

variable {K : Type*} [LinearOrder K]

def erase (iterator : SetIterator K) (key : K) : SetIterator K :=
  match iterator with
  | .forward held => if held = key then .dangling else .forward held
  | .reverse base => if base = some key then .dangling else .reverse base
  | .dangling => .dangling

def get (set : Finset K) : SetIterator K → Option K
  | .forward key => some key
  | .reverse none => greatest set
  | .reverse (some base) => highestBelow set base
  | .dangling => none

/-- The increment. There is none of a dangling iterator; past the last element it is absent. -/
def next (set : Finset K) : SetIterator K → Option (Option (SetIterator K))
  | .forward key => some ((upperBound set key).map .forward)
  | .reverse base => (get set (.reverse base)).map (fun current =>
      (highestBelow set current).map (fun _ => .reverse (some current)))
  | .dangling => none

def reverseAt (set : Finset K) (key : K) : SetIterator K := .reverse (upperBound set key)

variable {set : Finset K} {key : K}

theorem get_reverseAt (member : key ∈ set) : (reverseAt set key).get set = some key := by
  unfold reverseAt
  cases above : upperBound set key with
  | none => exact greatest_eq_some.mpr ⟨member, upperBound_eq_none.mp above⟩
  | some base =>
    rcases upperBound_eq_some.mp above with ⟨_, beyond, lowest⟩
    apply highestBelow_eq_some.mpr
    refine ⟨member, beyond, ?_⟩
    intro other present below
    by_contra higher
    exact absurd below (not_lt.mpr (lowest other present (not_le.mp higher)))

theorem upperBound_highestBelow {lower : K} (member : key ∈ set)
    (below : highestBelow set key = some lower) : upperBound set lower = some key := by
  rcases highestBelow_eq_some.mp below with ⟨_, before, highest⟩
  apply upperBound_eq_some.mpr
  refine ⟨member, before, ?_⟩
  intro other present beyond
  by_contra lower
  exact absurd beyond (not_lt.mpr (highest other present (not_le.mp lower)))

theorem next_reverseAt (member : key ∈ set) :
    (reverseAt set key).next set = some ((highestBelow set key).map (reverseAt set)) := by
  have here := get_reverseAt member
  unfold reverseAt at here ⊢
  rw [next, here, map_some]
  cases below : highestBelow set key with
  | none => rfl
  | some lower => rw [map_some, map_some, upperBound_highestBelow member below]

theorem reverseAt_greatest (last : greatest set = some key) : reverseAt set key = .reverse none := by
  rcases greatest_eq_some.mp last with ⟨_, highest⟩
  rw [reverseAt, upperBound_eq_none.mpr highest]

theorem reverseAt_highestAtMost {found : K} (atMost : highestAtMost set key = some found) :
    reverseAt set found = .reverse (upperBound set key) := by
  rcases highestAtMost_eq_some.mp atMost with ⟨_, below, highest⟩
  have same : upperBound set found = upperBound set key := by
    cases above : upperBound set key with
    | none =>
      apply upperBound_eq_none.mpr
      intro other member
      exact highest other member (upperBound_eq_none.mp above other member)
    | some next =>
      rcases upperBound_eq_some.mp above with ⟨member, beyond, lowest⟩
      apply upperBound_eq_some.mpr
      refine ⟨member, lt_of_le_of_lt below beyond, ?_⟩
      intro other present later
      apply lowest other present
      by_contra within
      exact absurd later (not_lt.mpr (highest other present (not_lt.mp within)))
  rw [reverseAt, same]

end SetIterator

end Odyssey.Containers
