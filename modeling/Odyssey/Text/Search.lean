import Mathlib.Data.List.Infix

namespace Odyssey.Text

variable {α : Type*} [DecidableEq α] {pattern text before after : List α} {index : Nat}

/-- The place of the first occurrence of a pattern; the empty pattern occurs at the start. -/
def find (pattern : List α) : List α → Option Nat
  | [] => if pattern = [] then some 0 else none
  | first :: rest => if pattern <+: first :: rest then some 0 else (find pattern rest).map (· + 1)

theorem find_zero (starts : pattern <+: text) : find pattern text = some 0 := by
  cases text with
  | nil =>
    rw [List.prefix_nil.mp starts]
    rfl
  | cons first rest => rw [find, if_pos starts]

theorem find_le (occurs : text = before ++ pattern ++ after) :
    ∃ index ≤ before.length, find pattern text = some index := by
  induction before generalizing text with
  | nil => exact ⟨0, le_refl 0, find_zero ⟨after, by rw [occurs]; rfl⟩⟩
  | cons first before ih =>
    obtain ⟨index, bound, found⟩ := ih rfl
    rw [occurs]
    by_cases starts : pattern <+: first :: (before ++ pattern ++ after)
    · exact ⟨0, Nat.zero_le _, find_zero starts⟩
    · refine ⟨index + 1, Nat.succ_le_succ bound, ?_⟩
      show find pattern (first :: (before ++ pattern ++ after)) = _
      rw [find, if_neg starts, found, Option.map_some]

theorem find_some (found : find pattern text = some index) :
    ∃ before after, text = before ++ pattern ++ after ∧ before.length = index := by
  induction text generalizing index with
  | nil =>
    rw [find] at found
    split at found
    · rename_i empty
      cases found
      exact ⟨[], [], by rw [empty]; rfl, rfl⟩
    · cases found
  | cons first rest ih =>
    rw [find] at found
    split_ifs at found with starts
    · cases found
      obtain ⟨after, split⟩ := starts
      exact ⟨[], after, split.symm, rfl⟩
    · obtain ⟨earlier, inRest, rfl⟩ := Option.map_eq_some_iff.mp found
      obtain ⟨before, after, split, length⟩ := ih inRest
      exact ⟨first :: before, after, by rw [split]; rfl, by rw [List.length_cons, length]⟩

end Odyssey.Text
