import Mathlib.Data.List.Perm.Subperm

namespace Odyssey.Containers

open List

variable {α : Type*}

theorem pair_sublist_of_mem {part whole : List α} {first second : α} (sublist : part.Sublist whole)
    (nodup : whole.Nodup) (ordered : [first, second].Sublist whole) (left : first ∈ part)
    (right : second ∈ part) : [first, second].Sublist part := by
  classical
  have kept := sublist.filter (· ∈ part)
  rw [filter_eq_self.mpr fun a member => decide_eq_true member] at kept
  have inside : whole.filter (· ∈ part) ⊆ part := fun a member => of_decide_eq_true (mem_filter.mp member).2
  rw [kept.eq_of_length_le (subperm_of_subset (nodup.filter _) inside).length_le]
  simpa [left, right] using ordered.filter (· ∈ part)

theorem mem_front_of_pair {front back : List α} {first second : α} (nodup : (front ++ second :: back).Nodup)
    (ordered : [first, second].Sublist (front ++ second :: back)) : first ∈ front := by
  rcases sublist_append_iff.mp ordered with ⟨left, right, whole, inFront, inBack⟩
  cases left with
  | nil =>
    cases whole
    have twice : second ∈ back := inBack.tail.subset mem_cons_self
    exact absurd twice (nodup_cons.mp (nodup.sublist (sublist_append_right _ _))).1
  | cons other left =>
    cases (cons.inj whole).1
    exact inFront.subset mem_cons_self

theorem first_split_unique {α : Type*} {property : α → Prop} {before other after rest : List α} {first second : α}
    (split : before ++ first :: after = other ++ second :: rest) (here : property first) (there : property second)
    (none : ∀ a ∈ before, ¬ property a) (noneThere : ∀ a ∈ other, ¬ property a) : before = other ∧ first = second := by
  rcases append_eq_append_iff.mp split with ⟨between, rfl, later⟩ | ⟨between, rfl, later⟩
  · cases between with
    | nil => exact ⟨(append_nil _).symm, (cons.inj later).1⟩
    | cons a between =>
      cases (cons.inj later).1
      exact absurd here (noneThere first (mem_append_right _ mem_cons_self))
  · cases between with
    | nil => exact ⟨append_nil _, (cons.inj later).1.symm⟩
    | cons a between =>
      cases (cons.inj later).1
      exact absurd there (none second (mem_append_right _ mem_cons_self))

theorem ite_mem_update {β : Type*} [DecidableEq α] (change : α → β → β) (values : α → β) {first : α}
    {rest : List α} (fresh : first ∉ rest) :
    (fun a => if a ∈ rest then change a (Function.update values first (change first (values first)) a)
      else Function.update values first (change first (values first)) a) =
    fun a => if a ∈ first :: rest then change a (values a) else values a := by
  funext a
  by_cases same : a = first
  · subst same
    simp [fresh]
  · simp [same]

end Odyssey.Containers
