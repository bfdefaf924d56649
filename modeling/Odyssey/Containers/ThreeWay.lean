import Mathlib.Algebra.Order.Group.Int
import Mathlib.Data.List.Lex

namespace Odyssey.Containers

open List

variable {α β : Type*}

/-- The comparison of two lists by their first difference; a list comes after its proper beginnings. -/
def compareLists (compare : α → α → Int) : List α → List α → Int
  | [], [] => 0
  | [], _ :: _ => -1
  | _ :: _, [] => 1
  | x :: xs, y :: ys => if compare x y ≠ 0 then compare x y else compareLists compare xs ys

section ThreeWay

variable [LinearOrder β]

def threeWay (x y : β) : Int := if x < y then -1 else if y < x then 1 else 0

theorem threeWay_self (x : β) : threeWay x x = 0 := by simp [threeWay]

theorem threeWay_swap (x y : β) : threeWay y x = -threeWay x y := by
  rcases lt_trichotomy x y with less | rfl | less
  · simp [threeWay, less, less.not_gt]
  · rw [threeWay_self, neg_zero]
  · simp [threeWay, less, less.not_gt]

theorem threeWay_nonpos {x y : β} : threeWay x y ≤ 0 ↔ x ≤ y := by
  unfold threeWay
  split_ifs with less more
  · simp [less.le]
  · simp [more.not_ge]
  · simp [not_lt.mp more]

theorem threeWay_eq_zero {x y : β} : threeWay x y = 0 ↔ x = y := by
  unfold threeWay
  split_ifs with less more
  · simp [less.ne]
  · simp [more.ne']
  · simp [le_antisymm (not_lt.mp more) (not_lt.mp less)]

theorem threeWay_cons (x y : β) (xs ys : List β) :
    threeWay (x :: xs) (y :: ys) = if threeWay x y ≠ 0 then threeWay x y else threeWay xs ys := by
  rcases lt_trichotomy x y with less | rfl | less
  · simp [threeWay, cons_lt_cons_iff, less]
  · unfold threeWay
    split_ifs <;> simp_all
  · simp [threeWay, cons_lt_cons_iff, less, less.not_gt, less.ne']

end ThreeWay

theorem threeWay_zero_one : threeWay (0 : Int) 1 = -1 := by decide

theorem threeWay_one_zero : threeWay (1 : Int) 0 = 1 := by decide

variable {compare : α → α → Int} {code : α → List Int} {x y : α}

/-- A comparison goes by the codes of its arguments, whatever follows them. -/
def Encodes (compare : α → α → Int) (code : α → List Int) (x y : α) : Prop :=
  ∀ rest others, threeWay (code x ++ rest) (code y ++ others) =
    if compare x y ≠ 0 then compare x y else threeWay rest others

theorem Encodes.compare_eq (encodes : Encodes compare code x y) : compare x y = threeWay (code x) (code y) := by
  have whole := encodes [] []
  rw [append_nil, append_nil] at whole
  rw [whole]
  split_ifs with different
  · rfl
  · exact not_not.mp different

theorem Encodes.tagged (encodes : Encodes compare code x y) (tag : Int) :
    Encodes compare (fun x => tag :: code x) x y := by
  intro rest others
  rw [cons_append, cons_append, threeWay_cons, threeWay_self]
  exact encodes rest others

theorem encodes_rank (rank : α → Int) (ranked : compare x y = threeWay (rank x) (rank y)) :
    Encodes compare (fun x => [rank x]) x y := by
  intro rest others
  rw [ranked]
  exact threeWay_cons ..

/-- Before each code of a list there is a mark, and another one at the end. -/
def listCode (code : α → List Int) : List α → List Int
  | [] => [0]
  | x :: xs => 1 :: (code x ++ listCode code xs)

theorem forall_pairs_cons {P : α → β → Prop} {x : α} {y : β} {xs : List α} {ys : List β}
    (each : ∀ v ∈ x :: xs, ∀ w ∈ y :: ys, P v w) : P x y ∧ ∀ v ∈ xs, ∀ w ∈ ys, P v w :=
  ⟨each x mem_cons_self y mem_cons_self,
    fun v memberV w memberW => each v (mem_cons_of_mem x memberV) w (mem_cons_of_mem y memberW)⟩

theorem encodes_lists (xs ys : List α) (each : ∀ x ∈ xs, ∀ y ∈ ys, Encodes compare code x y) :
    Encodes (compareLists compare) (listCode code) xs ys := by
  induction xs generalizing ys with
  | nil =>
    intro rest others
    cases ys <;> simp [listCode, compareLists, threeWay_cons, threeWay_self, threeWay_zero_one]
  | cons x xs ih =>
    intro rest others
    cases ys with
    | nil => simp [listCode, compareLists, threeWay_cons, threeWay_one_zero]
    | cons y ys =>
      obtain ⟨head, tails⟩ := forall_pairs_cons each
      have tail := ih ys tails
      simp only [listCode, cons_append, append_assoc, threeWay_cons, threeWay_self, compareLists]
      rw [head, tail]
      by_cases equal : compare x y = 0 <;> simp [equal]

theorem compareLists_eq_zero {canonical : α → β} (xs ys : List α)
    (each : ∀ x ∈ xs, ∀ y ∈ ys, compare x y = 0 ↔ canonical x = canonical y) :
    compareLists compare xs ys = 0 ↔ xs.map canonical = ys.map canonical := by
  induction xs generalizing ys with
  | nil => cases ys <;> simp [compareLists]
  | cons x xs ih =>
    cases ys with
    | nil => simp [compareLists]
    | cons y ys =>
      obtain ⟨head, tails⟩ := forall_pairs_cons each
      have tail := ih ys tails
      simp only [compareLists, map_cons, cons.injEq, ← head, ← tail]
      by_cases equal : compare x y = 0
      · simp [equal]
      · simp [equal]

end Odyssey.Containers
