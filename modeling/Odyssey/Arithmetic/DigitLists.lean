import Mathlib.Data.List.DropRight
import Mathlib.Data.Nat.Digits.Lemmas

namespace Odyssey.Arithmetic

open List BitVec Nat

variable {w : Nat}

/-- The number whose digits these are, the lowest one first. -/
def value (digits : List (BitVec w)) : Nat := Nat.ofDigits (2^w) (digits.map BitVec.toNat)

@[simp] theorem value_nil : value ([] : List (BitVec w)) = 0 := rfl

@[simp] theorem value_cons (digit : BitVec w) (digits : List (BitVec w)) :
    value (digit :: digits) = digit.toNat + 2^w * value digits := ofDigits_cons

theorem eq_zero_of_mul_lt (power : Nat) {carry : Nat} (less : power * carry < power) : carry = 0 := by
  by_contra some
  exact absurd less (not_lt.mpr (Nat.le_mul_of_pos_right _ (pos_of_ne_zero some)))

theorem add_mul_lt_add_mul_iff {base low low' high high' : Nat} (small : low < base) (small' : low' < base) :
    low + base * high < low' + base * high' ↔ high < high' ∨ high = high' ∧ low < low' := by
  rcases Nat.lt_trichotomy high high' with less | rfl | more
  · have step : base * (high + 1) ≤ base * high' := mul_le_mul_left _ less
    rw [Nat.mul_add] at step
    exact iff_of_true (by omega) (.inl less)
  · simp
  · have step : base * (high' + 1) ≤ base * high := mul_le_mul_left _ more
    rw [Nat.mul_add] at step
    exact iff_of_false (by omega) (by omega)

theorem value_carry {digit : BitVec w} {digits : List (BitVec w)} {size carried out rest total : Nat}
    (here : digit.toNat + 2^w * carried = total) (later : value digits + (2^w)^size * out = rest + carried) :
    value (digit :: digits) + (2^w)^(size + 1) * out = total + 2^w * rest := by
  calc _ = digit.toNat + 2^w * (value digits + (2^w)^size * out) := by rw [value_cons]; ring
    _ = _ := by rw [later, ← here]; ring

theorem value_append (low high : List (BitVec w)) :
    value (low ++ high) = value low + (2^w)^low.length * value high := by
  rw [value, map_append, ofDigits_append, length_map, value, value]

theorem value_singleton (digit : BitVec w) : value [digit] = digit.toNat := by
  rw [value_cons, value_nil, Nat.mul_zero, add_zero]

variable (digits : List (BitVec w))

theorem value_lt : value digits < (2^w)^digits.length := by
  induction digits with
  | nil => exact one_pos
  | cons digit digits ih =>
    rw [length_cons, pow_succ']
    calc digit.toNat + 2^w * value digits < 2^w + 2^w * value digits := by omega
      _ = 2^w * (value digits + 1) := by ring
      _ ≤ 2^w * (2^w)^digits.length := mul_le_mul_left _ ih

theorem value_drop (count : Nat) : value (digits.drop count) = value digits / (2^w)^count := by
  rw [value, map_drop]
  apply (ofDigits_div_pow_eq_ofDigits_drop count (Nat.two_pow_pos w) _ _).symm
  simp [isLt]

theorem value_take (count : Nat) : value (digits.take count) = value digits % (2^w)^count := by
  rw [value, map_take]
  apply (ofDigits_mod_pow_eq_ofDigits_take count (Nat.two_pow_pos w) _ _).symm
  simp [isLt]

theorem value_take_add_drop (count : Nat) :
    value digits = value (digits.take count) + (2^w)^count * value (digits.drop count) := by
  rw [value_take, value_drop, mod_add_div]

theorem drop_getD {digits : List (BitVec w)} {index : Nat} (inside : index < digits.length) :
    digits.drop index = digits.getD index 0 :: digits.drop (index + 1) := by
  rw [getD_eq_getElem?_getD, List.getElem?_eq_getElem inside, Option.getD_some, drop_eq_getElem_cons inside]

theorem value_replicate_zero (count : Nat) : value (List.replicate count (0 : BitVec w)) = 0 := by
  induction count with
  | zero => rfl
  | succ count ih =>
    rw [List.replicate_succ, value_cons, ih]
    rfl

variable {first second digits : List (BitVec w)}

theorem eq_of_value_eq (size : first.length = second.length) (same : value first = value second) : first = second := by
  induction first generalizing second with
  | nil => exact (length_eq_zero_iff.mp size.symm).symm
  | cons digit digits ih =>
    cases second with
    | nil => cases size
    | cons other others =>
      rw [value_cons, value_cons] at same
      have low : digit.toNat = other.toNat := by
        have mod := congrArg (· % 2^w) same
        simpa only [add_mul_mod_self_left, mod_eq_of_lt digit.isLt, mod_eq_of_lt other.isLt] using mod
      have high : value digits = value others := by
        rw [low] at same
        exact Nat.eq_of_mul_eq_mul_left (Nat.two_pow_pos w) (add_left_cancel same)
      rw [eq_of_toNat_eq low, ih (succ.inj size) high]

def Trimmed (digits : List (BitVec w)) : Prop := digits.getLast? ≠ some 0

instance (digits : List (BitVec w)) : Decidable (Trimmed digits) := inferInstanceAs (Decidable (_ ≠ _))

theorem Trimmed.nil : Trimmed ([] : List (BitVec w)) := nofun

theorem trimmed_concat {top : BitVec w} : Trimmed (digits ++ [top]) ↔ top ≠ 0 := by
  rw [Trimmed, getLast?_concat, ne_eq, Option.some_inj]

def trim (digits : List (BitVec w)) : List (BitVec w) := digits.rdropWhile (· = 0)

theorem trimmed_trim (digits : List (BitVec w)) : Trimmed (trim digits) := by
  intro zero
  have some : trim digits ≠ [] := fun none => by rw [none] at zero; cases zero
  have kept := rdropWhile_last_not (· = (0 : BitVec w)) digits some
  rw [getLast?_eq_some_getLast some, Option.some_inj] at zero
  exact kept (decide_eq_true zero)

theorem trim_of_trimmed (trimmed : Trimmed digits) : trim digits = digits := by
  rw [trim, rdropWhile_eq_self_iff]
  intro some zero
  apply trimmed
  rw [getLast?_eq_some_getLast some, of_decide_eq_true zero]

section

variable (digits)

theorem value_trim : value (trim digits) = value digits := by
  induction digits using reverseRecOn with
  | nil => rfl
  | append_singleton digits top ih =>
    by_cases zero : top = 0
    · subst zero
      rw [trim, rdropWhile_concat_pos _ _ _ (by simp), ← trim, ih, value_append]
      simp
    · rw [trim_of_trimmed (trimmed_concat.mpr zero)]

end

theorem Trimmed.le_value (trimmed : Trimmed digits) (some : digits ≠ []) :
    (2^w)^(digits.length - 1) ≤ value digits := by
  induction digits using reverseRecOn with
  | nil => exact absurd rfl some
  | append_singleton digits top _ =>
    have positive : 0 < top.toNat := by
      apply pos_of_ne_zero
      intro zero
      exact trimmed_concat.mp trimmed (eq_of_toNat_eq zero)
    rw [value_append, length_append]
    calc (2^w)^digits.length ≤ (2^w)^digits.length * top.toNat := Nat.le_mul_of_pos_right _ positive
      _ ≤ value digits + (2^w)^digits.length * top.toNat := le_add_left _ _

theorem Trimmed.value_pos (trimmed : Trimmed digits) (some : digits ≠ []) : 0 < value digits :=
  lt_of_lt_of_le (Nat.pow_pos (Nat.two_pow_pos w)) (trimmed.le_value some)

theorem Trimmed.value_lt_of_length_lt (trimmed : Trimmed second)
    (shorter : first.length < second.length) : value first < value second := by
  have some : second ≠ [] := by
    intro none
    rw [none] at shorter
    exact not_lt_zero _ shorter
  calc value first < (2^w)^first.length := value_lt first
    _ ≤ (2^w)^(second.length - 1) := Nat.pow_le_pow_right (Nat.two_pow_pos w) (by omega)
    _ ≤ value second := trimmed.le_value some

theorem Trimmed.eq_of_value_eq (left : Trimmed first) (right : Trimmed second)
    (same : value first = value second) : first = second := by
  rcases Nat.lt_trichotomy first.length second.length with shorter | equal | longer
  · exact absurd same (Nat.ne_of_lt (right.value_lt_of_length_lt shorter))
  · exact Arithmetic.eq_of_value_eq equal same
  · exact absurd same.symm (Nat.ne_of_lt (left.value_lt_of_length_lt longer))

theorem value_of_trim_eq_nil (none : trim digits = []) : value digits = 0 := by
  rw [← value_trim, none, value_nil]

theorem testBit_value (positive : 0 < w) (digits : List (BitVec w)) (i : Nat) :
    (value digits).testBit i = (digits.getD (i / w) 0).getLsbD (i % w) := by
  induction digits generalizing i with
  | nil => simp
  | cons digit digits ih =>
    rw [value_cons, add_comm, testBit_two_pow_mul_add _ digit.isLt]
    split_ifs with low
    · rw [div_eq_of_lt low, mod_eq_of_lt low]
      exact testBit_toNat digit
    · obtain ⟨rest, rfl⟩ : ∃ rest, i = rest + w := ⟨i - w, by omega⟩
      rw [Nat.add_sub_cancel, ih, add_div_right _ positive, add_mod_right]
      rfl

theorem value_add_one_eq_iff (digits : List (BitVec w)) :
    value digits + 1 = (2^w)^digits.length ↔ ∀ digit ∈ digits, digit = BitVec.allOnes w := by
  induction digits with
  | nil => simp
  | cons digit digits ih =>
    have below := value_lt digits
    have top : digit = allOnes w ↔ digit.toNat + 1 = 2^w := by
      rw [← toNat_inj, toNat_allOnes]
      omega
    rw [forall_mem_cons, ← ih, value_cons, length_cons, pow_succ', top]
    constructor
    · intro whole
      have step : 2^w * (value digits + 1) ≤ 2^w * (2^w)^digits.length := mul_le_mul_left _ below
      rw [Nat.mul_add] at step
      have last : digit.toNat + 1 = 2^w := by
        omega
      refine ⟨last, Nat.eq_of_mul_eq_mul_left (Nat.two_pow_pos w) ?_⟩
      rw [Nat.mul_add]
      omega
    · rintro ⟨last, rest⟩
      rw [← rest, Nat.mul_add]
      omega

theorem value_eq_zero_iff (digits : List (BitVec w)) : value digits = 0 ↔ ∀ digit ∈ digits, digit = 0 := by
  induction digits with
  | nil => simp
  | cons digit digits ih =>
    have zero : digit = 0 ↔ digit.toNat = 0 := by
      rw [← toNat_inj]
      rfl
    rw [forall_mem_cons, ← ih, value_cons, zero, Nat.add_eq_zero_iff, mul_eq_zero]
    omega

end Odyssey.Arithmetic
