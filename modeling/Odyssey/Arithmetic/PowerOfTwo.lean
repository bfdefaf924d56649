import Mathlib.Algebra.Group.Nat.Defs
import Mathlib.Data.Nat.Size
import Mathlib.Tactic.ByContra

namespace Odyssey.Arithmetic

open BitVec Nat

/-- The least power of two that is not below a word, by smearing its bits. -/
def roundUpToPowerOfTwo (v : BitVec 32) : BitVec 32 :=
  let v := v - 1
  let v := v ||| v >>> 1
  let v := v ||| v >>> 2
  let v := v ||| v >>> 4
  let v := v ||| v >>> 8
  let v := v ||| v >>> 16
  v + 1

def Smeared (word smeared : BitVec 32) (width : Nat) : Prop :=
  ∀ i, smeared.getLsbD i = true ↔ ∃ j, i ≤ j ∧ j < i + width ∧ word.getLsbD j = true

theorem Smeared.double {word smeared : BitVec 32} {width : Nat} (partly : Smeared word smeared width) :
    Smeared word (smeared ||| smeared >>> width) (width + width) := by
  intro i
  rw [getLsbD_or, getLsbD_ushiftRight, Bool.or_eq_true, partly, partly]
  constructor
  · rintro (⟨j, low, high, set⟩ | ⟨j, low, high, set⟩)
    · exact ⟨j, low, by omega, set⟩
    · exact ⟨j, by omega, by omega, set⟩
  · rintro ⟨j, low, high, set⟩
    by_cases near : j < i + width
    · exact Or.inl ⟨j, low, near, set⟩
    · exact Or.inr ⟨j, by omega, by omega, set⟩

theorem Smeared.toNat {word smeared : BitVec 32} (whole : Smeared word smeared 32) :
    smeared.toNat = 2 ^ word.toNat.size - 1 := by
  refine eq_of_testBit_eq ?_
  intro i
  rw [testBit_two_pow_sub_one, Bool.eq_iff_iff, decide_eq_true_iff, lt_size, ← getLsbD, whole]
  constructor
  · rintro ⟨j, low, _, set⟩
    exact Nat.le_trans (Nat.pow_le_pow_right Nat.two_pos low) (ge_two_pow_of_testBit set)
  · intro large
    obtain ⟨j, low, set⟩ := exists_ge_and_testBit_of_ge_two_pow large
    have within : j < 32 := by
      by_contra beyond
      have := ge_two_pow_of_testBit set
      have := Nat.pow_le_pow_right Nat.two_pos (Nat.not_lt.mp beyond)
      omega
    exact ⟨j, low, by omega, set⟩

theorem roundUpToPowerOfTwo_toNat (v : BitVec 32) :
    (roundUpToPowerOfTwo v).toNat = 2 ^ (v - 1).toNat.size % 2 ^ 32 := by
  have start : Smeared (v - 1) (v - 1) 1 := by
    intro i
    constructor
    · intro set
      exact ⟨i, Nat.le_refl i, lt_succ_self i, set⟩
    · rintro ⟨j, low, high, set⟩
      obtain rfl : i = j := by omega
      exact set
  have whole := start.double.double.double.double.double.toNat
  have positive := Nat.two_pow_pos (v - 1).toNat.size
  exact congrArg (· % 2 ^ 32) (show _ + 1 = _ by rw [whole]; omega)

end Odyssey.Arithmetic
