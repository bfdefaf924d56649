import Mathlib.Tactic.Ring
import Mathlib.Tactic.Linarith

namespace Odyssey.Arithmetic

open Nat

theorem quotient_lt_base {base divisor top low : Nat} (less : top < divisor) (digit : low < base) :
    (top * base + low) / divisor < base := by
  apply Nat.div_lt_of_lt_mul
  have step : (top + 1) * base ≤ divisor * base := mul_le_mul_right _ less
  rw [add_mul] at step
  omega

section Correction

variable (base v1 v0 u : Nat)

/-- A quotient that may be too large is lowered as long as it is, or until the remainder reaches the base. -/
def lowered : Nat → Nat → Nat → Nat
  | 0, q, _ => q
  | rounds + 1, q, r =>
    if base ≤ q ∨ r * base + u < q * v0 then
      if base ≤ r + v1 then q - 1 else lowered rounds (q - 1) (r + v1)
    else q

variable {base v1 v0 u}

theorem test_iff {t q r : Nat} (rest : q * v1 + r = t) :
    r * base + u < q * v0 ↔ t * base + u < q * (v1 * base + v0) := by
  have dividend : t * base + u = q * v1 * base + (r * base + u) := by
    rw [← rest]
    ring
  have product : q * (v1 * base + v0) = q * v1 * base + q * v0 := by ring
  omega

theorem quotient_le_top {t : Nat} (positive : 0 < v1) (hu : u < base) : (t * base + u) / (v1 * base + v0) ≤ t / v1 := by
  rw [le_div_iff_mul_le positive]
  apply le_of_lt_succ
  apply Nat.lt_of_mul_lt_mul_right (a := base)
  have below : (t * base + u) / (v1 * base + v0) * (v1 * base + v0) ≤ t * base + u := div_mul_le_self _ _
  calc (t * base + u) / (v1 * base + v0) * v1 * base ≤ (t * base + u) / (v1 * base + v0) * (v1 * base + v0) := by
        rw [mul_assoc]
        exact mul_le_mul_left _ (le_add_right _ _)
    _ < (t + 1) * base := by
        rw [add_mul]
        omega

theorem lowered_eq {t rounds q r : Nat} (positive : 0 < v1) (hv0 : v0 < base) (rest : q * v1 + r = t)
    (small : (t * base + u) / (v1 * base + v0) < base) (large : (t * base + u) / (v1 * base + v0) ≤ q)
    (bound : q ≤ base + 1) (hr : r < base) (enough : base ≤ r + rounds * v1) :
    lowered base v1 v0 u rounds q r = (t * base + u) / (v1 * base + v0) := by
  have divisor : 0 < v1 * base + v0 := lt_of_lt_of_le (mul_pos positive (by omega)) (le_add_right _ _)
  induction rounds generalizing q r with
  | zero => omega
  | succ rounds ih =>
    rw [lowered]
    split
    · rename_i test
      have above : (t * base + u) / (v1 * base + v0) < q := by
        rcases test with big | product
        · omega
        · rw [test_iff rest] at product
          exact Nat.div_lt_of_lt_mul (by rwa [mul_comm (v1 * base + v0)])
      have next : (q - 1) * v1 + (r + v1) = t := by
        obtain ⟨p, rfl⟩ : ∃ p, q = p + 1 := exists_eq_succ_of_ne_zero (ne_of_gt (zero_lt_of_lt above))
        rw [← rest, Nat.add_sub_cancel]
        ring
      split
      · rename_i overflow
        apply le_antisymm _ (le_sub_one_of_lt above)
        rw [le_div_iff_mul_le divisor]
        apply Nat.le_of_not_lt
        rw [← test_iff next]
        apply Nat.not_lt_of_le
        calc (q - 1) * v0 ≤ base * base := Nat.mul_le_mul (by omega) (by omega)
          _ ≤ (r + v1) * base := mul_le_mul_right _ overflow
          _ ≤ (r + v1) * base + u := le_add_right _ _
      · apply ih next (le_sub_one_of_lt above) (by omega) (by omega)
        rw [add_mul] at enough
        omega
    · rename_i test
      rw [not_or] at test
      apply Nat.le_antisymm _ large
      rw [le_div_iff_mul_le divisor]
      apply Nat.le_of_not_lt
      rw [← test_iff rest]
      exact test.2

end Correction

variable {scale topDividend lowDividend topDivisor lowDivisor : Nat}

theorem quotient_of_top (positive : 0 < topDivisor) (dividend : lowDividend < scale) (divisor : lowDivisor < scale)
    (enough : topDividend / topDivisor ≤ topDivisor) :
    (topDividend * scale + lowDividend) / (topDivisor * scale + lowDivisor) ≤ topDividend / topDivisor ∧
      topDividend / topDivisor ≤ (topDividend * scale + lowDividend) / (topDivisor * scale + lowDivisor) + 1 := by
  refine ⟨quotient_le_top positive dividend, ?_⟩
  have whole : 0 < topDivisor * scale + lowDivisor :=
    Nat.lt_of_lt_of_le (Nat.mul_pos positive (by omega)) (Nat.le_add_right _ _)
  rcases Nat.eq_zero_or_pos (topDividend / topDivisor) with zero | some
  · rw [zero]
    exact Nat.zero_le _
  · obtain ⟨p, hp⟩ : ∃ p, topDividend / topDivisor = p + 1 := Nat.exists_eq_succ_of_ne_zero (ne_of_gt some)
    rw [hp] at enough ⊢
    apply succ_le_succ
    rw [le_div_iff_mul_le whole]
    have below : (p + 1) * topDivisor ≤ topDividend := hp ▸ div_mul_le_self _ _
    calc p * (topDivisor * scale + lowDivisor) ≤ p * (topDivisor * scale + scale) := mul_le_mul_left _ (by omega)
      _ = (p * topDivisor + p) * scale := by ring
      _ ≤ ((p + 1) * topDivisor) * scale := by
          apply Nat.mul_le_mul_right
          rw [add_mul]
          omega
      _ ≤ topDividend * scale := mul_le_mul_right _ below
      _ ≤ topDividend * scale + lowDividend := le_add_right _ _

theorem quotient_of_same_top {base dividend : Nat} (above : topDivisor * (base * scale) ≤ dividend)
    (divisor : lowDivisor < scale) (normal : base ≤ 2 * topDivisor) (two : 2 ≤ base)
    (below : dividend < base * (topDivisor * scale + lowDivisor)) :
    dividend / (topDivisor * scale + lowDivisor) ≤ base - 1 ∧
      base - 1 ≤ dividend / (topDivisor * scale + lowDivisor) + 1 := by
  have whole : 0 < topDivisor * scale + lowDivisor :=
    lt_of_lt_of_le (mul_pos (by omega) (by omega)) (le_add_right _ _)
  obtain ⟨p, rfl⟩ : ∃ p, base = p + 2 := ⟨base - 2, by omega⟩
  constructor
  · apply le_of_lt_succ
    exact Nat.div_lt_of_lt_mul (by rwa [mul_comm (topDivisor * scale + lowDivisor)])
  · apply succ_le_succ
    rw [le_div_iff_mul_le whole]
    calc p * (topDivisor * scale + lowDivisor) ≤ p * (topDivisor * scale + scale) := mul_le_mul_left _ (by omega)
      _ = (p * topDivisor + p) * scale := by ring
      _ ≤ ((p + 2) * topDivisor) * scale := by
          apply Nat.mul_le_mul_right
          rw [add_mul]
          omega
      _ = topDivisor * ((p + 2) * scale) := by ring
      _ ≤ dividend := above

end Odyssey.Arithmetic
