import Odyssey.BigInt.Digits
import Odyssey.Arithmetic.QuotientEstimate

namespace Odyssey.BigInt

open Arithmetic BitVec Nat

variable {build : Build}

theorem halfDigitBits_pos : 0 < build.halfDigitBits := by
  rw [Build.halfDigitBits]
  split <;> omega

theorem half_lt_base : 2^build.halfDigitBits < 2^build.digitBits := Nat.pow_lt_pow_right (by omega) (by
    have positive : 0 < build.halfDigitBits := halfDigitBits_pos
    rw [Build.digitBits]
    omega)

theorem toNat_halfDigitBase : (halfDigitBase build).toNat = 2^build.halfDigitBits := by
  rw [halfDigitBase, toNat_ofNat, mod_eq_of_lt half_lt_base]

theorem toNat_sub_one {w : Nat} {q : BitVec w} (room : 1 < 2^w) (positive : 0 < q.toNat) :
    (q - 1).toNat = q.toNat - 1 := by
  have one := toNat_one room
  rw [toNat_sub_of_le (le_def.mpr (one ▸ positive)), one]

theorem toNat_mul_halfDigitBase {a b : Digit build} (high : a.toNat < 2^build.halfDigitBits)
    (low : b.toNat < 2^build.halfDigitBits) :
    (a * halfDigitBase build + b).toNat = a.toNat * 2^build.halfDigitBits + b.toNat := by
  have fits : a.toNat * 2^build.halfDigitBits + b.toNat < 2^build.digitBits := by
    have step : (a.toNat + 1) * 2^build.halfDigitBits ≤ 2^build.halfDigitBits * 2^build.halfDigitBits :=
      mul_le_mul_right _ high
    rw [Nat.add_mul] at step
    rw [base_eq]
    omega
  rw [toNat_add, toNat_mul, toNat_halfDigitBase, mod_add_mod, mod_eq_of_lt fits]

theorem correct_eq {vn1 vn0 un : Digit build} (hv1 : vn1.toNat < 2^build.halfDigitBits)
    (hv0 : vn0.toNat < 2^build.halfDigitBits) (hu : un.toNat < 2^build.halfDigitBits) (rounds : Nat)
    (q rhat : Digit build) (hr : rhat.toNat < 2^build.halfDigitBits) :
    (correct build vn1 vn0 un rounds q rhat).toNat =
      lowered (2^build.halfDigitBits) vn1.toNat vn0.toNat un.toNat rounds q.toNat rhat.toNat := by
  have base : 2^build.digitBits = 2^build.halfDigitBits * 2^build.halfDigitBits := base_eq
  have two : 2 ≤ 2^build.halfDigitBits := le_self_pow (ne_of_gt halfDigitBits_pos) 2
  induction rounds generalizing q rhat with
  | zero => rfl
  | succ rounds ih =>
    have test : (q ≥ halfDigitBase build ∨ q * vn0 > rhat * halfDigitBase build + un) ↔
        (2^build.halfDigitBits ≤ q.toNat ∨ rhat.toNat * 2^build.halfDigitBits + un.toNat < q.toNat * vn0.toNat) := by
      simp only [le_def, lt_def, toNat_halfDigitBase, toNat_mul_halfDigitBase hr hu]
      by_cases big : 2^build.halfDigitBits ≤ q.toNat
      · exact ⟨fun _ => Or.inl big, fun _ => Or.inl big⟩
      · rw [toNat_mul_of_halves (Nat.lt_of_not_le big) hv0]
    have sum : (rhat + vn1).toNat = rhat.toNat + vn1.toNat := by
      rw [toNat_add_of_lt]
      have double : 2 * 2^build.halfDigitBits ≤ 2^build.halfDigitBits * 2^build.halfDigitBits :=
        mul_le_mul_right _ two
      omega
    rw [correct, lowered]
    simp only [test]
    split
    · rename_i large
      have positive : 0 < q.toNat := by
        rcases large with big | product
        · omega
        · exact Nat.pos_of_mul_pos_right (zero_lt_of_lt product)
      have less := toNat_sub_one (by omega) positive
      simp only [le_def, toNat_halfDigitBase, sum]
      split_ifs with fits
      · exact less
      · rw [ih (q - 1) (rhat + vn1) (by omega), less, sum]
    · rfl

theorem high_half_normal {divisor : Digit build} (normal : 2^build.digitBits ≤ 2 * divisor.toNat) :
    2^build.halfDigitBits ≤ 2 * (divisor.toNat / 2^build.halfDigitBits) := by
  obtain ⟨bits, hbits⟩ : ∃ bits, build.halfDigitBits = bits + 1 :=
    exists_eq_succ_of_ne_zero (ne_of_gt halfDigitBits_pos)
  have even : 2^build.halfDigitBits = 2 * 2^bits := by rw [hbits, pow_succ, mul_comm]
  have half : 2^bits ≤ divisor.toNat / 2^build.halfDigitBits := by
    rw [le_div_iff_mul_le (Nat.two_pow_pos _)]
    rw [base_eq] at normal
    nth_rewrite 1 [even] at normal
    rw [mul_assoc] at normal
    omega
  omega

section HalfQuotient

variable {divisor un32 un1 : Digit build} (normal : 2^build.digitBits ≤ 2 * divisor.toNat)
  (less : un32.toNat < divisor.toNat) (hu : un1.toNat < 2^build.halfDigitBits)
include normal less hu

theorem correct_half {rounds : Nat} (enough : 2 ≤ rounds) :
    (correct build (divisor >>> build.halfDigitBits) (divisor &&& halfDigitMask build) un1 rounds
        (un32 / divisor >>> build.halfDigitBits)
        (un32 - un32 / divisor >>> build.halfDigitBits * divisor >>> build.halfDigitBits)).toNat =
      (un32.toNat * 2^build.halfDigitBits + un1.toNat) / divisor.toNat := by
  have top := high_half_normal normal
  obtain ⟨high_lt, low_lt, whole⟩ := halves divisor
  rw [← toNat_shiftHalf] at top
  generalize divisor >>> build.halfDigitBits = vn1 at *
  have product : (un32 / vn1 * vn1).toNat = un32.toNat / vn1.toNat * vn1.toNat := by
    rw [toNat_mul, toNat_udiv, mod_eq_of_lt]
    exact Nat.lt_of_le_of_lt (Nat.div_mul_le_self _ _) un32.isLt
  have rest : (un32 - un32 / vn1 * vn1).toNat = un32.toNat % vn1.toNat := by
    rw [toNat_sub_of_le, product, Nat.mod_eq_sub_div_mul]
    rw [le_def, product]
    exact Nat.div_mul_le_self _ _
  have small := mod_lt un32.toNat (show 0 < vn1.toNat by omega)
  rw [correct_eq high_lt low_lt hu _ _ _ (by omega), rest, ← whole]
  have scaled : 2 * vn1.toNat ≤ rounds * vn1.toNat := mul_le_mul_right _ enough
  apply lowered_eq (by omega) low_lt (div_add_mod' _ _)
  · rw [whole]
    exact quotient_lt_base less hu
  · exact quotient_le_top (by omega) hu
  · apply le_of_lt_succ
    apply Nat.div_lt_of_lt_mul
    rw [Nat.mul_succ, Nat.mul_succ]
    omega
  · omega
  · omega

theorem halfQuotient_eq :
    (halfQuotient build (divisor >>> build.halfDigitBits) (divisor &&& halfDigitMask build) un32 un1).toNat =
      (un32.toNat * 2^build.halfDigitBits + un1.toNat) / divisor.toNat :=
  correct_half normal less hu (le_refl 2)

end HalfQuotient

theorem ofNat_sub_of_add {w : Nat} {first second difference : Nat} (sum : difference + second = first) :
    BitVec.ofNat w first - BitVec.ofNat w second = BitVec.ofNat w difference := by
  rw [← sum, ofNat_add, add_sub_cancel]

theorem half_remainder {divisor un32 un1 q : Digit build}
    (quotient : q.toNat = (un32.toNat * 2^build.halfDigitBits + un1.toNat) / divisor.toNat)
    (positive : 0 < divisor.toNat) :
    (un32 * halfDigitBase build + un1 - q * divisor).toNat =
      (un32.toNat * 2^build.halfDigitBits + un1.toNat) % divisor.toNat := by
  have dividend : un32 * halfDigitBase build + un1 =
      BitVec.ofNat _ (un32.toNat * 2^build.halfDigitBits + un1.toNat) := by
    rw [ofNat_add, ofNat_mul, ofNat_toNat, ofNat_toNat, setWidth_eq, setWidth_eq, halfDigitBase]
  have product : q * divisor = BitVec.ofNat _ (q.toNat * divisor.toNat) := by
    rw [ofNat_mul, ofNat_toNat, ofNat_toNat, setWidth_eq, setWidth_eq]
  rw [dividend, product, quotient, ofNat_sub_of_add (mod_add_div' _ _), toNat_ofNat, mod_eq_of_lt]
  exact lt_trans (mod_lt _ positive) divisor.isLt

theorem two_half_steps (half dividend u1 u0 : Nat) {divisor : Nat} (positive : 0 < divisor) :
    let q1 := (dividend * half + u1) / divisor
    let rest := (dividend * half + u1) % divisor
    (dividend * (half * half) + (u1 * half + u0)) / divisor = q1 * half + (rest * half + u0) / divisor ∧
      (dividend * (half * half) + (u1 * half + u0)) % divisor = (rest * half + u0) % divisor := by
  have first := div_add_mod' (dividend * half + u1) divisor
  have whole : dividend * (half * half) + (u1 * half + u0) =
      ((dividend * half + u1) % divisor * half + u0) + (dividend * half + u1) / divisor * half * divisor := by
    calc dividend * (half * half) + (u1 * half + u0) = (dividend * half + u1) * half + u0 := by ring
      _ = ((dividend * half + u1) / divisor * divisor + (dividend * half + u1) % divisor) * half + u0 := by rw [first]
      _ = _ := by ring
  simp only
  rw [whole, add_mul_div_right _ _ positive, add_mul_mod_self_right, add_comm]
  exact ⟨rfl, rfl⟩

theorem clz_room (digit : Digit build) : (digit.toNat + 1) * 2^clz build digit ≤ 2^build.digitBits := by
  have fits : digit.toNat.size ≤ build.digitBits := size_le.mpr digit.isLt
  calc (digit.toNat + 1) * 2^clz build digit ≤ 2^digit.toNat.size * 2^clz build digit :=
        mul_le_mul_right _ (lt_size_self _)
    _ = 2^build.digitBits := by
        rw [← pow_add, clz]
        congr 1
        omega

theorem toNat_normalized (divisor : Digit build) :
    (divisor <<< clz build divisor).toNat = divisor.toNat * 2^clz build divisor := by
  have room := clz_room divisor
  have positive := Nat.two_pow_pos (clz build divisor)
  rw [Nat.add_mul] at room
  rw [toNat_shiftLeft, Nat.shiftLeft_eq, mod_eq_of_lt (by omega)]

section Normalization

variable {divisor : Digit build} (positive : 0 < divisor.toNat)
include positive

theorem clz_lt : clz build divisor < build.digitBits := by
  have size := size_pos.mpr positive
  have fits : divisor.toNat.size ≤ build.digitBits := size_le.mpr divisor.isLt
  rw [clz]
  omega

theorem normalized : 2^build.digitBits ≤ 2 * (divisor <<< clz build divisor).toNat := by
  have size := size_pos.mpr positive
  have fits : divisor.toNat.size ≤ build.digitBits := size_le.mpr divisor.isLt
  have top : 2^(divisor.toNat.size - 1) ≤ divisor.toNat := lt_size.mp (by omega)
  rw [toNat_normalized]
  calc 2^build.digitBits = 2 * (2^(divisor.toNat.size - 1) * 2^clz build divisor) := by
        rw [← pow_add, ← pow_succ', clz]
        congr 1
        omega
    _ ≤ 2 * (divisor.toNat * 2^clz build divisor) := by
        apply Nat.mul_le_mul_left
        exact mul_le_mul_right _ top

end Normalization

theorem pushed_out (low : Digit build) {s : Nat} (less : s < build.digitBits) :
    ((low >>> ((build.digitBits - s) &&& (build.digitBits - 1))) &&&
        (-BitVec.ofNat build.digitBits s).sshiftRight (build.digitBits - 1)).toNat =
      low.toNat / 2^(build.digitBits - s) := by
  rcases Nat.eq_zero_or_pos s with rfl | some
  · have none : (-BitVec.ofNat build.digitBits 0).sshiftRight (build.digitBits - 1) = 0 := by
      simp
    rw [none, toNat_and, toNat_zero, Nat.and_zero, Nat.sub_zero, div_eq_of_lt low.isLt]
  · have mask : (-BitVec.ofNat build.digitBits s).sshiftRight (build.digitBits - 1) = allOnes _ ∧
        (build.digitBits - s) &&& (build.digitBits - 1) = build.digitBits - s := by
      obtain ⟨wide, two⟩ := build
      have narrow : ∀ s < 32, 0 < s → (-BitVec.ofNat 32 s).sshiftRight 31 = allOnes 32 ∧
        (32 - s) &&& 31 = 32 - s := by decide
      have large : ∀ s < 64, 0 < s → (-BitVec.ofNat 64 s).sshiftRight 63 = allOnes 64 ∧
        (64 - s) &&& 63 = 64 - s := by decide
      cases wide
      · exact narrow s less some
      · exact large s less some
    rw [mask.1, mask.2, and_allOnes, toNat_ushiftRight, shiftRight_eq_div_pow]

theorem toNat_shiftLeft_or {w s : Nat} {high low : BitVec w} (below : low.toNat < 2^s)
    (fits : high.toNat * 2^s < 2^w) : (high <<< s ||| low).toNat = high.toNat * 2^s + low.toNat := by
  rw [toNat_or, toNat_shiftLeft, Nat.shiftLeft_eq, mod_eq_of_lt fits, ← Nat.shiftLeft_eq,
    shiftLeft_add_eq_or_of_lt below]

theorem shifted_dividend {w s : Nat} (less : s ≤ w) (high low : Nat) :
    (high * 2^s + low / 2^(w - s)) * 2^w + low * 2^s % 2^w = (high * 2^w + low) * 2^s := by
  have power : 2^w = 2^(w - s) * 2^s := by
    rw [← pow_add]
    congr 1
    omega
  have split := div_add_mod' (low * 2^s) (2^w)
  have part : low * 2^s / 2^w = low / 2^(w - s) := by
    rw [power, Nat.mul_div_mul_right _ _ (Nat.two_pow_pos s)]
  rw [part] at split
  calc (high * 2^s + low / 2^(w - s)) * 2^w + low * 2^s % 2^w =
      high * 2^s * 2^w + (low / 2^(w - s) * 2^w + low * 2^s % 2^w) := by ring
    _ = high * 2^s * 2^w + low * 2^s := by rw [split]
    _ = _ := by ring

theorem digitDiv_spec {high divisor : Digit build} (low : Digit build) (less : high.toNat < divisor.toNat) :
    (digitDiv build high low divisor).1.toNat = (high.toNat * 2^build.digitBits + low.toNat) / divisor.toNat ∧
      (digitDiv build high low divisor).2.toNat = (high.toNat * 2^build.digitBits + low.toNat) % divisor.toNat := by
  have positive : 0 < divisor.toNat := by omega
  have count := clz_lt positive
  have scaled := toNat_normalized divisor
  have normal := normalized positive
  have out := pushed_out low count
  have moved := shifted_dividend (le_of_lt count) high.toNat low.toNat
  simp only [digitDiv]
  generalize clz build divisor = s at *
  generalize divisor <<< s = shifted at *
  generalize low >>> ((build.digitBits - s) &&& (build.digitBits - 1)) &&&
    (-BitVec.ofNat build.digitBits s).sshiftRight (build.digitBits - 1) = top at *
  have below : top.toNat < 2^s := by
    rw [out]
    apply Nat.div_lt_of_lt_mul
    rw [← pow_add, Nat.sub_add_cancel (le_of_lt count)]
    exact low.isLt
  have joined : (high <<< s ||| top).toNat = high.toNat * 2^s + low.toNat / 2^(build.digitBits - s) := by
    rw [toNat_shiftLeft_or below, out]
    apply lt_trans _ shifted.isLt
    rw [scaled]
    exact mul_lt_mul_of_pos_right less (Nat.two_pow_pos s)
  have lowest : (low <<< s).toNat = low.toNat * 2^s % 2^build.digitBits := by
    rw [toNat_shiftLeft, Nat.shiftLeft_eq]
  rw [← joined, ← lowest] at moved
  generalize high <<< s ||| top = un32 at *
  generalize low <<< s = un10 at *
  have lower : un32.toNat < shifted.toNat := by
    apply Nat.lt_of_mul_lt_mul_right (a := 2^build.digitBits)
    calc un32.toNat * 2^build.digitBits ≤ (high.toNat * 2^build.digitBits + low.toNat) * 2^s := by omega
      _ < (high.toNat * 2^build.digitBits + 2^build.digitBits) * 2^s :=
          mul_lt_mul_of_pos_right (by have := low.isLt; omega) (Nat.two_pow_pos s)
      _ = (high.toNat + 1) * (2^s * 2^build.digitBits) := by ring
      _ ≤ divisor.toNat * (2^s * 2^build.digitBits) := mul_le_mul_right _ less
      _ = shifted.toNat * 2^build.digitBits := by rw [scaled, mul_assoc]
  have whole : 0 < shifted.toNat := by omega
  obtain ⟨hu1_lt, hu0_lt, split⟩ := halves un10
  generalize un10 >>> build.halfDigitBits = un1 at *
  generalize un10 &&& halfDigitMask build = un0 at *
  have steps := two_half_steps (2^build.halfDigitBits) un32.toNat un1.toNat un0.toNat whole
  simp only [split, ← base_eq, moved] at steps
  have hq1 := halfQuotient_eq normal lower hu1_lt
  have left1 := half_remainder hq1 whole
  rw [← hq1, ← left1] at steps
  have hq0 := halfQuotient_eq normal (left1 ▸ mod_lt _ whole) hu0_lt
  have left0 := half_remainder hq0 whole
  rw [← hq0, ← left0, scaled, Nat.mul_div_mul_right _ _ (Nat.two_pow_pos s), mul_mod_mul_right] at steps
  constructor
  · rw [steps.1, toNat_mul_halfDigitBase]
    · rw [hq1]
      exact quotient_lt_base lower hu1_lt
    · rw [hq0]
      exact quotient_lt_base (left1 ▸ mod_lt _ whole) hu0_lt
  · rw [toNat_ushiftRight, shiftRight_eq_div_pow, ← steps.2, Nat.mul_div_cancel _ (Nat.two_pow_pos s)]

end Odyssey.BigInt
