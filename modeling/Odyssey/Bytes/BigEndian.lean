import Odyssey.Bytes.LittleEndian

namespace Odyssey.Bytes

open List

def highBytes (width number : Nat) : List UInt8 := (lowBytes width number).reverse

variable (bytes : List UInt8)

def shiftedValue : Nat :=
  bytes.foldl (fun value byte => value * 256 + byte.toNat) 0

@[simp] theorem highBytes_length (width number : Nat) : (highBytes width number).length = width := by
  simp [highBytes]

theorem shiftedValue_eq : shiftedValue bytes = byteValue bytes.reverse := by
  have general : ∀ (bytes : List UInt8),
      bytes.foldr (fun byte value => value * 256 + byte.toNat) 0 = byteValue bytes := by
    intro bytes
    induction bytes with
    | nil => rfl
    | cons byte bytes ih =>
      rw [foldr_cons, byteValue]
      omega
  rw [shiftedValue, ← general, foldr_reverse]

theorem highBytes_shiftedValue : highBytes bytes.length (shiftedValue bytes) = bytes := by
  have back := lowBytes_byteValue bytes.reverse
  rw [length_reverse] at back
  rw [shiftedValue_eq, highBytes, back, reverse_reverse]

theorem shiftedValue_bound : shiftedValue bytes < 256 ^ bytes.length := by
  have bound := byteValue_bound bytes.reverse
  rw [length_reverse] at bound
  rw [shiftedValue_eq]
  exact bound

end Odyssey.Bytes
