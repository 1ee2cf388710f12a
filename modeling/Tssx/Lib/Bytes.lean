import Mathlib.Data.Nat.Digits.Defs
import Mathlib.Tactic.Common

/-!
# Numbers as little-endian bytes

`bytes w n` are the `w` bytes of `n` with the lowest one first, as the memory of a
little-endian machine has them, and `value` is the number that a list of bytes stands for.
`value_bytes` is the round trip for a number that fits into `w` bytes.
-/

namespace Bytes

def bytes : Nat → Nat → List UInt8
  | 0, _ => []
  | w + 1, n => UInt8.ofNat n :: bytes w (n / 256)

def value (l : List UInt8) : Nat := Nat.ofDigits 256 (l.map UInt8.toNat)

@[simp] theorem length_bytes (w n : Nat) : (bytes w n).length = w := by
  induction w generalizing n with
  | zero => rfl
  | succ w ih => rw [bytes, List.length_cons, ih]

theorem value_bytes {w n : Nat} (h : n < 256 ^ w) : value (bytes w n) = n := by
  induction w generalizing n with
  | zero =>
    rw [pow_zero] at h
    rw [Nat.lt_one_iff.mp h]
    rfl
  | succ w ih =>
    have hdiv : n / 256 < 256 ^ w := by
      rw [pow_succ] at h
      exact Nat.div_lt_of_lt_mul (by omega)
    have hrest : Nat.ofDigits 256 ((bytes w (n / 256)).map UInt8.toNat) = n / 256 := ih hdiv
    have hbyte : (UInt8.ofNat n).toNat = n % 256 := UInt8.toNat_ofNat'
    rw [value, bytes, List.map_cons, Nat.ofDigits_cons, hrest, hbyte]
    omega

theorem value_lt (l : List UInt8) : value l < 256 ^ l.length := by
  have hdigits : ∀ x ∈ l.map UInt8.toNat, x < 256 := by
    intro x hx
    obtain ⟨b, -, rfl⟩ := List.mem_map.mp hx
    exact b.toNat_lt
  have hlt := Nat.ofDigits_lt_base_pow_length (by decide) hdigits
  rwa [List.length_map] at hlt

theorem value_replicate_zero (w : Nat) : value (List.replicate w 0) = 0 := by
  induction w with
  | zero => rfl
  | succ w ih =>
    have hrest : Nat.ofDigits 256 ((List.replicate w (0 : UInt8)).map UInt8.toNat) = 0 := ih
    rw [value, List.replicate_succ, List.map_cons, Nat.ofDigits_cons, hrest]
    rfl

end Bytes
