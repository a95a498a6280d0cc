import Mathlib.Data.UInt
import Mathlib.Tactic

/-!
# Common - Multiplication and division in 64 bits

`MultiplyAndDivide64` in the form for compilers without a 128-bit intrinsic: both factors are
divided first, and only the product of the remainders is divided.  That product can wrap around.
-/

namespace Drippu.Common

open Nat

def multiplyAndDivide64 (a b d : UInt64) : UInt64 :=
  let diva := a / d
  let moda := a % d
  let divb := b / d
  let modb := b % d
  diva * b + moda * divb + moda * modb / d

/-- The formula is exact over the integers. -/
lemma mul_div_eq (a b : Nat) {d : Nat} (hd : 0 < d) :
    a * b / d = a / d * b + a % d * (b / d) + a % d * (b % d) / d := by
  have ha : a * b = a % d * b + d * (a / d * b) := by
    rw [← mul_assoc, ← add_mul, mod_add_div]
  have hb : a % d * b = a % d * (b % d) + d * (a % d * (b / d)) := by
    rw [mul_left_comm, ← mul_add, mod_add_div]
  rw [ha, add_mul_div_left _ _ hd, hb, add_mul_div_left _ _ hd]
  omega

/-- Where the quotient fits in 64 bits, it is returned exactly when the product of the
remainders does not wrap around. -/
theorem multiplyAndDivide64_exact_iff (a b d : UInt64) (hd : d ≠ 0)
    (hfits : a.toNat * b.toNat / d.toNat < 2 ^ 64) :
    (multiplyAndDivide64 a b d).toNat = a.toNat * b.toNat / d.toNat ↔
      a.toNat % d.toNat * (b.toNat % d.toNat) < 2 ^ 64 := by
  have hpos : 0 < d.toNat := pos_of_ne_zero fun h => hd (UInt64.toNat_inj.1 h)
  have hlt := d.toNat_lt
  rw [mul_div_eq _ _ hpos] at hfits ⊢
  simp only [multiplyAndDivide64, UInt64.toNat_add, UInt64.toNat_mul, UInt64.toNat_div,
    UInt64.toNat_mod]
  generalize a.toNat % d.toNat * (b.toNat % d.toNat) = p at hfits ⊢
  have hmod : p % 2 ^ 64 / d.toNat ≤ p / d.toNat := Nat.div_le_div_right (mod_le _ _)
  -- a product that wraps around loses at least one divisor
  have hover : 2 ^ 64 ≤ p → p % 2 ^ 64 / d.toNat + 1 ≤ p / d.toNat := fun h => by
    rw [← add_div_right _ hpos]
    exact Nat.div_le_div_right (by omega)
  have hsmall : p < 2 ^ 64 → p % 2 ^ 64 / d.toNat = p / d.toNat := fun h => by
    rw [mod_eq_of_lt h]
  generalize p % 2 ^ 64 / d.toNat = low at hmod hover hsmall ⊢
  generalize p / d.toNat = high at hfits hmod hover hsmall ⊢
  omega

theorem multiplyAndDivide64_exact_frequency :
    (multiplyAndDivide64 300000000 1000000000 100000000).toNat =
      (300000000 : UInt64).toNat * (1000000000 : UInt64).toNat / (100000000 : UInt64).toNat :=
  (multiplyAndDivide64_exact_iff 300000000 1000000000 100000000 (by decide) (by decide)).2
    (by decide)

theorem multiplyAndDivide64_wraps :
    multiplyAndDivide64 (2 ^ 32) (2 ^ 32) (2 ^ 32 + 1) = 0 ∧
      2 ^ 32 * 2 ^ 32 / (2 ^ 32 + 1) = 2 ^ 32 - 1 := by
  decide

end Drippu.Common
