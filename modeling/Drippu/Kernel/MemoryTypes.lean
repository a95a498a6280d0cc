import Mathlib.Tactic

/-!
# Kernel - Pages and alignment

The page size of `memory_types.h` and the rounding functions of
`common/alignment.h`.
-/

namespace Drippu.Kernel

open Nat

abbrev pageSize : Nat := 4096

def alignDown (value size : Nat) : Nat :=
  value - value % size

def alignUp (value size : Nat) : Nat :=
  let mod := value % size
  let value := value - mod
  if mod = 0 then value else value + size

variable (value size : Nat)

lemma alignDown_eq : alignDown value size = value / size * size := by
  have hdm := div_add_mod' value size
  rw [alignDown]
  omega

lemma alignDown_le : alignDown value size ≤ value :=
  sub_le _ _

lemma dvd_alignDown : size ∣ alignDown value size := by
  rw [alignDown_eq]
  exact dvd_mul_left _ _

lemma dvd_alignUp : size ∣ alignUp value size := by
  unfold alignUp
  dsimp only
  split
  · exact dvd_alignDown value size
  · exact dvd_add (dvd_alignDown value size) (dvd_refl size)

lemma le_alignUp {size : Nat} (h : 0 < size) : value ≤ alignUp value size := by
  have hmod := mod_lt value h
  unfold alignUp
  dsimp only
  split <;> omega

lemma alignUp_of_dvd {value size : Nat} (h : size ∣ value) : alignUp value size = value := by
  simp [alignUp, mod_eq_zero_of_dvd h]

lemma alignDown_of_dvd {value size : Nat} (h : size ∣ value) : alignDown value size = value := by
  simp [alignDown, mod_eq_zero_of_dvd h]

end Drippu.Kernel
