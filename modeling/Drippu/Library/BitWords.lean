import Mathlib.Tactic

/-!
# Library - Bit arrays in words

A bit array stored in words of width `w`: bit `i` is bit `i % w` of
word `i / w`.  The lemmas read single bits after a word was written.
-/

namespace Drippu.Library

open Nat hiding and_or_distrib_left and_or_distrib_right or_zero shiftLeft_eq zero_and
open BitVec Function

variable {w : Nat}

/-- Bit `i` of an array of words. -/
def bitAt (ws : Nat → BitVec w) (i : Nat) : Bool :=
  (ws (i / w)).getLsbD (i % w)

lemma bitAt_eq (ws : Nat → BitVec w) {j k : Nat} (hk : k < w) :
    bitAt ws (j * w + k) = (ws j).getLsbD k := by
  have hw : 0 < w := by omega
  rw [bitAt, add_comm, mul_comm, add_mul_div_left k j hw, add_mul_mod_self_left,
    div_eq_of_lt hk, mod_eq_of_lt hk, zero_add]

lemma word_ne_zero_iff (hw : 0 < w) (ws : Nat → BitVec w) (j : Nat) :
    ws j ≠ 0#w ↔ ∃ i, i / w = j ∧ bitAt ws i = true := by
  constructor
  · intro h
    have hbit := getLsbD_true_ctz_of_ne_zero h
    have hk := BitVec.lt_of_getLsbD hbit
    refine ⟨j * w + (ws j).ctz.toNat, ?_, (bitAt_eq ws hk).trans hbit⟩
    rw [add_comm, mul_comm, add_mul_div_left _ j hw, div_eq_of_lt hk, zero_add]
  · rintro ⟨i, rfl, hbit⟩ hzero
    rw [bitAt, hzero, getLsbD_zero] at hbit
    cases hbit

lemma getLsbD_one_shiftLeft (k : Nat) {i : Nat} (hi : i < w) :
    (1#w <<< k).getLsbD i = decide (i = k) := by
  rw [← twoPow_eq, getLsbD_twoPow, ← Bool.decide_and, decide_eq_decide]
  omega

lemma bitAt_setBit (hw : 0 < w) (ws : Nat → BitVec w) (o i : Nat) :
    bitAt (update ws (o / w) (ws (o / w) ||| 1#w <<< (o % w))) i =
      (decide (i = o) || bitAt ws i) := by
  have hi : i % w < w := mod_lt i hw
  by_cases hword : i / w = o / w
  · rw [bitAt, hword, update_self, getLsbD_or, getLsbD_one_shiftLeft _ hi,
      bitAt, hword, Bool.or_comm]
    simp [ext_div_mod_iff w i, hword]
  · rw [bitAt, update_of_ne hword, bitAt]
    simp [ext_div_mod_iff w i, hword]

lemma bitAt_clearMask (hw : 0 < w) (ws : Nat → BitVec w) (j : Nat) (mask : BitVec w) (i : Nat) :
    bitAt (update ws j (ws j &&& ~~~mask)) i =
      (bitAt ws i && !(decide (i / w = j) && mask.getLsbD (i % w))) := by
  have hi : i % w < w := mod_lt i hw
  by_cases hword : i / w = j
  · subst hword
    rw [bitAt, update_self, getLsbD_and, getLsbD_not, bitAt]
    simp [hi]
  · rw [bitAt, update_of_ne hword, bitAt]
    simp [hword]

lemma bitAt_clearBit (hw : 0 < w) (ws : Nat → BitVec w) (o i : Nat) :
    bitAt (update ws (o / w) (ws (o / w) &&& ~~~(1#w <<< (o % w)))) i =
      (bitAt ws i && !decide (i = o)) := by
  rw [bitAt_clearMask hw, getLsbD_one_shiftLeft _ (mod_lt i hw)]
  congr 2
  rw [← Bool.decide_and, decide_eq_decide]
  exact (ext_div_mod_iff w i o).symm

lemma and_one_shiftLeft_eq_zero (v : BitVec w) (k : Nat) :
    v &&& 1#w <<< k = 0#w ↔ v.getLsbD k = false := by
  rw [← twoPow_eq, and_twoPow]
  split_ifs with hbit
  · refine iff_of_false (fun hzero => ?_) (by simp [hbit])
    have hone := getLsbD_twoPow k k (w := w)
    simp [hzero, BitVec.lt_of_getLsbD hbit] at hone
  · simp [hbit]

lemma getLsbD_andNot_one_shiftLeft (v : BitVec w) (k i : Nat) :
    (v &&& ~~~(1#w <<< k)).getLsbD i = (v.getLsbD i && !decide (i = k)) := by
  rcases lt_or_ge i w with hi | hi
  · rw [getLsbD_and, getLsbD_not, getLsbD_one_shiftLeft k hi, decide_eq_true hi, Bool.true_and]
  · rw [getLsbD_of_ge _ i hi, getLsbD_of_ge v i hi, Bool.false_and]

/-! ## Numbers in words -/

lemma ofNat_ushiftRight {n : Nat} (h : n < 2 ^ w) (k : Nat) :
    BitVec.ofNat w n >>> k = BitVec.ofNat w (n / 2 ^ k) := by
  apply eq_of_toNat_eq
  rw [toNat_ushiftRight, toNat_ofNat, toNat_ofNat, mod_eq_of_lt h,
    shiftRight_eq_div_pow, mod_eq_of_lt ((div_le_self _ _).trans_lt h)]

lemma ofNat_shiftLeft (n k : Nat) : BitVec.ofNat w n <<< k = BitVec.ofNat w (n * 2 ^ k) := by
  apply eq_of_toNat_eq
  rw [toNat_shiftLeft, toNat_ofNat, toNat_ofNat, Nat.shiftLeft_eq, mod_mul_mod]

lemma one_shiftLeft_sub_one {k : Nat} (hk : k < w) :
    (1#w <<< k) - 1#w = BitVec.ofNat w (2 ^ k - 1) := by
  rw [ofNat_shiftLeft, one_mul,
    ofNat_sub_ofNat_of_le _ _ (Nat.one_lt_two_pow (by omega)) Nat.one_le_two_pow]

/-- The bits of `n` ones moved up by `k`. -/
lemma getLsbD_rangeMask {n k i : Nat} (hn : n < w) (hi : i < w) :
    (((1#w <<< n) - 1#w) <<< k).getLsbD i = (decide (k ≤ i) && decide (i < k + n)) := by
  rw [one_shiftLeft_sub_one hn, getLsbD_shiftLeft, getLsbD_ofNat, testBit_two_pow_sub_one]
  grind

lemma ofNat_and_mask {n k : Nat} (h : n < 2 ^ w) (hk : k < w) :
    BitVec.ofNat w n &&& ((1#w <<< k) - 1#w) = BitVec.ofNat w (n % 2 ^ k) := by
  have hpow : 2 ^ k < 2 ^ w := Nat.pow_lt_pow_right (by decide) hk
  rw [one_shiftLeft_sub_one hk]
  apply eq_of_toNat_eq
  rw [toNat_and, toNat_ofNat, toNat_ofNat, toNat_ofNat,
    mod_eq_of_lt h, mod_eq_of_lt (by omega), and_two_pow_sub_one_eq_mod,
    mod_eq_of_lt ((mod_le _ _).trans_lt h)]

/-- The number of low zero bits of a word is the number of twos in it. -/
lemma two_pow_ctz_dvd (x : BitVec w) : 2 ^ x.ctz.toNat ∣ x.toNat := by
  refine dvd_of_mod_eq_zero (eq_of_testBit_eq fun j => ?_)
  rw [testBit_mod_two_pow, zero_testBit]
  by_cases hj : j < x.ctz.toNat
  · have hbit := getLsbD_false_of_lt_ctz hj
    rw [BitVec.getLsbD] at hbit
    rw [hbit, Bool.and_false]
  · simp [hj]

/-! ## Flag words -/

variable {m n x y : BitVec w}

/-- Setting flags outside a mask does not change what the mask reads. -/
lemma or_and_of_disjoint (h : y &&& m = 0#w) : (x ||| y) &&& m = x &&& m := by
  rw [and_or_distrib_right, h, or_zero]

lemma and_and_of_sub (h : m &&& n = n) : (x &&& m) &&& n = x &&& n := by
  rw [BitVec.and_assoc, h]

/-- Clearing flags outside a mask does not change what the mask reads. -/
lemma andNot_and_of_disjoint (h : ~~~m &&& n = n) : (x &&& ~~~m) &&& n = x &&& n :=
  and_and_of_sub h

/-- A mask that reads zero reads zero on every smaller mask. -/
lemma and_eq_zero_of_sub (hx : x &&& m = 0#w) (h : m &&& n = n) : x &&& n = 0#w := by
  rw [← and_and_of_sub h, hx, zero_and]

/-- Flags inside a mask that reads zero read zero. -/
lemma and_eq_zero_of_or_eq (hx : x &&& m = 0#w) (h : x ||| y = x) : y &&& m = 0#w := by
  rw [← h, and_or_distrib_right] at hx
  exact (or_eq_zero_iff.1 hx).2

/-- A word is its flags outside a mask together with its flags inside. -/
lemma andNot_or_and (x m : BitVec w) : (x &&& ~~~m) ||| (x &&& m) = x := by
  rw [← and_or_distrib_left, BitVec.or_comm, or_not_self, and_allOnes]

/-- Two words that agree outside a mask differ by the flags inside it. -/
lemma or_and_eq_of_or_eq (hy : y &&& m = 0#w) (h : x ||| m = y ||| m) : y ||| (x &&& m) = x := by
  ext i hi
  have hyi := congrArg (fun z : BitVec w => z[i]) hy
  have hxi := congrArg (fun z : BitVec w => z[i]) h
  simp only [getElem_and, getElem_or, BitVec.getElem_zero] at hyi hxi ⊢
  cases hm : m[i] <;> simp_all

end Drippu.Library
