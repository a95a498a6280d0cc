import Mathlib.Tactic

/-!
# Library - Addition with carry

Addition of two machine words and a carry, with the four condition flags: the sign and the
zero of the result, the carry out of the unsigned sum and the overflow of the signed sum.
The flags are defined by comparing the result with the exact sums; the lemmas say how they
are computed from the words alone.
-/

namespace Drippu.Library

open BitVec

/-- The condition flags. -/
structure Nzcv where
  n : Bool
  z : Bool
  c : Bool
  v : Bool
  deriving DecidableEq, Repr

variable {w : Nat}

/-- The sum of two words and a carry, and its flags. -/
def addWithCarry (x y : BitVec w) (carryIn : Bool) : BitVec w × Nzcv :=
  let unsignedSum := x.toNat + y.toNat + carryIn.toNat
  let signedSum := x.toInt + y.toInt + carryIn.toNat
  let result := BitVec.ofNat w unsignedSum
  (result,
    { n := result.msb
      z := result == 0#w
      c := result.toNat != unsignedSum
      v := result.toInt != signedSum })

variable (x y : BitVec w) (carryIn : Bool)

lemma addWithCarry_result :
    (addWithCarry x y carryIn).1 = x + y + BitVec.ofNat w carryIn.toNat := by
  rw [addWithCarry, ofNat_add, ofNat_add, ofNat_toNat, ofNat_toNat, setWidth_eq, setWidth_eq]

lemma addWithCarry_toNat :
    (addWithCarry x y carryIn).1.toNat = x.toNat + y.toNat + carryIn.toNat ∨
      (addWithCarry x y carryIn).1.toNat + 2 ^ w = x.toNat + y.toNat + carryIn.toNat := by
  have hc : carryIn.toNat ≤ 1 := carryIn.toNat_le
  change (BitVec.ofNat w _).toNat = _ ∨ (BitVec.ofNat w _).toNat + 2 ^ w = _
  rw [toNat_ofNat]
  rcases lt_or_ge (x.toNat + y.toNat + carryIn.toNat) (2 ^ w) with hlt | hge
  · exact .inl (Nat.mod_eq_of_lt hlt)
  · rw [Nat.mod_eq_sub_mod hge, Nat.mod_eq_of_lt (by omega)]
    omega

lemma addWithCarry_carry :
    (addWithCarry x y carryIn).2.c =
      (decide ((addWithCarry x y carryIn).1 < x) ||
        carryIn && (addWithCarry x y carryIn).1 == x) := by
  have hsum := addWithCarry_toNat x y carryIn
  change ((addWithCarry x y carryIn).1.toNat != x.toNat + y.toNat + carryIn.toNat) = _
  rw [Bool.eq_iff_iff]
  simp only [bne_iff_ne, Bool.or_eq_true, Bool.and_eq_true, decide_eq_true_eq, beq_iff_eq,
    lt_def, ← toNat_inj]
  cases carryIn <;> simp only [Bool.toNat_false, Bool.toNat_true, Bool.false_eq_true, false_and,
    or_false, true_and] at hsum ⊢ <;> omega

lemma addWithCarry_overflow (hw : 0 < w) :
    (addWithCarry x y carryIn).2.v =
      (~~~(x ^^^ y) &&& (x ^^^ (addWithCarry x y carryIn).1)).msb := by
  have hsum := addWithCarry_toNat x y carryIn
  have hr := (addWithCarry x y carryIn).1.isLt
  have hc : carryIn.toNat ≤ 1 := carryIn.toNat_le
  have hpow : 2 ^ w = 2 * 2 ^ (w - 1) := by
    rw [← pow_succ']
    congr 1
    omega
  change ((addWithCarry x y carryIn).1.toInt != x.toInt + y.toInt + carryIn.toNat) = _
  generalize (addWithCarry x y carryIn).1 = r at hsum hr
  -- both sides are decided by the three signs
  simp only [msb_and, msb_not, msb_xor, hw, decide_true, Bool.true_and]
  rw [Bool.eq_iff_iff, bne_iff_ne, toInt_eq_msb_cond, toInt_eq_msb_cond, toInt_eq_msb_cond]
  have hxm := msb_eq_decide x
  have hym := msb_eq_decide y
  have hrm := msb_eq_decide r
  cases hxs : x.msb <;> cases hys : y.msb <;> cases hrs : r.msb <;>
    simp only [hxs, hys, hrs, Bool.false_eq, Bool.true_eq, decide_eq_true_eq,
      decide_eq_false_iff_not] at hxm hym hrm <;>
    simp only [Bool.false_eq_true, if_true, if_false, Bool.xor_self, Bool.false_xor,
      Bool.xor_false, Bool.not_true, Bool.not_false, Bool.and_true, Bool.and_false, iff_true,
      iff_false, Decidable.not_not, ne_eq] <;>
    omega

/-- Subtraction adds the inverted word and a carry. -/
lemma addWithCarry_not : (addWithCarry x (~~~y) true).1 = x - y := by
  rw [addWithCarry_result, BitVec.sub_eq_add_neg, neg_eq_not_add, Bool.toNat_true, BitVec.add_assoc]

lemma addWithCarry_not_carry : (addWithCarry x (~~~y) true).2.c = decide (y ≤ x) := by
  have hsum := addWithCarry_toNat x (~~~y) true
  change ((addWithCarry x (~~~y) true).1.toNat != x.toNat + (~~~y).toNat + true.toNat) = _
  rw [toNat_not, Bool.toNat_true] at hsum ⊢
  rw [Bool.eq_iff_iff, bne_iff_ne, decide_eq_true_eq, le_def]
  omega

lemma addWithCarry_not_overflow (hw : 0 < w) :
    (addWithCarry x (~~~y) true).2.v = ((x ^^^ y) &&& (x ^^^ (x - y))).msb := by
  rw [addWithCarry_overflow x (~~~y) true hw, addWithCarry_not]
  congr 2
  ext i hi
  simp

end Drippu.Library
