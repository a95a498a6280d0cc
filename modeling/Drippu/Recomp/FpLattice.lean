import Drippu.Recomp.FpBody
import Drippu.Recomp.FpScan

/-!
# Recomp - The exact accumulator

The texts of the fused multiply-add and of the step instructions share an accumulator: an array
of words whose lowest bit stands for the least power of two that a product can have.  The
product of two significands is formed from 32-bit halves and written at its place; once the
other term is added to it or taken from it, the result is read from the leading bit down and
rounded.
-/

namespace Drippu.RecompFp

open Library FloatFormat ArmFp Library.Words Nat

/-! ## The texts -/

/-- `_lo` and `_hi`. -/
def product (ma mb : BitVec 64) : BitVec 64 × BitVec 64 :=
  let a0 := ma &&& 0xffffffff#64
  let a1 := ma >>> 32
  let b0 := mb &&& 0xffffffff#64
  let b1 := mb >>> 32
  let lo := a0 * b0
  let x := a0 * b1
  let y := a1 * b0
  let hi := a1 * b1 + (x >>> 32) + (y >>> 32)
  let old := lo
  let lo := lo + (x <<< 32)
  let hi := hi + (if lo < old then 1#64 else 0#64)
  let old := lo
  let lo := lo + (y <<< 32)
  let hi := hi + (if lo < old then 1#64 else 0#64)
  (lo, hi)

/-- `_count`. -/
def latticeCount (dbl : Bool) : Nat := if dbl then 67 else 9

/-- `_base`. -/
def latticeBase (dbl : Bool) : Int := if dbl then -2148 else -298

section
variable (t : FloatFormat)

/-- `_ea?_ea-1:0`. -/
def placeOf (a : Nat) : Nat :=
  let ea := (a &&& t.exp) >>> t.f
  if ea ≠ 0 then ea - 1 else 0

/-- The product of the significands in `_p`. -/
def productWords (count a b : Nat) : Words 64 :=
  let (lo, hi) := product (BitVec.ofNat 64 (mantissa t a)) (BitVec.ofNat 64 (mantissa t b))
  placePair lo hi (placeOf t a + placeOf t b) count

/-- The text from the scan for the leading bit.  `zeroNegative` is the sign of an exact
zero. -/
def latticeRound (fpcr : Nat) (base : Int) (count : Nat) (negative zeroNegative : Bool)
    (p : Words 64) : Nat × Nat :=
  let top := recompFpTopBit p count
  if top < 0 then (if zeroNegative then t.sign else 0, 0)
  else
    let e := top + base
    if e < t.emin ∧ fz fpcr then (if negative then t.sign else 0, 8)
    else
      let cut := top - t.f
      let mincut := t.emin - t.f - base
      let cut := if cut < mincut then mincut else cut
      let mant := window p count (cut.toNat / 64) (cut.toNat % 64)
      let roundbit := ((p ((cut - 1).toNat / 64) >>> ((cut - 1).toNat % 64)) &&& 1#64) != 0#64
      let sticky := recompFpSticky p count cut
      roundTail t (rmode fpcr) negative mant.toNat e roundbit sticky

end

/-! ## The product -/

lemma toNat_halves (m : BitVec 64) :
    (m &&& 0xffffffff#64).toNat = m.toNat % 2 ^ 32 ∧ (m >>> 32).toNat = m.toNat / 2 ^ 32 := by
  constructor
  · exact and_two_pow_sub_one_eq_mod _ 32
  · rw [BitVec.toNat_ushiftRight, shiftRight_eq_div_pow]

lemma mul_half_lt {x y : Nat} (hx : x < 2 ^ 32) (hy : y < 2 ^ 32) :
    x * y ≤ (2 ^ 32 - 1) * (2 ^ 32 - 1) :=
  Nat.mul_le_mul (by omega) (by omega)

lemma toNat_ite_one (c : Prop) [Decidable c] :
    (if c then 1#64 else 0#64).toNat = (decide c).toNat := by
  by_cases h : c <;> simp [h]

lemma product_eq (ma mb : BitVec 64) :
    (product ma mb).1.toNat + (product ma mb).2.toNat * 2 ^ 64 = ma.toNat * mb.toNat := by
  obtain ⟨ha0, ha1⟩ := toNat_halves ma
  obtain ⟨hb0, hb1⟩ := toNat_halves mb
  have hma := ma.isLt
  have hmb := mb.isLt
  rw [product]
  revert ha0 ha1 hb0 hb1
  generalize ma &&& 0xffffffff#64 = a0
  generalize ma >>> 32 = a1
  generalize mb &&& 0xffffffff#64 = b0
  generalize mb >>> 32 = b1
  intro ha0 ha1 hb0 hb1
  have h00 := mul_half_lt (x := a0.toNat) (y := b0.toNat) (by omega) (by omega)
  have h01 := mul_half_lt (x := a0.toNat) (y := b1.toNat) (by omega) (by omega)
  have h10 := mul_half_lt (x := a1.toNat) (y := b0.toNat) (by omega) (by omega)
  have h11 := mul_half_lt (x := a1.toNat) (y := b1.toNat) (by omega) (by omega)
  have hexact : ma.toNat * mb.toNat = a0.toNat * b0.toNat +
      2 ^ 32 * (a0.toNat * b1.toNat) + 2 ^ 32 * (a1.toNat * b0.toNat) +
      2 ^ 64 * (a1.toNat * b1.toNat) := by
    have hsplita : ma.toNat = a0.toNat + 2 ^ 32 * a1.toNat := by omega
    have hsplitb : mb.toNat = b0.toNat + 2 ^ 32 * b1.toNat := by omega
    rw [hsplita, hsplitb]
    ring
  rw [hexact]
  have hlo : (a0 * b0).toNat = a0.toNat * b0.toNat := by
    rw [BitVec.toNat_mul, mod_eq_of_lt (by omega)]
  have hx : (a0 * b1).toNat = a0.toNat * b1.toNat := by
    rw [BitVec.toNat_mul, mod_eq_of_lt (by omega)]
  have hy : (a1 * b0).toNat = a1.toNat * b0.toNat := by
    rw [BitVec.toNat_mul, mod_eq_of_lt (by omega)]
  have hhi : (a1 * b1).toNat = a1.toNat * b1.toNat := by
    rw [BitVec.toNat_mul, mod_eq_of_lt (by omega)]
  rw [← hlo] at h00 ⊢
  rw [← hx] at h01 ⊢
  rw [← hy] at h10 ⊢
  rw [← hhi] at h11 ⊢
  generalize a0 * b0 = lo at *
  generalize a0 * b1 = x at *
  generalize a1 * b0 = y at *
  generalize a1 * b1 = hi at *
  have hx32 : (x >>> 32).toNat = x.toNat / 2 ^ 32 := (toNat_halves x).2
  have hy32 : (y >>> 32).toNat = y.toNat / 2 ^ 32 := (toNat_halves y).2
  have hxs : (x <<< 32).toNat = x.toNat % 2 ^ 32 * 2 ^ 32 := by
    rw [BitVec.toNat_shiftLeft, shiftLeft_eq]
    omega
  have hys : (y <<< 32).toNat = y.toNat % 2 ^ 32 * 2 ^ 32 := by
    rw [BitVec.toNat_shiftLeft, shiftLeft_eq]
    omega
  have hfirst := toNat_add_carry lo (x <<< 32)
  have hsecond := toNat_add_carry (lo + (x <<< 32)) (y <<< 32)
  generalize lo + (x <<< 32) = lo1 at *
  generalize lo1 + (y <<< 32) = lo2 at *
  have hc1 := toNat_ite_one (lo1 < lo)
  have hc2 := toNat_ite_one (lo2 < lo1)
  -- The upper word does not overflow.
  have hs1 : (hi + (x >>> 32)).toNat = hi.toNat + x.toNat / 2 ^ 32 := by
    rw [BitVec.toNat_add_of_lt (by omega), hx32]
  have hs2 : (hi + (x >>> 32) + (y >>> 32)).toNat =
      hi.toNat + x.toNat / 2 ^ 32 + y.toNat / 2 ^ 32 := by
    rw [BitVec.toNat_add_of_lt (by omega), hs1, hy32]
  have hs3 : (hi + (x >>> 32) + (y >>> 32) + (if lo1 < lo then 1#64 else 0#64)).toNat =
      hi.toNat + x.toNat / 2 ^ 32 + y.toNat / 2 ^ 32 + (decide (lo1 < lo)).toNat := by
    rw [BitVec.toNat_add_of_lt (by omega), hs2, hc1]
  have hhigh : (hi + (x >>> 32) + (y >>> 32) + (if lo1 < lo then 1#64 else 0#64) +
      (if lo2 < lo1 then 1#64 else 0#64)).toNat =
      hi.toNat + x.toNat / 2 ^ 32 + y.toNat / 2 ^ 32 + (decide (lo1 < lo)).toNat +
        (decide (lo2 < lo1)).toNat := by
    rw [BitVec.toNat_add_of_lt (by omega), hs3, hc2]
  have hxsplit := div_add_mod x.toNat (2 ^ 32)
  have hysplit := div_add_mod y.toNat (2 ^ 32)
  linarith

section
variable {t : FloatFormat}

lemma placeOf_eq (a : Nat) : placeOf t a + 1 = fieldOrOne t a := by
  rw [placeOf, fieldOrOne, and_exp_shiftRight]
  by_cases h : t.biased a = 0
  · simp [h]
  · simp only [h, ne_eq, not_false_eq_true, if_true, if_false]
    omega

lemma magnitude_eq_place (a : Nat) :
    t.magnitude ℚ a = (t.significand a * 2 ^ placeOf t a : Nat) * 2 ^ (t.emin - t.f) := by
  have htwo : (2 : ℚ) ≠ 0 := two_ne_zero
  have hexp : (fieldOrOne t a : Int) - t.bias - t.f = placeOf t a + (t.emin - t.f) := by
    rw [← placeOf_eq, emin]
    push_cast
    ring
  rw [magnitude_eq, hexp, zpow_add₀ htwo, zpow_natCast]
  push_cast
  ring

lemma magnitude_mul (a b : Nat) :
    t.magnitude ℚ a * t.magnitude ℚ b =
      (t.significand a * t.significand b * 2 ^ (placeOf t a + placeOf t b) : Nat) *
        2 ^ (2 * (t.emin - t.f)) := by
  rw [magnitude_eq_place, magnitude_eq_place, two_mul, zpow_add₀ two_ne_zero]
  push_cast
  ring

lemma toNat_mantissa (hf : t.f < 63) (a : Nat) :
    (BitVec.ofNat 64 (mantissa t a)).toNat = t.significand a := by
  have hlt := t.significand_lt a
  have hpow : 2 ^ (t.f + 1) ≤ 2 ^ 64 := Nat.pow_le_pow_right (by decide) (by omega)
  rw [mantissa_eq, BitVec.toNat_ofNat, mod_eq_of_lt (by omega)]

/-- The product is at its place in the accumulator. -/
lemma value_productWords (hf : t.f < 63) {count a b : Nat}
    (hcount : (placeOf t a + placeOf t b) / 64 + 1 < count)
    (hfit : t.significand a * t.significand b * 2 ^ (placeOf t a + placeOf t b) <
      2 ^ (64 * count)) :
    value (productWords t count a b) count =
      t.significand a * t.significand b * 2 ^ (placeOf t a + placeOf t b) := by
  have hproduct := product_eq (BitVec.ofNat 64 (mantissa t a)) (BitVec.ofNat 64 (mantissa t b))
  rw [toNat_mantissa hf, toNat_mantissa hf] at hproduct
  rw [← hproduct] at hfit ⊢
  exact value_placePair (by decide) _ _ hcount hfit

/-! ## The size of the accumulator -/

/-- What `count` words have to hold: the product of two finite significands at its place,
an addend, and their sum. -/
structure Fits (t : FloatFormat) (count : Nat) : Prop where
  f_lt : t.f < 63
  product_lt : 2 * (2 ^ t.w - 3) / 64 + 1 < count
  addend_lt : (2 ^ t.w - 3 + t.bias + t.f - 1) / 64 + 1 < count
  room : 2 * (2 ^ t.w - 3 + t.f + 1) + 1 ≤ 64 * count

lemma placeOf_le {a : Nat} (ha : t.biased a ≠ 2 ^ t.w - 1) : placeOf t a ≤ 2 ^ t.w - 3 := by
  have hlt := biased_lt (t := t) a
  rw [placeOf, and_exp_shiftRight]
  split <;> omega

lemma fits (dbl : Bool) : Fits (format dbl) (latticeCount dbl) := by
  cases dbl <;> constructor <;> decide

namespace Fits

variable {count : Nat}

lemma value_product (h : Fits t count) {a b : Nat} (ha : t.biased a ≠ 2 ^ t.w - 1)
    (hb : t.biased b ≠ 2 ^ t.w - 1) :
    value (productWords t count a b) count =
        t.significand a * t.significand b * 2 ^ (placeOf t a + placeOf t b) ∧
      2 * value (productWords t count a b) count < 2 ^ (64 * count) := by
  have hpa := placeOf_le ha
  have hpb := placeOf_le hb
  have hroom := h.room
  have hbound : 2 * (t.significand a * t.significand b * 2 ^ (placeOf t a + placeOf t b)) <
      2 ^ (64 * count) := by
    have hsig : t.significand a * t.significand b < 2 ^ (t.f + 1) * 2 ^ (t.f + 1) :=
      Nat.mul_lt_mul'' (t.significand_lt a) (t.significand_lt b)
    calc 2 * (t.significand a * t.significand b * 2 ^ (placeOf t a + placeOf t b))
        < 2 * (2 ^ (t.f + 1) * 2 ^ (t.f + 1) * 2 ^ (placeOf t a + placeOf t b)) := by
          apply Nat.mul_lt_mul_of_pos_left _ (by decide)
          exact Nat.mul_lt_mul_of_pos_right hsig (Nat.two_pow_pos _)
      _ = 2 ^ (1 + (t.f + 1 + (t.f + 1) + (placeOf t a + placeOf t b))) := by
          rw [pow_add 2 1, pow_add 2 (t.f + 1 + (t.f + 1)), pow_add 2 (t.f + 1),
            pow_one]
      _ ≤ 2 ^ (64 * count) := Nat.pow_le_pow_right (by decide) (by omega)
  have hcount : (placeOf t a + placeOf t b) / 64 + 1 < count := by
    have hlt := h.product_lt
    omega
  rw [value_productWords h.f_lt hcount (by omega)]
  exact ⟨rfl, hbound⟩

end Fits

/-! ## The rounding -/

lemma bit_eq (p : Words 64) {count c : Nat} (hc : c / 64 < count) :
    (((p (c / 64) >>> (c % 64)) &&& 1#64) != 0#64) = (value p count).testBit c := by
  have hbit := testBit_value p count (k := c / 64) (mod_lt c (show 0 < 64 by decide))
  rw [div_add_mod, decide_eq_true hc, Bool.true_and] at hbit
  have hone := shiftRight_and_one_bne (p (c / 64)).toNat (c % 64)
  rw [hbit, ← BitVec.testBit_toNat, ← hone, Bool.eq_iff_iff, bne_iff_ne, bne_iff_ne]
  apply not_congr
  rw [BitVec.toNat_eq, BitVec.toNat_and, BitVec.toNat_ushiftRight]
  rfl

/-- The text rounds the number of the accumulator, in units of `2^base`, with its sign. -/
lemma latticeRound_eq (hf : t.f < 63) {base : Int} {count : Nat}
    (hlow : 1 ≤ t.emin - t.f - base) (hhigh : t.emin - t.f - base < 64 * count) (fpcr : Nat)
    (negative zeroNegative : Bool) (p : Words 64) :
    latticeRound t fpcr base count negative zeroNegative p =
      if value p count = 0 then (fpZero t zeroNegative, 0)
      else fpRound t (control fpcr) (withSign negative (value p count * 2 ^ base)) := by
  have htwo : (2 : ℚ) ≠ 0 := two_ne_zero
  rw [latticeRound]
  rcases recompFpTopBit_spec p count with ⟨hzero, htop⟩ | ⟨top, htop, hle, hlt⟩
  · rw [htop, if_pos (by decide), if_pos hzero]
    rfl
  have hvalue := value_lt p count
  have hpos : 0 < value p count := lt_of_lt_of_le (Nat.two_pow_pos _) hle
  have htoplt : top < 64 * count := by
    by_contra h
    have := Nat.pow_le_pow_right (show 0 < 2 by decide) (not_lt.1 h)
    omega
  have hv : (0 : ℚ) < value p count * 2 ^ base := by positivity
  have hne : withSign negative (value p count * 2 ^ base) ≠ 0 := by
    rw [← abs_pos, abs_withSign hv.le]
    exact hv
  have hlog : Int.log 2 |withSign negative (value p count * 2 ^ base)| = top + base := by
    rw [abs_withSign hv.le]
    exact log_natCast_mul hle hlt base
  have hsign := withSign_neg_iff hv negative
  rw [htop, if_neg (by omega), if_neg hpos.ne']
  dsimp only
  by_cases hflush : (top : Int) + base < t.emin ∧ fz fpcr = true
  · rw [if_pos hflush, fpRound_flush hlog hflush, ← hsign]
    rfl
  rw [if_neg hflush]
  -- The position below which the bits are rounded off.
  obtain ⟨c, hc⟩ : ∃ c : Nat, (if (top : Int) - t.f < t.emin - t.f - base then
      t.emin - t.f - base else (top : Int) - t.f) = ((c + 1 : Nat) : Int) := by
    refine ⟨(max ((top : Int) - t.f) (t.emin - t.f - base)).toNat - 1, ?_⟩
    split <;> omega
  have hcut : (t.f : Int) - max (top + base) t.emin + base = -((c + 1 : Nat) : Int) := by
    rw [← hc]
    split <;> omega
  have hc' : ((c + 1 : Nat) : Int) - 1 = c := by
    push_cast
    ring
  rw [hc, hc', Int.toNat_natCast, Int.toNat_natCast, bit_eq p (show c / 64 < count by omega),
    recompFpSticky_eq, toNat_window p (by omega) (mod_lt _ (by decide)), div_add_mod]
  have hmant : value p count / 2 ^ (c + 1) % 2 ^ 64 = value p count / 2 ^ (c + 1) := by
    apply mod_eq_of_lt
    rw [Nat.div_lt_iff_lt_mul (Nat.two_pow_pos _), ← pow_add]
    exact lt_of_lt_of_le hlt (Nat.pow_le_pow_right (by decide) (by omega))
  rw [hmant]
  apply roundTail_eq hne hsign hlog hflush
  rw [abs_withSign hv.le, mul_assoc, ← zpow_add₀ htwo, add_comm, hcut, zpow_neg, zpow_natCast,
    ← div_eq_mul_inv]
  exact GuardBits.of_two_pow _ _

end
end Drippu.RecompFp
