import Drippu.Recomp.FpBody

/-!
# Recomp - Division

The text of FDIV moves both significands to the same place and produces the quotient bit by
bit.  A quotient below the normal range gets fewer bits.  The last remainder gives the bit
after the quotient and the sticky bit.

Main results:

- Theorem `divideValue_eq`: the text computes the architecture's quotient.
-/

namespace Drippu.RecompFp

open Library FloatFormat ArmFp GuardBits

/-! ## The text -/

/-- `mant <<= 1, rem <<= 1; if (rem >= mb) ++mant, rem -= mb`, for each bit. -/
def divideLoop (mb : Nat) : (bits : Nat) → (mant rem : Nat) → Nat × Nat
  | 0, mant, rem => (mant, rem)
  | bits + 1, mant, rem =>
    if rem <<< 1 ≥ mb then divideLoop mb bits ((mant <<< 1) + 1) ((rem <<< 1) - mb)
    else divideLoop mb bits (mant <<< 1) (rem <<< 1)

/-- The quotient of normalised significands, `bits` after its leading bit, with the next
bit and the sticky bit. -/
def quotient (bits : Int) (ma mb : Nat) : Nat × Bool × Bool :=
  let rem := ma - mb
  if bits ≥ 0 then
    let (mant, rem) := divideLoop mb bits.toNat 1 rem
    let rem := rem <<< 1
    let roundbit := decide (rem ≥ mb)
    let rem := if roundbit then rem - mb else rem
    (mant, roundbit, rem != 0)
  else (0, bits == -1, decide (bits < -1) || rem != 0)

variable (t : FloatFormat) (fpcr : Nat)

/-- The last branch of `EmitFPDivideValue`. -/
def divideFinite (negative : Bool) (a b : Nat) : Nat × Nat :=
  let ea := (a &&& t.exp) >>> t.f
  let eb := (b &&& t.exp) >>> t.f
  let ae : Int := if ea ≠ 0 then (ea : Int) - t.bias else 1 - t.bias
  let be : Int := if eb ≠ 0 then (eb : Int) - t.bias else 1 - t.bias
  let (ma, ae) := shiftWhile (fun m => decide (m < t.hidden)) t.f (mantissa t a) ae
  let (mb, be) := shiftWhile (fun m => decide (m < t.hidden)) t.f (mantissa t b) be
  let e := ae - be
  let (ma, e) := if ma < mb then (ma <<< 1, e - 1) else (ma, e)
  if e < t.emin ∧ fz fpcr then (if negative then t.sign else 0, 8)
  else
    let (mant, roundbit, sticky) := quotient (t.f + if e < t.emin then e - t.emin else 0) ma mb
    roundTail t (rmode fpcr) negative mant e roundbit sticky

/-- `EmitFPDivideValue`. -/
def divideValue (a b : Nat) : Nat × Nat :=
  let negative := ((a ^^^ b) &&& t.sign) != 0
  let (a, fa) := flushInput t fpcr a
  let (b, fb) := flushInput t fpcr b
  let ai := withoutSign t a == t.exp
  let bi := withoutSign t b == t.exp
  let az := withoutSign t a == 0
  let bz := withoutSign t b == 0
  let (v, flags) :=
    if isNaN t a || isNaN t b then nanResult t fpcr a b
    else if (ai && bi) || (az && bz) then (t.exp ||| t.quiet, 1)
    else if ai || bz then (t.exp ||| (if negative then t.sign else 0), if ai then 0 else 2)
    else if az || bi then (if negative then t.sign else 0, 0)
    else divideFinite t fpcr negative a b
  (v, fa ||| fb ||| flags)

/-! ## The quotient -/

lemma divideLoop_spec {mb n : Nat} (bits : Nat) {mant rem : Nat} (hn : mant * mb + rem = n)
    (hrem : rem < mb) :
    (divideLoop mb bits mant rem).1 * mb + (divideLoop mb bits mant rem).2 = n * 2 ^ bits ∧
      (divideLoop mb bits mant rem).2 < mb := by
  induction bits generalizing mant rem n with
  | zero => simpa [divideLoop] using ⟨hn, hrem⟩
  | succ bits ih =>
    rw [divideLoop, Nat.shiftLeft_eq, Nat.shiftLeft_eq, pow_one, pow_succ', ← mul_assoc]
    split
    · apply ih
      · have : (mant * 2 + 1) * mb = mant * mb * 2 + mb := by ring
        omega
      · omega
    · apply ih
      · rw [← hn]
        ring
      · omega

section
variable {K : Type*} [Field K] [LinearOrder K] [IsStrictOrderedRing K]

/-- The quotient of significands in the same binade and its guard bits. -/
lemma quotient_guardBits {ma mb : Nat} (hle : mb ≤ ma) (hlt : ma < 2 * mb) (bits : Int) :
    GuardBits ((ma : K) / mb * 2 ^ bits) (quotient bits ma mb).1 (quotient bits ma mb).2.1
      (quotient bits ma mb).2.2 := by
  have hmb : (0 : K) < mb := by exact_mod_cast (by omega : 0 < mb)
  rcases lt_trichotomy bits (-1) with hsmall | rfl | hbits
  · -- Below one half: nothing but the sticky bit is left.
    have hquot : quotient bits ma mb = (0, false, true) := by
      simp [quotient, show ¬0 ≤ bits by omega, hsmall, hsmall.ne]
    rw [hquot]
    have hpow : (2 : K) ^ bits ≤ 2 ^ (-2 : Int) := zpow_le_zpow_right₀ one_le_two (by omega)
    have hratio : (ma : K) / mb < 2 := by
      rw [div_lt_iff₀ hmb]
      exact_mod_cast hlt
    have hma : (0 : K) < ma := by exact_mod_cast (by omega : 0 < ma)
    apply of_lt_half (by positivity)
    calc (ma : K) / mb * 2 ^ bits < 2 * 2 ^ bits := mul_lt_mul_of_pos_right hratio (by positivity)
      _ ≤ 2 * 2 ^ (-2 : Int) := mul_le_mul_of_nonneg_left hpow two_pos.le
      _ = 1 / 2 := by norm_num
  · have hbits := of_quot (K := K) (show ma = 0 * (2 * mb) + ma by omega) hlt
    have hscaled : (ma : K) / mb * 2 ^ (-1 : Int) = ma / ((2 * mb : Nat) : K) := by
      push_cast
      field_simp
    have hquot : quotient (-1) ma mb =
        (0, decide (2 * mb ≤ 2 * ma), decide (2 * ma ≠ 0 ∧ 2 * ma ≠ 2 * mb)) := by
      simp only [quotient, show ¬(-1 : Int) ≥ 0 by decide, if_false, lt_irrefl, decide_false,
        Bool.false_or, beq_self_eq_true, Prod.mk.injEq, true_and]
      constructor
      · simpa using hle
      · rw [bne, Bool.eq_iff_iff]
        simp
        omega
    rw [hscaled, hquot]
    exact hbits
  · obtain ⟨n, rfl⟩ : ∃ n : Nat, bits = n := ⟨bits.toNat, by omega⟩
    have hstart : 1 * mb + (ma - mb) = ma := by omega
    obtain ⟨hn, hrem⟩ := divideLoop_spec n hstart (by omega)
    have hbits := of_quot (K := K) hn.symm hrem
    have hscaled : (ma : K) / mb * 2 ^ (n : Int) = ((ma * 2 ^ n : Nat) : K) / mb := by
      rw [zpow_natCast]
      push_cast
      ring
    have hround : ∀ rem : Nat, decide (rem <<< 1 ≥ mb) = decide (mb ≤ 2 * rem) := by
      intro rem
      rw [Nat.shiftLeft_eq, mul_comm]
    have hsticky : ∀ rem : Nat,
        ((if decide (mb ≤ 2 * rem) then (rem <<< 1) - mb else rem <<< 1) != 0) =
          decide (2 * rem ≠ 0 ∧ 2 * rem ≠ mb) := by
      intro rem
      rw [Nat.shiftLeft_eq, Bool.eq_iff_iff, bne_iff_ne]
      by_cases h : mb ≤ 2 * rem <;> simp [h] <;> omega
    have hquot : quotient n ma mb =
        ((divideLoop mb n 1 (ma - mb)).1, decide (mb ≤ 2 * (divideLoop mb n 1 (ma - mb)).2),
          decide (2 * (divideLoop mb n 1 (ma - mb)).2 ≠ 0 ∧
            2 * (divideLoop mb n 1 (ma - mb)).2 ≠ mb)) := by
      rw [quotient, if_pos (by omega), Int.toNat_natCast, ← hsticky, ← hround]
    rw [hscaled, hquot]
    exact hbits

end

/-! ## Finite operands -/

variable {t fpcr}

/-- The end of the text rounds the quotient of its operands. -/
lemma divideFinite_eq {a b : Nat} (ha : 0 < t.significand a) (hb : 0 < t.significand b) :
    divideFinite t fpcr (t.negative a ^^ t.negative b) a b =
      fpRound t (control fpcr) (t.value ℚ a / t.value ℚ b) := by
  obtain ⟨ma, ae, hna, hla, hua, hva, -⟩ := exists_normalised ℚ ha
  obtain ⟨mb, be, hnb, hlb, hub, hvb, -⟩ := exists_normalised ℚ hb
  have htwo : (2 : ℚ) ≠ 0 := two_ne_zero
  have hx : t.value ℚ a / t.value ℚ b ≠ 0 := div_ne_zero (value_ne_zero ha) (value_ne_zero hb)
  have hnegative : (t.negative a ^^ t.negative b) = decide (t.value ℚ a / t.value ℚ b < 0) := by
    have hpos : 0 < t.magnitude ℚ a / t.magnitude ℚ b :=
      div_pos (magnitude_pos ha) (magnitude_pos hb)
    cases hsa : t.negative a <;> cases hsb : t.negative b <;>
      simp [value, hsa, hsb, neg_div, div_neg, hpos, hpos.le]
  -- The significands in the same binade, and the exponent of the quotient.
  obtain ⟨n, e, hadjust, hle, hlt, habs⟩ : ∃ (n : Nat) (e : Int),
      (if ma < mb then (ma <<< 1, ae - be - 1) else (ma, ae - be)) = (n, e) ∧
        mb ≤ n ∧ n < 2 * mb ∧ |t.value ℚ a / t.value ℚ b| = n / mb * 2 ^ e := by
    have hquot : |t.value ℚ a / t.value ℚ b| = ma / mb * 2 ^ (ae - be) := by
      rw [abs_div, abs_value, abs_value, hva, hvb, zpow_sub₀ htwo, zpow_sub₀ htwo, zpow_sub₀ htwo]
      field_simp
    rw [hquot]
    by_cases h : ma < mb
    · refine ⟨ma <<< 1, ae - be - 1, by rw [if_pos h], ?_, ?_, ?_⟩
      · omega
      · omega
      · rw [Nat.shiftLeft_eq, zpow_sub_one₀ htwo]
        push_cast
        field_simp
    · exact ⟨ma, ae - be, by rw [if_neg h], by omega, by omega, rfl⟩
  have hlog : Int.log 2 |t.value ℚ a / t.value ℚ b| = e := by
    have hmb : (0 : ℚ) < mb := by
      exact_mod_cast (by omega : 0 < mb)
    have hone : 1 ≤ (n : ℚ) / mb := by
      rw [le_div_iff₀ hmb, one_mul]
      exact_mod_cast hle
    have hbelow : (n : ℚ) / mb < 2 := by
      rw [div_lt_iff₀ hmb]
      exact_mod_cast hlt
    rw [habs]
    apply log_eq
    · exact le_mul_of_one_le_left (by positivity) hone
    · rw [zpow_add_one₀ htwo, mul_comm]
      exact mul_lt_mul_of_pos_left hbelow (by positivity)
  rw [divideFinite]
  simp only [exponent_eq, mantissa_eq, hna, hnb, hadjust]
  by_cases hflush : e < t.emin ∧ fz fpcr = true
  · rw [if_pos hflush, fpRound_flush hlog hflush, ← hnegative]
    rfl
  rw [if_neg hflush]
  apply roundTail_eq hx hnegative hlog hflush
  rw [habs, mul_assoc, ← zpow_add₀ htwo]
  have hbits : e + ((t.f : Int) - max e t.emin) =
      t.f + if e < t.emin then e - t.emin else 0 := by
    split <;> omega
  rw [hbits]
  exact quotient_guardBits hle hlt _

/-! ## All operands -/

lemma divideWords_eq (hwidth : t.f + t.w < 64) {a b : Nat} (ha : t.Word a) (hb : t.Word b) :
    divideValue t fpcr a b = fpDiv t (control fpcr) a b := by
  have hwa := word_flushInput fpcr ha
  have hwb := word_flushInput fpcr hb
  rw [divideValue, fpDiv, xor_and_sign, fpUnpack_eq, fpUnpack_eq,
    ← negative_flushInput fpcr a, ← negative_flushInput fpcr b]
  simp only []
  rw [fpProcessNaNs_pair flushInput_eq_of_isNaN flushInput_eq_of_isNaN]
  revert hwa hwb
  generalize flushInput t fpcr a = p
  generalize flushInput t fpcr b = q
  obtain ⟨a, fa⟩ := p
  obtain ⟨b, fb⟩ := q
  intro hwa hwb
  apply congrArg (raise (fa ||| fb))
  simp only [ArmFp.Unpacked.isInf, ArmFp.Unpacked.isZero, withoutSign_beq_exp hwidth hwa,
    withoutSign_beq_exp hwidth hwb, withoutSign_beq_zero hwidth hwa,
    withoutSign_beq_zero hwidth hwb, fpInfinity_eq, fpDefaultNaN_eq, Bool.or_eq_true,
    Bool.and_eq_true, decide_eq_true_eq]
  by_cases hnan : isNaN t a = true ∨ isNaN t b = true
  · rw [if_pos hnan, if_pos hnan]
  rw [if_neg hnan, if_neg hnan]
  by_cases hinvalid : (fpType t a = .infinity ∧ fpType t b = .infinity) ∨
      (fpType t a = .zero ∧ fpType t b = .zero)
  · rw [if_pos hinvalid, if_pos hinvalid]
    rfl
  rw [if_neg hinvalid, if_neg hinvalid]
  by_cases hinf : fpType t a = .infinity ∨ fpType t b = .zero
  · rw [if_pos hinf, if_pos hinf]
    rfl
  rw [if_neg hinf, if_neg hinf]
  by_cases hzero : fpType t a = .zero ∨ fpType t b = .infinity
  · rw [if_pos hzero, if_pos hzero]
    rfl
  rw [if_neg hzero, if_neg hzero]
  rw [not_or] at hinf hzero
  exact divideFinite_eq (significand_pos hzero.1) (significand_pos hinf.2)

/-- FDIV, for both widths, all operands and every FPCR: the exact quotient, rounded once, with
the special cases and the exceptions of the architecture. -/
theorem divideValue_eq (dbl : Bool) (fpcr : Nat)
    (a b : BitVec ((format dbl).f + (format dbl).w + 1)) :
    divideValue (format dbl) fpcr a.toNat b.toNat =
      fpDiv (format dbl) (control fpcr) a.toNat b.toNat := by
  apply divideWords_eq
  · cases dbl <;> decide
  · exact a.isLt
  · exact b.isLt

end Drippu.RecompFp
