import Drippu.Recomp.ArmFp

/-!
# Recomp - Floating-point bodies

The exact floating-point texts of the emitter are integer programs over the bits of their
operands, one text for each width.  This module has what the texts repeat: the constants of
a format, the fields of FPCR, the treatment of subnormal operands and of not-a-numbers, and
the end of a text, which rounds a significand with its two guard bits.

A body returns the bits of its result and the exception bits that it sets in FPSR.  The
significands of a text stay below `2^58`, so that no shift of them leaves 64 bits; the
texts whose words do wrap around are modelled with the remainder.
-/

namespace Drippu.RecompFp

open Library FloatFormat ArmFp Nat

/-- The formats of the S and D registers. -/
def format (dbl : Bool) : FloatFormat :=
  if dbl then ⟨52, 11, by decide, by decide⟩ else ⟨23, 8, by decide, by decide⟩

/-! ## The fields of FPCR -/

def fz (fpcr : Nat) : Bool := (fpcr &&& (1 <<< 24)) != 0

def dn (fpcr : Nat) : Bool := (fpcr &&& (1 <<< 25)) != 0

def rmode (fpcr : Nat) : Nat := (fpcr >>> 22) &&& 3

/-- Whether an overflow goes to infinity. -/
def toInf (mode : Nat) (negative : Bool) : Bool :=
  mode == 0 || (mode == 1 && !negative) || (mode == 2 && negative)

variable (negative : Bool) {mode : Nat} (fpcr a : Nat)

lemma control_fz : (control fpcr).fz = fz fpcr := by
  rw [fz, one_shiftLeft, and_two_pow, ArmFp.control]
  cases fpcr.testBit 24 <;> rfl

lemma control_dn : (control fpcr).dn = dn fpcr := by
  rw [dn, one_shiftLeft, and_two_pow, ArmFp.control]
  cases fpcr.testBit 25 <;> rfl

lemma control_rounding : (control fpcr).rounding = decodeRounding (rmode fpcr) := by
  rw [rmode, and_two_pow_sub_one_eq_mod _ 2, shiftRight_eq_div_pow]
  rfl

lemma rmode_lt : rmode fpcr < 4 := by
  rw [rmode, and_two_pow_sub_one_eq_mod _ 2]
  exact mod_lt _ (by decide)

lemma toInf_eq (hmode : mode < 4) (negative : Bool) :
    toInf mode negative = (decodeRounding mode).overflowToInf negative := by
  match mode, hmode with
  | 0, _ | 1, _ | 2, _ | 3, _ => cases negative <;> rfl

lemma decide_negInf : decide ((control fpcr).rounding = .negInf) = (rmode fpcr == 2) := by
  have hmode := rmode_lt fpcr
  rw [control_rounding]
  match rmode fpcr, hmode with
  | 0, _ | 1, _ | 2, _ | 3, _ => rfl

/-! ## Operands -/

section
variable (t : FloatFormat) (fpcr a b : Nat)

/-- `if (!(a & exp) && (a & frac)) a &= sign, fpsr |= 128`, when FZ is set. -/
def flushInput : Nat × Nat :=
  if fz fpcr ∧ a &&& t.exp = 0 ∧ a &&& t.frac ≠ 0 then (a &&& t.sign, 128) else (a, 0)

/-- `(a & exp) == exp && (a & frac)`. -/
def isNaN : Bool := (a &&& t.exp) == t.exp && (a &&& t.frac) != 0

/-- A not-a-number without the quiet bit. -/
def isSNaN : Bool := isNaN t a && (a &&& t.quiet) == 0

/-- `a & ~sign`, on 64 bits. -/
def withoutSign : Nat := a &&& (2 ^ 64 - 1 - t.sign)

/-- The result when one of two operands is a not-a-number. -/
def nanResult : Nat × Nat :=
  (if dn fpcr then t.exp ||| t.quiet
    else (if isSNaN t a then a else if isSNaN t b then b else if isNaN t a then a else b) |||
      t.quiet,
    if isSNaN t a || isSNaN t b then 1 else 0)

/-- `(a & frac) | (ea ? hidden : 0)`. -/
def mantissa : Nat := (a &&& t.frac) ||| (if (a &&& t.exp) >>> t.f ≠ 0 then t.hidden else 0)

end

section
variable {t : FloatFormat}

lemma mantissa_eq (a : Nat) : mantissa t a = t.significand a := by
  rw [mantissa, and_exp_shiftRight, and_frac, significand]
  by_cases h : t.biased a = 0
  · simp [h]
  · rw [if_pos h, if_neg h, Nat.or_comm, FloatFormat.hidden, shiftLeft_or_eq 1 (fraction_lt a)]
    omega

lemma isNaN_iff : isNaN t a = true ↔ t.biased a = 2 ^ t.w - 1 ∧ t.fraction a ≠ 0 := by
  simp [isNaN, and_exp_eq_exp_iff, and_frac]

lemma isSNaN_iff :
    isSNaN t a = true ↔ t.biased a = 2 ^ t.w - 1 ∧ t.fraction a ≠ 0 ∧
      a.testBit (t.f - 1) = false := by
  simp [isSNaN, isNaN_iff, and_quiet_eq_zero_iff, and_assoc]

lemma isNaN_of_isSNaN {a : Nat} (h : isSNaN t a = true) : isNaN t a = true := by
  rw [isSNaN, Bool.and_eq_true] at h
  exact h.1

lemma biased_max_ne_zero : 2 ^ t.w - 1 ≠ 0 := by
  have hw : 2 ^ 2 ≤ 2 ^ t.w := Nat.pow_le_pow_right (by decide) t.w_ge
  omega

/-- The classes of operands by their fields. -/
lemma fpType_iff : (fpType t a = .zero ↔ t.biased a = 0 ∧ t.fraction a = 0) ∧
    (fpType t a = .infinity ↔ t.biased a = 2 ^ t.w - 1 ∧ t.fraction a = 0) ∧
    (fpType t a = .qnan ↔ isNaN t a = true ∧ isSNaN t a = false) ∧
    (fpType t a = .snan ↔ isSNaN t a = true) := by
  have hmax := biased_max_ne_zero (t := t)
  rw [← Bool.not_eq_true, isSNaN_iff, isNaN_iff, fpType]
  split <;> rename_i hzero
  · split <;> simp [*, hmax.symm]
  · split <;> rename_i hall
    · cases hbit : a.testBit (t.f - 1) <;> by_cases hfrac : t.fraction a = 0 <;> simp [*]
    · simp [*]

lemma fpType_eq_zero_iff : fpType t a = .zero ↔ t.biased a = 0 ∧ t.fraction a = 0 :=
  (fpType_iff a).1

lemma fpType_eq_infinity_iff :
    fpType t a = .infinity ↔ t.biased a = 2 ^ t.w - 1 ∧ t.fraction a = 0 :=
  (fpType_iff a).2.1

lemma fpType_eq_qnan_iff : fpType t a = .qnan ↔ isNaN t a = true ∧ isSNaN t a = false :=
  (fpType_iff a).2.2.1

lemma fpType_eq_snan_iff : fpType t a = .snan ↔ isSNaN t a = true :=
  (fpType_iff a).2.2.2

/-! ### Flushed operands -/

lemma biased_and_sign : t.biased (a &&& t.sign) = 0 := by
  rw [← and_exp_shiftRight, Nat.and_assoc]
  have hdisjoint : t.sign &&& t.exp = 0 := by
    rw [and_exp, biased, sign_eq, Nat.pow_div (by omega)
      (by decide), Nat.add_sub_cancel_left, mod_self, zero_mul]
  rw [hdisjoint, and_zero, zero_shiftRight]

lemma fraction_and_sign : t.fraction (a &&& t.sign) = 0 := by
  rw [and_sign, fraction, sign_eq]
  split
  · rw [pow_add, mul_mod_right]
  · rfl

lemma negative_and_sign (a : Nat) : t.negative (a &&& t.sign) = t.negative a := by
  rw [negative, testBit_and, sign_eq, testBit_two_pow_self, Bool.and_true]
  rfl

variable {K : Type*} {a fpcr m : Nat}

lemma value_eq_zero_of_fields [Field K] (hb : t.biased a = 0) (hf : t.fraction a = 0) :
    t.value K a = 0 := by
  simp [value, magnitude, significand, hb, hf]

lemma value_eq_zero_of_fpType [Field K] (ha : fpType t a = .zero) : t.value K a = 0 := by
  rw [fpType_eq_zero_iff] at ha
  exact value_eq_zero_of_fields ha.1 ha.2

lemma negative_flushInput (fpcr a : Nat) : t.negative (flushInput t fpcr a).1 = t.negative a := by
  rw [flushInput]
  split
  · exact negative_and_sign a
  · rfl

lemma flushInput_eq_of_isNaN (h : isNaN t (flushInput t fpcr a).1 = true) :
    (flushInput t fpcr a).1 = a := by
  rw [flushInput] at h ⊢
  split at h
  · rw [isNaN_iff, biased_and_sign] at h
    exact absurd h.1.symm biased_max_ne_zero
  · rename_i hnot
    rw [if_neg hnot]

lemma word_flushInput (fpcr : Nat) (ha : t.Word a) : t.Word (flushInput t fpcr a).1 := by
  rw [flushInput]
  split
  · exact lt_of_le_of_lt and_le_left ha
  · exact ha

/-- The unpacked operand is the class, the sign and the value of the flushed one. -/
lemma fpUnpack_eq (K : Type*) [Field K] (fpcr a : Nat) :
    fpUnpack K t (control fpcr) a =
      ⟨fpType t (flushInput t fpcr a).1, t.negative (flushInput t fpcr a).1,
        t.value K (flushInput t fpcr a).1, (flushInput t fpcr a).2⟩ := by
  rw [negative_flushInput, fpUnpack, flushInput, control_fz]
  simp only [and_frac, and_exp_eq_zero_iff]
  by_cases h : fz fpcr = true ∧ t.biased a = 0 ∧ t.fraction a ≠ 0
  · rw [if_pos h, if_pos h, value_eq_zero_of_fields (biased_and_sign a) (fraction_and_sign a),
      (fpType_eq_zero_iff _).2 ⟨biased_and_sign a, fraction_and_sign a⟩]
    rfl
  · rw [if_neg h, if_neg h]

/-! ### Not-a-numbers -/

lemma fpDefaultNaN_eq : fpDefaultNaN t = t.exp ||| t.quiet := by
  have hquiet : t.quiet < 2 ^ t.f := by
    rw [t.quiet_eq]
    exact Nat.pow_lt_pow_right (by decide) (sub_lt t.f_pos (by decide))
  rw [fpDefaultNaN, exp, shiftLeft_or_eq _ hquiet, shiftLeft_eq]

lemma fpProcessNaN_eq (fpcr a : Nat) (fptype : ArmFp.FPType) :
    fpProcessNaN t (control fpcr) fptype a =
      (if dn fpcr then t.exp ||| t.quiet else a ||| t.quiet, if fptype = .snan then 1 else 0) := by
  rw [fpProcessNaN, control_dn, fpDefaultNaN_eq]
  rfl

/-- The choice of the texts among the not-a-numbers of two operands. -/
lemma fpProcessNaNs_pair {b a' b' : Nat} (ha : isNaN t a' = true → a' = a)
    (hb : isNaN t b' = true → b' = b) :
    fpProcessNaNs t (control fpcr) [(fpType t a', a), (fpType t b', b)] =
      if isNaN t a' || isNaN t b' then some (nanResult t fpcr a' b') else none := by
  simp only [fpProcessNaNs, List.find?_cons, List.find?_nil, fpType_eq_snan_iff,
    fpType_eq_qnan_iff, fpProcessNaN_eq, nanResult]
  cases hsa : isSNaN t a' <;> cases hsb : isSNaN t b' <;> cases hna : isNaN t a' <;>
    cases hnb : isNaN t b' <;> simp_all [fpType_eq_snan_iff, isNaN_of_isSNaN]

/-! ### Values -/

lemma exponent_eq (a : Nat) :
    (if (a &&& t.exp) >>> t.f ≠ 0 then (((a &&& t.exp) >>> t.f : Nat) : Int) - t.bias
      else 1 - t.bias) = t.exponent a := by
  rw [and_exp_shiftRight, exponent]
  by_cases h : t.biased a = 0
  · simp [emin]
  · simp [h]

lemma shiftRight_and_one_bne (a i : Nat) : (((a >>> i) &&& 1) != 0) = a.testBit i := by
  rw [Nat.testBit, Nat.and_comm]

lemma bne_and_sign (a : Nat) : ((a &&& t.sign) != 0) = t.negative a := by
  rw [Bool.eq_iff_iff, bne_iff_ne]
  exact and_sign_ne_zero_iff a

lemma xor_and_sign (a b : Nat) :
    (((a ^^^ b) &&& t.sign) != 0) = (t.negative a ^^ t.negative b) := by
  rw [bne_and_sign, negative, testBit_xor]
  rfl

/-- An operand with all exponent bits set is an infinity, when it is a number. -/
lemma and_exp_eq_exp_iff_infinity (ha : isNaN t a = false) :
    a &&& t.exp = t.exp ↔ fpType t a = .infinity := by
  rw [← Bool.not_eq_true, isNaN_iff] at ha
  rw [and_exp_eq_exp_iff, fpType_eq_infinity_iff]
  tauto

lemma isNaN_false_of_fpType (ha : fpType t a = .infinity ∨
    fpType t a = .zero) : isNaN t a = false := by
  rw [← Bool.not_eq_true, isNaN_iff]
  rw [fpType_eq_infinity_iff, fpType_eq_zero_iff] at ha
  rcases ha with ha | ha
  · exact fun h => h.2 ha.2
  · exact fun h => h.2 ha.2

lemma biased_ne_max (hnan : isNaN t a = false) (hinf : fpType t a ≠ .infinity) :
    t.biased a ≠ 2 ^ t.w - 1 := by
  rw [← Bool.not_eq_true, isNaN_iff] at hnan
  rw [Ne, fpType_eq_infinity_iff] at hinf
  intro hall
  by_cases hf : t.fraction a = 0
  · exact hinf ⟨hall, hf⟩
  · exact hnan ⟨hall, hf⟩

lemma significand_pos (ha : fpType t a ≠ .zero) : 0 < t.significand a := by
  rw [Ne, fpType_eq_zero_iff, ← significand_eq_zero_iff] at ha
  exact pos_of_ne_zero ha

/-! ### Without the sign -/

lemma withoutSign_eq (hwidth : t.f + t.w < 64) (ha : t.Word a) :
    withoutSign t a = t.biased a * 2 ^ t.f + t.fraction a := by
  have hmask : 2 ^ 64 - 1 - t.sign = 2 ^ 64 - (2 ^ (t.f + t.w) + 1) := by
    rw [t.sign_eq]
    omega
  have hpow : 2 ^ (t.f + t.w) < 2 ^ 64 := Nat.pow_lt_pow_right (by decide) hwidth
  have hmod : withoutSign t a = a % 2 ^ (t.f + t.w) := by
    apply eq_of_testBit_eq
    intro i
    rw [withoutSign, hmask, testBit_and, testBit_two_pow_sub_succ hpow,
      testBit_mod_two_pow, testBit_two_pow]
    rcases lt_trichotomy i (t.f + t.w) with hlt | heq | hgt
    · simp [hlt, show i < 64 by omega, show t.f + t.w ≠ i by omega]
    · simp [heq]
    · have hzero : a.testBit i = false :=
        testBit_lt_two_pow (lt_of_lt_of_le ha (Nat.pow_le_pow_right (by decide) hgt))
      simp [hzero]
  have hlt : t.biased a * 2 ^ t.f + t.fraction a < 2 ^ (t.f + t.w) := by
    have hb := biased_lt (t := t) a
    have hf := fraction_lt (t := t) a
    calc t.biased a * 2 ^ t.f + t.fraction a < (t.biased a + 1) * 2 ^ t.f := by
          rw [add_mul]
          omega
      _ ≤ 2 ^ t.w * 2 ^ t.f := mul_le_mul_right _ hb
      _ = 2 ^ (t.f + t.w) := by rw [pow_add, mul_comm]
  calc withoutSign t a = a % 2 ^ (t.f + t.w) := hmod
    _ = ((if t.negative a then 2 ^ (t.f + t.w) else 0) +
          (t.biased a * 2 ^ t.f + t.fraction a)) % 2 ^ (t.f + t.w) := by
        rw [← add_assoc, ← word_eq ha]
    _ = t.biased a * 2 ^ t.f + t.fraction a := by
        split
        · rw [add_mod_left, mod_eq_of_lt hlt]
        · rw [zero_add, mod_eq_of_lt hlt]

/-! ## The end of a text -/

section
variable (t)

/-- A carry moves into the exponent, and the fields are put together. -/
def packTail (mode : Nat) (negative : Bool) (mant : Nat) (e : Int) (flags : Nat) : Nat × Nat :=
  let (mant, e) := if mant ≥ t.hidden <<< 1 then (mant >>> 1, e + 1) else (mant, e)
  let (v, flags) :=
    if e > t.bias then (if toInf mode negative then t.exp else t.exp - 1, flags ||| 20)
    else ((if mant ≥ t.hidden then (e + t.bias).toNat <<< t.f else 0) ||| (mant &&& t.frac), flags)
  (if negative then v ||| t.sign else v, flags)

/-- The significand is rounded.  `roundbit` is the bit after the significand and
`sticky` says whether anything follows. -/
def roundTail (mode : Nat) (negative : Bool) (mant : Nat) (e : Int) (roundbit sticky : Bool) :
    Nat × Nat :=
  let lost := roundbit || sticky
  let flags := if lost then 16 ||| (if e < t.emin then 8 else 0) else 0
  let mant :=
    if lost && ((mode == 0 && roundbit && (sticky || mant &&& 1 != 0)) ||
      (mode == 1 && !negative) || (mode == 2 && negative)) then mant + 1 else mant
  packTail t mode negative mant (if e < t.emin then t.emin else e) flags

end

lemma up_eq (hmode : mode < 4) (negative : Bool) (mant : Nat) (roundbit sticky : Bool) :
    ((roundbit || sticky) && ((mode == 0 && roundbit && (sticky || mant &&& 1 != 0)) ||
      (mode == 1 && !negative) || (mode == 2 && negative))) =
      (decodeRounding mode).upBits negative mant roundbit sticky := by
  have hodd : (mant &&& 1 != 0) = (mant % 2 == 1) := by
    rw [and_one_is_mod]
    rcases mod_two_eq_zero_or_one mant with h | h <;> simp [h]
  rw [hodd]
  match mode, hmode with
  | 0, _ | 1, _ | 2, _ | 3, _ =>
    cases negative <;> cases roundbit <;> cases sticky <;> simp [decodeRounding, Rounding.upBits]

lemma and_frac_of_lt {v : Nat} (hv : v < 2 ^ t.f) : v &&& t.frac = v := by
  rw [and_frac]
  exact mod_eq_of_lt hv

lemma pack_normal {r : Nat} (k : Nat) (hr : r < 2 ^ t.f) :
    (t.emin + k > t.bias ↔ t.exp ≤ t.packed k (2 ^ t.f + r)) ∧
      ((if 2 ^ t.f + r ≥ t.hidden then (t.emin + k + t.bias).toNat <<< t.f else 0) |||
        ((2 ^ t.f + r) &&& t.frac)) = t.packed k (2 ^ t.f + r) := by
  have hpacked : t.packed k (2 ^ t.f + r) = (k + 1) * 2 ^ t.f + r := by
    rw [packed]
    ring
  have hexponent : (t.emin + k + t.bias).toNat = k + 1 := by
    rw [emin]
    omega
  have hfrac : (2 ^ t.f + r) &&& t.frac = r := by
    rw [and_frac, fraction, add_mod_left, mod_eq_of_lt hr]
  constructor
  · rw [hpacked, exp, shiftLeft_eq, emin]
    constructor
    · intro h
      have hle : (2 * t.bias + 1) * 2 ^ t.f ≤ (k + 1) * 2 ^ t.f := mul_le_mul_right _ (by omega)
      omega
    · intro h
      have hlt : (2 * t.bias + 1) * 2 ^ t.f < (k + 1 + 1) * 2 ^ t.f := by
        rw [add_mul (k + 1), one_mul]
        omega
      have := lt_of_mul_lt_mul_right hlt
      omega
  · rw [if_pos (by rw [t.hidden_eq]; omega), hexponent, hfrac, shiftLeft_or_eq _ hr, hpacked]

lemma pack_eq {k : Nat} (hm : m ≤ 2 ^ (t.f + 1)) (hk : m < 2 ^ t.f → k = 0) :
    let p := if m ≥ t.hidden <<< 1 then (m >>> 1, t.emin + k + 1) else (m, t.emin + k)
    (p.2 > t.bias ↔ t.exp ≤ t.packed k m) ∧
      ((if p.1 ≥ t.hidden then (p.2 + t.bias).toNat <<< t.f else 0) ||| (p.1 &&& t.frac)) =
        t.packed k m := by
  have hpos := Nat.two_pow_pos t.f
  have hhidden : t.hidden <<< 1 = 2 * 2 ^ t.f := by
    rw [t.hidden_eq, shiftLeft_eq, mul_comm]
  rcases lt_or_ge m (2 * 2 ^ t.f) with hlt | hge
  · rw [if_neg (by omega)]
    rcases lt_or_ge m (2 ^ t.f) with hsub | hnormal
    · -- A subnormal result keeps the zero exponent field.
      obtain rfl := hk hsub
      have hbias := t.bias_pos
      have hexp : t.exp = 2 * t.bias * 2 ^ t.f + 2 ^ t.f := by
        rw [exp, shiftLeft_eq, add_mul, one_mul]
      have hcast : t.emin + ((0 : Nat) : Int) = 1 - (t.bias : Int) := by
        rw [emin]
        omega
      simp only [hcast, and_frac_of_lt hsub, t.hidden_eq, if_neg (not_le.2 hsub),
        packed, zero_mul, zero_add, zero_or, and_true]
      omega
    · obtain ⟨r, rfl⟩ := Nat.exists_eq_add_of_le hnormal
      exact pack_normal k (by omega)
  · obtain rfl : m = 2 * 2 ^ t.f := by omega
    have hhalf : (2 * 2 ^ t.f) >>> 1 = 2 ^ t.f + 0 := by
      rw [shiftRight_eq_div_pow, pow_one, Nat.mul_div_cancel_left _ (by decide)]
      rfl
    have hpacked : t.packed k (2 * 2 ^ t.f) = t.packed (k + 1) (2 ^ t.f + 0) := by
      rw [packed, packed]
      ring
    have hcast : t.emin + k + 1 = t.emin + ((k + 1 : Nat) : Int) := by
      push_cast
      ring
    rw [if_pos (by omega), hhalf, hpacked, hcast]
    exact pack_normal (k + 1) hpos

lemma withoutSign_beq_zero (hwidth : t.f + t.w < 64) (ha : t.Word a) :
    (withoutSign t a == 0) = decide (fpType t a = .zero) := by
  rw [Bool.eq_iff_iff, beq_iff_eq, decide_eq_true_eq, withoutSign_eq hwidth ha, fpType_eq_zero_iff,
    Nat.add_eq_zero_iff, mul_eq_zero]
  simp

lemma withoutSign_beq_exp (hwidth : t.f + t.w < 64) (ha : t.Word a) :
    (withoutSign t a == t.exp) = decide (fpType t a = .infinity) := by
  have hf := fraction_lt (t := t) a
  rw [Bool.eq_iff_iff, beq_iff_eq, decide_eq_true_eq, withoutSign_eq hwidth ha,
    fpType_eq_infinity_iff, t.exp_eq]
  constructor
  · intro h
    have hdiv := congrArg (· / 2 ^ t.f) h
    have hmod := congrArg (· % 2 ^ t.f) h
    simp only [Nat.mul_div_cancel _ (Nat.two_pow_pos t.f), mul_mod_left,
      mul_add_mod_self_right, mod_eq_of_lt hf] at hdiv hmod
    rw [add_comm, add_mul_div_right _ _ (Nat.two_pow_pos _), div_eq_of_lt hf, zero_add] at hdiv
    exact ⟨hdiv, hmod⟩
  · rintro ⟨hb, hz⟩
    rw [hb, hz, add_zero]

/-! ### Rounding -/

lemma exp_lt : t.exp < 2 ^ (t.f + t.w) := by
  rw [t.exp_eq, add_comm, pow_add]
  exact mul_lt_mul_of_pos_right (sub_lt (Nat.two_pow_pos _) (by decide)) (Nat.two_pow_pos _)

lemma or_sign_of_lt {v : Nat} (hv : v < 2 ^ (t.f + t.w)) (negative : Bool) :
    (if negative then v ||| t.sign else v) = v + fpZero t negative := by
  cases negative
  · simp [fpZero]
  · rw [if_pos rfl, or_sign_eq hv, fpZero, if_pos rfl, t.sign_eq, add_comm]

lemma fpInfinity_eq : fpInfinity t negative = t.exp ||| (if negative then t.sign else 0) := by
  rw [fpInfinity, ← or_sign_of_lt exp_lt]
  cases negative <;> simp

lemma packTail_eq {k : Nat} (hmode : mode < 4) (hm : m ≤ 2 ^ (t.f + 1)) (hk : m < 2 ^ t.f → k = 0)
    (negative : Bool) (flags : Nat) :
    packTail t mode negative m (t.emin + k) flags =
      let overflow := decide (t.exp ≤ t.packed k m)
      ((if overflow then
          (if (decodeRounding mode).overflowToInf negative then t.exp else t.exp - 1)
        else t.packed k m) + fpZero t negative, flags ||| (if overflow then 20 else 0)) := by
  have hexp := exp_lt (t := t)
  have hpack := pack_eq hm hk
  rw [packTail, toInf_eq hmode]
  revert hpack
  rintro ⟨hoverflow, hvalue⟩
  simp only [hoverflow] at hvalue ⊢
  by_cases hov : t.exp ≤ t.packed k m
  · simp only [hov, decide_true, if_true]
    rw [or_sign_of_lt (by split <;> omega)]
  · simp only [hov, decide_false, if_false, Bool.false_eq_true, or_zero]
    rw [hvalue, or_sign_of_lt (by omega)]

variable {e : Int}

/-- A normal significand whose exponent is below the greatest one: there is neither a
subnormal result nor an overflow. -/
lemma packTail_normal (hle : 2 ^ t.f ≤ m) (hhigh : e < t.bias) (mode : Nat) (negative : Bool)
    (flags : Nat) :
    packTail t mode negative m e flags =
      let p := if m ≥ t.hidden <<< 1 then (m >>> 1, e + 1) else (m, e)
      let v := ((p.2 + t.bias).toNat <<< t.f) ||| (p.1 &&& t.frac)
      (if negative then v ||| t.sign else v, flags) := by
  have hp : (if m ≥ t.hidden <<< 1 then (m >>> 1, e + 1) else (m, e)).1 ≥ t.hidden ∧
      ¬(if m ≥ t.hidden <<< 1 then (m >>> 1, e + 1) else (m, e)).2 > t.bias := by
    rw [t.hidden_eq, shiftLeft_eq, pow_one]
    split
    · omega
    · omega
  rw [packTail]
  simp [hp.1, hp.2]

lemma flags_eq (overflow tiny lost : Bool) :
    ((if lost then 16 ||| (if tiny then 8 else 0) else 0) ||| (if overflow then 20 else 0)) =
      ((if overflow then ofc else 0) ||| (if tiny && lost then ufc else 0) |||
        (if overflow || lost then ixc else 0)) := by
  cases overflow <;> cases tiny <;> cases lost <;> rfl

lemma fpRound_flush [Field K] [LinearOrder K] [IsStrictOrderedRing K] [FloorSemiring K] {x : K}
    (he : Int.log 2 |x| = e) (hflush : e < t.emin ∧ fz fpcr) :
    fpRound t (control fpcr) x = (fpZero t (decide (x < 0)), 8) := by
  rw [fpRound, he, control_fz]
  exact if_pos ⟨hflush.2, hflush.1⟩

/-- The end of a text rounds the number whose significand and guard bits it is given. -/
lemma roundTail_eq [Field K] [LinearOrder K] [IsStrictOrderedRing K] [FloorSemiring K]
    {mant : Nat} {negative roundbit sticky : Bool} {x : K} (hx : x ≠ 0)
    (hnegative : negative = decide (x < 0)) (he : Int.log 2 |x| = e) (hfz : ¬(e < t.emin ∧ fz fpcr))
    (hbits : GuardBits (|x| * 2 ^ ((t.f : Int) - max e t.emin)) mant roundbit sticky) :
    roundTail t (rmode fpcr) negative mant e roundbit sticky = fpRound t (control fpcr) x := by
  subst he
  obtain ⟨hlt, hle⟩ := mant_bounds (abs_pos.2 hx) hbits
  have hround := round_eq (decodeRounding (rmode fpcr)) negative hbits
  rw [fpRound, control_fz, control_rounding, if_neg (by rwa [and_comm]), ← hnegative]
  simp only [hround]
  rw [roundTail, up_eq (rmode_lt fpcr)]
  generalize (decodeRounding (rmode fpcr)).upBits negative mant roundbit sticky = up
  -- The exponent is at least the least one, and the significand may have carried.
  obtain ⟨k, hk⟩ : ∃ k : Nat, max (Int.log 2 |x|) t.emin - t.emin = k :=
    ⟨(max (Int.log 2 |x|) t.emin - t.emin).toNat, by omega⟩
  have hemax : (if Int.log 2 |x| < t.emin then t.emin else Int.log 2 |x|) = t.emin + k := by
    split <;> omega
  have hm : (if up then mant + 1 else mant) ≤ 2 ^ (t.f + 1) := by
    split <;> omega
  have hsub : (if up then mant + 1 else mant) < 2 ^ t.f → k = 0 := by
    intro h
    by_contra hne
    have := hle (by omega)
    split at h <;> omega
  have hflags := flags_eq
    (decide (t.exp ≤ t.packed k (if up then mant + 1 else mant)))
    (decide (Int.log 2 |x| < t.emin)) (roundbit || sticky)
  simp only [decide_eq_true_eq] at hflags
  rw [hk, Int.toNat_natCast, hemax, packTail_eq (rmode_lt fpcr) hm hsub]
  simp only [decide_eq_true_eq, hflags]

/-! ## Signed magnitudes -/

/-- A magnitude with a sign. -/
def withSign (negative : Bool) (v : ℚ) : ℚ := if negative then -v else v

lemma abs_withSign {v : ℚ} (hv : 0 ≤ v) (negative : Bool) : |withSign negative v| = v := by
  cases negative <;> simp [withSign, hv]

lemma withSign_neg_iff {v : ℚ} (hv : 0 < v) (negative : Bool) :
    negative = decide (withSign negative v < 0) := by
  cases negative <;> simp [withSign, hv, hv.le]

lemma withSign_eq_zero_iff (v : ℚ) : withSign negative v = 0 ↔ v = 0 := by
  cases negative <;> simp [withSign]

/-- The exponent field, with that of the least normal numbers for a subnormal one. -/
def fieldOrOne (t : FloatFormat) (a : Nat) : Nat := if t.biased a = 0 then 1 else t.biased a

lemma magnitude_eq (a : Nat) :
    t.magnitude ℚ a = t.significand a * 2 ^ ((fieldOrOne t a : Int) - t.bias - t.f) := by
  rw [magnitude, exponent, fieldOrOne]
  split
  · rfl
  · rfl

lemma magnitude_eq_zero (ha : fpType t a = .zero) : t.magnitude ℚ a = 0 := by
  rw [fpType_eq_zero_iff, ← significand_eq_zero_iff] at ha
  rw [magnitude, ha]
  simp

lemma fpType_eq_zero (ha : t.magnitude ℚ a = 0) : fpType t a = .zero := by
  by_contra hne
  exact (magnitude_pos (significand_pos hne)).ne' ha

end
end Drippu.RecompFp
