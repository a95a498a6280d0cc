import Drippu.Recomp.FpLattice

/-!
# Recomp - The steps of the reciprocal and of the reciprocal square root

The text of FRECPS and FRSQRTS puts the constant two, or three, into the accumulator beside the
product, whose first operand is negated, and rounds the result once.  For the halved step every
bit of the accumulator stands for half as much.

Main results:

- Theorem `stepValue_eq`: the text computes the architecture's steps.
-/

namespace Drippu.RecompFp

open Library Library.Words ArmFp

/-! ## The text -/

/-- `_c`. -/
def stepConstant (dbl half : Bool) : Words 64 :=
  let bit := if dbl then 2149 else 299
  let c := setBit (fun _ => 0#64) bit
  if half then setBit c (bit - 1) else c

/-- The result for an infinity and a zero. -/
def stepSpecial (dbl half : Bool) : Nat :=
  if dbl then (if half then 0x3ff8000000000000 else 0x4000000000000000)
  else if half then 0x3fc00000 else 0x40000000

/-- `_base`. -/
def stepBase (dbl half : Bool) : Int := latticeBase dbl - (if half then 1 else 0)

/-- The sum of the product, negative when `s` is set, and the constant, and its sign. -/
def stepCombine (count : Nat) (s : Bool) (p c : Words 64) : Words 64 × Bool :=
  if s then
    let negative := compareWords p c count == .gt
    let left := if negative then p else c
    let right := if negative then c else p
    (sub left right, negative)
  else (add p c, false)

section
variable (t : FloatFormat) (fpcr count : Nat) (base : Int) (c : Words 64)

/-- The last branch of `EmitFPStepValue`. -/
def stepFinite (a b : Nat) : Nat × Nat :=
  let s := ((a ^^^ b) &&& t.sign) != 0
  let (p, negative) := stepCombine count s (productWords t count a b) c
  latticeRound t fpcr base count negative (rmode fpcr == 2) p

/-- `EmitFPStepValue`, with its constants. -/
def stepWith (special aa bb : Nat) : Nat × Nat :=
  let (a, fa) := flushInput t fpcr (aa ^^^ t.sign)
  let (b, fb) := flushInput t fpcr bb
  let (v, flags) :=
    if isNaN t a || isNaN t b then nanResult t fpcr a b
    else if (a &&& t.exp = t.exp ∧ withoutSign t b = 0) ∨
        (b &&& t.exp = t.exp ∧ withoutSign t a = 0) then (special, 0)
    else if a &&& t.exp = t.exp ∨ b &&& t.exp = t.exp then
      (t.exp ||| ((a ^^^ b) &&& t.sign), 0)
    else stepFinite t fpcr count base c a b
  (v, fa ||| fb ||| flags)

end

/-- `EmitFPStepValue`. -/
def stepValue (dbl half : Bool) (fpcr aa bb : Nat) : Nat × Nat :=
  stepWith (format dbl) fpcr (latticeCount dbl) (stepBase dbl half) (stepConstant dbl half)
    (stepSpecial dbl half) aa bb

/-- The text has the exponent and sign masks as literals. -/
example : (format true).exp = 0x7ff0000000000000 ∧ (format true).sign = 0x8000000000000000 ∧
    (format false).exp = 0x7f800000 ∧ (format false).sign = 0x80000000 := by
  decide

/-! ## The constant -/

lemma two_pow_succ_or (k : Nat) : 2 ^ (k + 1) ||| 2 ^ k = 3 * 2 ^ k := by
  have h : (2 ||| 1) <<< k = 2 <<< k ||| 1 <<< k := Nat.shiftLeft_or_distrib
  simp only [Nat.shiftLeft_eq, one_mul] at h
  rw [pow_succ']
  exact h.symm

lemma value_setBits {k count : Nat} (hk : (k + 1) / 64 < count) (half : Bool) :
    value (if half then setBit (setBit (fun _ => 0#64) (k + 1)) k
      else setBit (fun _ => 0#64) (k + 1)) count = (if half then 3 else 2) * 2 ^ k := by
  have hfirst : value (setBit (fun _ => 0#64) (k + 1)) count = 2 ^ (k + 1) := by
    rw [value_setBit (by decide) _ hk, value_zero, Nat.zero_or]
  cases half with
  | false =>
    rw [if_neg (by decide), if_neg (by decide), hfirst, pow_succ']
  | true =>
    rw [if_pos rfl, if_pos rfl, value_setBit (by decide) _ (by omega), hfirst, two_pow_succ_or]

/-- The constant in units of the lowest bit of the accumulator, doubled for the halved step. -/
lemma value_stepConstant (dbl half : Bool) :
    value (stepConstant dbl half) (latticeCount dbl) =
      (if half then 3 else 2) * 2 ^ (if dbl then 2148 else 298) := by
  have h : ((if dbl then 2148 else 298) + 1) / 64 < latticeCount dbl := by
    cases dbl <;> decide
  rw [← value_setBits h half]
  cases dbl <;> rfl

/-! ## The sum -/

/-- The accumulator holds the exact result, with its sign. -/
lemma stepCombine_eq {count : Nat} {p c : Words 64}
    (hfit : value p count + value c count < 2 ^ (64 * count)) (s : Bool) (u : ℚ) :
    withSign (stepCombine count s p c).2 (value (stepCombine count s p c).1 count * u) =
      withSign s (value p count * u) + value c count * u := by
  rw [stepCombine]
  split
  · rename_i hs
    rw [compareWords_eq]
    by_cases hgt : value c count < value p count
    · have hcompare : (compare (value p count) (value c count) == .gt) = true := by
        rw [beq_iff_eq, Nat.compare_eq_gt]
        exact hgt
      simp only [hcompare, if_true]
      rw [value_sub_of_le (by decide) hgt.le, Nat.cast_sub hgt.le, hs]
      simp only [withSign, if_true]
      ring
    have hcompare : (compare (value p count) (value c count) == .gt) = false := by
      rw [beq_eq_false_iff_ne, Ne, Nat.compare_eq_gt]
      exact hgt
    simp only [hcompare, Bool.false_eq_true, if_false]
    rw [value_sub_of_le (by decide) (by omega), Nat.cast_sub (by omega), hs]
    simp only [withSign, if_true, Bool.false_eq_true, if_false]
    ring
  · rename_i hs
    rw [value_add_of_lt (by decide) hfit]
    push_cast
    simp only [withSign, hs, Bool.false_eq_true, if_false]
    ring

section
variable {t : FloatFormat} {fpcr count : Nat} {base : Int} {c : Words 64}

lemma stepFinite_eq (h : Fits t count) (hlow : 1 ≤ t.emin - t.f - base)
    (hhigh : t.emin - t.f - base < 64 * count) (hc : 2 * value c count < 2 ^ (64 * count))
    {a b : Nat} (hfa : t.biased a ≠ 2 ^ t.w - 1) (hfb : t.biased b ≠ 2 ^ t.w - 1) {x : ℚ}
    (hx : x = t.value ℚ a * t.value ℚ b * 2 ^ (base - 2 * (t.emin - t.f)) +
      value c count * 2 ^ base) :
    stepFinite t fpcr count base c a b = fpRoundOrZero t (control fpcr) x := by
  obtain ⟨hp, hproom⟩ := h.value_product hfa hfb
  have hroom : value (productWords t count a b) count + value c count < 2 ^ (64 * count) := by
    omega
  have hsum := stepCombine_eq hroom (t.negative a ^^ t.negative b) (2 ^ base)
  have hexact : withSign (t.negative a ^^ t.negative b)
      (value (productWords t count a b) count * 2 ^ base) + value c count * 2 ^ base = x := by
    have hscale : (2 : ℚ) ^ base = 2 ^ (2 * (t.emin - t.f)) * 2 ^ (base - 2 * (t.emin - t.f)) := by
      rw [← zpow_add₀ two_ne_zero, add_sub_cancel]
    rw [hx, hp]
    rw [hscale, ← mul_assoc, ← magnitude_mul, FloatFormat.value, FloatFormat.value]
    cases t.negative a <;> cases t.negative b <;> simp [withSign]
  rw [hexact] at hsum
  rw [stepFinite, xor_and_sign]
  dsimp only
  generalize stepCombine count (t.negative a ^^ t.negative b) (productWords t count a b) c = s
    at hsum ⊢
  rw [latticeRound_eq h.f_lt hlow hhigh, hsum, fpRoundOrZero, decide_negInf]
  have hzero : value s.1 count = 0 ↔ x = 0 := by
    have hunit : (2 : ℚ) ^ base ≠ 0 := zpow_ne_zero _ two_ne_zero
    rw [← hsum, withSign_eq_zero_iff, mul_eq_zero, or_iff_left hunit, Nat.cast_eq_zero]
  simp [hzero]

lemma stepWith_eq (h : Fits t count) (hwidth : t.f + t.w < 64)
    (hlow : 1 ≤ t.emin - t.f - base) (hhigh : t.emin - t.f - base < 64 * count)
    (hc : 2 * value c count < 2 ^ (64 * count)) (half : Bool)
    (hresult : ∀ y : ℚ, y * 2 ^ (base - 2 * (t.emin - t.f)) + value c count * 2 ^ base =
      if half then (3 + y) / 2 else 2 + y)
    {aa bb : Nat} (ha : t.Word aa) (hb : t.Word bb) :
    stepWith t fpcr count base c
        (if half then (t.bias <<< t.f) + t.quiet else (t.bias + 1) <<< t.f) aa bb =
      fpStepFused t (control fpcr) half aa bb := by
  have hsign : t.Word (aa ^^^ t.sign) := by
    apply Nat.xor_lt_two_pow ha
    rw [t.sign_eq]
    exact Nat.pow_lt_pow_right (by decide) (by omega)
  have hwa := word_flushInput fpcr hsign
  have hwb := word_flushInput fpcr hb
  rw [stepWith, fpStepFused]
  rw [fpUnpack_eq, fpUnpack_eq]
  rw [fpProcessNaNs_pair flushInput_eq_of_isNaN flushInput_eq_of_isNaN]
  revert hwa hwb
  generalize flushInput t fpcr (aa ^^^ t.sign) = p
  generalize flushInput t fpcr bb = q
  obtain ⟨a, fa⟩ := p
  obtain ⟨b, fb⟩ := q
  intro hwa hwb
  apply congrArg (raise (fa ||| fb))
  cases hnan : isNaN t a || isNaN t b with
  | true => rfl
  | false =>
    rw [Bool.or_eq_false_iff] at hnan
    obtain ⟨hna, hnb⟩ := hnan
    have hza : withoutSign t a = 0 ↔ fpType t a = .zero := by
      rw [← beq_iff_eq, withoutSign_beq_zero hwidth hwa, decide_eq_true_eq]
    have hzb : withoutSign t b = 0 ↔ fpType t b = .zero := by
      rw [← beq_iff_eq, withoutSign_beq_zero hwidth hwb, decide_eq_true_eq]
    simp only [Bool.false_eq_true, if_false, and_exp_eq_exp_iff_infinity hna,
      and_exp_eq_exp_iff_infinity hnb, hza, hzb, ArmFp.Unpacked.isInf, ArmFp.Unpacked.isZero,
      @and_comm (fpType t b = .infinity)]
    split
    · rfl
    split
    · rw [fpInfinity_eq, FloatFormat.and_sign, FloatFormat.negative, Nat.testBit_xor]
      rfl
    · rename_i hinf
      obtain ⟨hia, hib⟩ := not_or.1 hinf
      exact stepFinite_eq h hlow hhigh hc (biased_ne_max hna hia) (biased_ne_max hnb hib)
        (hresult _).symm

end

/-- FRECPS and FRSQRTS, for both widths, all operands and every FPCR: two less the product, or
half of three less the product, rounded once, with the special cases and the exceptions of the
architecture. -/
theorem stepValue_eq (dbl half : Bool) (fpcr : Nat)
    (a b : BitVec ((format dbl).f + (format dbl).w + 1)) :
    stepValue dbl half fpcr a.toNat b.toNat =
      fpStepFused (format dbl) (control fpcr) half a.toNat b.toNat := by
  have hspecial : stepSpecial dbl half =
      if half then ((format dbl).bias <<< (format dbl).f) + (format dbl).quiet
      else ((format dbl).bias + 1) <<< (format dbl).f := by
    cases dbl <;> cases half <;> decide
  rw [stepValue, hspecial]
  apply stepWith_eq (fits dbl) _ _ _ _ half _ a.isLt b.isLt
  · cases dbl <;> decide
  · cases dbl <;> cases half <;> decide
  · cases dbl <;> cases half <;> decide
  · have hfour : (if half then 3 else 2) < 2 ^ 2 := by
      cases half <;> decide
    have hroom : 1 + 2 + (if dbl then 2148 else 298) ≤ 64 * latticeCount dbl := by
      cases dbl <;> decide
    rw [value_stepConstant]
    calc 2 * ((if half then 3 else 2) * 2 ^ (if dbl then 2148 else 298))
        < 2 * (2 ^ 2 * 2 ^ (if dbl then 2148 else 298)) := by
          apply Nat.mul_lt_mul_of_pos_left _ (by decide)
          exact Nat.mul_lt_mul_of_pos_right hfour (Nat.two_pow_pos _)
      _ = 2 ^ (1 + 2 + (if dbl then 2148 else 298)) := by
          rw [pow_add, pow_add, pow_one, mul_assoc]
      _ ≤ 2 ^ (64 * latticeCount dbl) := Nat.pow_le_pow_right (by decide) hroom
  · intro y
    have hunit : stepBase dbl half - 2 * ((format dbl).emin - (format dbl).f) =
        -(if half then 1 else 0) := by
      cases dbl <;> cases half <;> decide
    have hbase : ((if dbl then 2148 else 298 : Nat) : Int) + stepBase dbl half =
        -(if half then 1 else 0) := by
      cases dbl <;> cases half <;> decide
    rw [hunit, value_stepConstant, Nat.cast_mul, Nat.cast_pow, Nat.cast_ofNat, mul_assoc,
      ← zpow_natCast, ← zpow_add₀ two_ne_zero, hbase]
    cases half
    · norm_num
      ring
    · norm_num
      ring

end Drippu.RecompFp
