import Drippu.Recomp.FpBody

/-!
# Recomp - Square root

The text of FSQRT makes the exponent even and takes two bits of the radicand for each bit of
the root.  The remainder says whether the root is exact, and compared with the root whether
the next bit is set; a root is never half way between two numbers.

Main results:

- Theorem `sqrtValue_eq`: the text computes the architecture's square root.
-/

namespace Drippu
namespace ArmFp

open Library

/-- The square root of an operand. -/
noncomputable def fpSqrt (t : FloatFormat) (c : Control) (op : Nat) : Nat × Nat :=
  let u := fpUnpack ℝ t c op
  raise u.flags <|
  match fpProcessNaNs t c [(u.fptype, op)] with
  | some r => r
  | none =>
    if u.isZero then (fpZero t u.sign, 0)
    else if u.isInf ∧ u.sign = false then (fpInfinity t u.sign, 0)
    else if u.sign then (fpDefaultNaN t, ioc)
    else fpRound t c (Real.sqrt u.value)

end ArmFp

namespace RecompFp

open Library FloatFormat ArmFp Nat

/-! ## The text -/

/-- The next two bits of `magnitude * 2^f`, from position `2k` on.  A shift to the
left may lose the bits above. -/
def sqrtPair (f magnitude k : Nat) : Nat :=
  let shift : Int := 2 * k - f
  (if shift ≥ 0 then magnitude >>> shift.toNat else (magnitude <<< (-shift).toNat) % 2 ^ 64) &&& 3

/-- `for (k = f; k >= 0; --k)`: one bit of the root from two bits of the radicand. -/
def sqrtLoop (f magnitude : Nat) : (n : Nat) → (root rem : Nat) → Nat × Nat
  | 0, root, rem => (root, rem)
  | k + 1, root, rem =>
    let rem := (rem <<< 2) ||| sqrtPair f magnitude k
    let trial := (root <<< 2) ||| 1
    if rem ≥ trial then sqrtLoop f magnitude k ((root <<< 1) ||| 1) (rem - trial)
    else sqrtLoop f magnitude k (root <<< 1) rem

variable (t : FloatFormat) (fpcr : Nat)

/-- The fields are put together.  The exponent is the biased one here. -/
def sqrtPack (root : Nat) (e : Int) : Nat :=
  let (root, e) := if root ≥ t.hidden <<< 1 then (root >>> 1, e + 1) else (root, e)
  (e.toNat <<< t.f) ||| (root &&& t.frac)

/-- The end of the text: the root is rounded by its remainder. -/
def sqrtRound (root rem : Nat) (e : Int) : Nat × Nat :=
  let mode := rmode fpcr
  let flags := if rem ≠ 0 then 16 else 0
  let root := if rem ≠ 0 ∧ (mode = 1 ∨ (mode = 0 ∧ rem > root)) then root + 1 else root
  (sqrtPack t root (e.tdiv 2 + t.bias), flags)

/-- The last branch of `EmitFPSqrtTail`. -/
def sqrtFinite (a : Nat) : Nat × Nat :=
  let magnitude := a &&& t.frac
  let e : Int := ((a &&& t.exp) >>> t.f : Nat) - (t.bias : Int)
  let (magnitude, e) :=
    if a &&& t.exp ≠ 0 then (magnitude ||| t.hidden, e)
    else shiftWhile (fun m => decide (m < t.hidden)) t.f magnitude (e + 1)
  let (magnitude, e) := if e.tmod 2 ≠ 0 then (magnitude <<< 1, e - 1) else (magnitude, e)
  let (root, rem) := sqrtLoop t.f magnitude (t.f + 1) 0 0
  sqrtRound t fpcr root rem e

/-- `EmitFPSqrtAbdHead` and `EmitFPSqrtTail`.  The second operand of the head is
zero. -/
def sqrtValue (a : Nat) : Nat × Nat :=
  let (a, fa) := flushInput t fpcr a
  let (b, fb) := flushInput t fpcr 0
  let (v, flags) :=
    if isNaN t a || isNaN t b then nanResult t fpcr a b
    else if withoutSign t a = 0 then (a, 0)
    else if a &&& t.sign ≠ 0 then (t.exp ||| t.quiet, 1)
    else if a &&& t.exp = t.exp then (a, 0)
    else sqrtFinite t fpcr a
  (v, fa ||| fb ||| flags)

/-! ## The root -/

lemma sqrtPair_eq (f magnitude k : Nat) :
    sqrtPair f magnitude k = magnitude * 2 ^ f / 4 ^ k % 4 := by
  have hfour : 4 ^ k = 2 ^ (2 * k) := by
    rw [Nat.pow_mul]
  rw [sqrtPair, and_two_pow_sub_one_eq_mod _ 2, hfour]
  rcases lt_or_ge (2 * k) f with hlt | hge
  · obtain ⟨d, rfl⟩ := Nat.exists_eq_add_of_lt hlt
    rw [if_neg (by omega),
      show (-(2 * (k : Int) - ((2 * k + d + 1 : Nat) : Int))).toNat = d + 1 by omega,
      shiftLeft_eq, mod_mod_of_dvd _ (by decide), add_assoc, pow_add 2 (2 * k),
      mul_left_comm, Nat.mul_div_cancel_left _ (Nat.two_pow_pos _)]
  · obtain ⟨d, hd⟩ := Nat.exists_eq_add_of_le hge
    rw [if_pos (by omega), show (2 * (k : Int) - (f : Int)).toNat = d by omega, hd,
      shiftRight_eq_div_pow, pow_add, mul_comm magnitude,
      Nat.mul_div_mul_left _ _ (Nat.two_pow_pos _)]

variable {a rem root : Nat}

lemma sqrtLoop_spec {f magnitude : Nat} (n : Nat)
    (hroot : root * root + rem = magnitude * 2 ^ f / 4 ^ n) (hrem : rem ≤ 2 * root) :
    let p := sqrtLoop f magnitude n root rem
    p.1 * p.1 + p.2 = magnitude * 2 ^ f ∧ p.2 ≤ 2 * p.1 := by
  induction n generalizing root rem with
  | zero =>
    rw [pow_zero, Nat.div_one] at hroot
    exact ⟨hroot, hrem⟩
  | succ k ih =>
    have hpair := sqrtPair_eq f magnitude k
    have hstep : magnitude * 2 ^ f / 4 ^ k =
        4 * (magnitude * 2 ^ f / 4 ^ (k + 1)) + sqrtPair f magnitude k := by
      rw [hpair, pow_succ, ← Nat.div_div_eq_div_mul]
      omega
    have hlt : sqrtPair f magnitude k < 2 ^ 2 := by
      rw [hpair]
      exact mod_lt _ (by decide)
    have hor : (rem <<< 2) ||| sqrtPair f magnitude k = 4 * rem + sqrtPair f magnitude k := by
      rw [← shiftLeft_add_eq_or_of_lt hlt, shiftLeft_eq]
      omega
    have htrial : (root <<< 2) ||| 1 = 4 * root + 1 := by
      rw [← shiftLeft_add_eq_or_of_lt (by decide), shiftLeft_eq]
      omega
    have hodd : (root <<< 1) ||| 1 = 2 * root + 1 := by
      rw [← shiftLeft_add_eq_or_of_lt (by decide), shiftLeft_eq]
      omega
    have heven : root <<< 1 = 2 * root := by
      omega
    rw [sqrtLoop, hor, htrial, hodd, heven]
    by_cases h : 4 * rem + sqrtPair f magnitude k ≥ 4 * root + 1
    · rw [if_pos h]
      apply ih
      · have : (2 * root + 1) * (2 * root + 1) = 4 * (root * root) + (4 * root + 1) := by ring
        omega
      · omega
    rw [if_neg h]
    apply ih
    · have : 2 * root * (2 * root) = 4 * (root * root) := by ring
      omega
    · omega

/-- A root is never half way between two integers: its remainder decides. -/
lemma sqrt_guardBits {n : Nat} (hroot : root * root + rem = n) (hrem : rem ≤ 2 * root) :
    GuardBits (Real.sqrt n) root (decide (rem > root)) (decide (rem ≠ 0)) := by
  have hn : (n : ℝ) = root * root + rem := by exact_mod_cast hroot.symm
  have hr0 : (0 : ℝ) ≤ root := cast_nonneg root
  have hupper : Real.sqrt n < root + 1 := by
    rw [Real.sqrt_lt' (by linarith), hn]
    have : (rem : ℝ) ≤ 2 * root := by exact_mod_cast hrem
    nlinarith
  by_cases hhalf : rem > root
  · have hlower : root + 1 / 2 < Real.sqrt n := by
      rw [Real.lt_sqrt (by linarith), hn]
      have : (root : ℝ) + 1 ≤ rem := by exact_mod_cast hhalf
      nlinarith
    refine ⟨Real.sqrt n - root - 1 / 2, by linarith, by linarith, ?_, ?_⟩
    · have hne : Real.sqrt n - root - 1 / 2 ≠ 0 := by linarith
      simp only [decide_eq_true_eq]
      exact iff_of_true (by omega) hne
    · simp only [hhalf, decide_true, if_true]
      ring
  have hlower : Real.sqrt n < root + 1 / 2 := by
    rw [Real.sqrt_lt' (by linarith), hn]
    have : (rem : ℝ) ≤ root := by exact_mod_cast le_of_not_gt hhalf
    nlinarith
  have hroot_le : (root : ℝ) ≤ Real.sqrt n := by
    apply Real.le_sqrt_of_sq_le
    nlinarith
  refine ⟨Real.sqrt n - root, by linarith, by linarith, ?_, ?_⟩
  · rw [decide_eq_true_eq, sub_ne_zero, not_iff_not,
      Real.sqrt_eq_iff_mul_self_eq (by positivity) hr0, hn]
    constructor
    · simp
    · intro h
      have : (rem : ℝ) = 0 := by linarith
      exact_mod_cast this
  · simp [hhalf]

/-! ## Finite operands -/

variable {t fpcr}

lemma sqrtOperand_eq (ha : 0 < t.significand a) :
    ∃ (m : Nat) (e : Int),
      (if a &&& t.exp ≠ 0 then
          ((a &&& t.frac) ||| t.hidden, (((a &&& t.exp) >>> t.f : Nat) : Int) - t.bias)
        else shiftWhile (fun m => decide (m < t.hidden)) t.f (a &&& t.frac)
          ((((a &&& t.exp) >>> t.f : Nat) : Int) - t.bias + 1)) = (m, e) ∧
        2 ^ t.f ≤ m ∧ m < 2 ^ (t.f + 1) ∧ t.magnitude ℝ a = m * 2 ^ (e - t.f) ∧
          t.exponent a - t.f ≤ e ∧ e ≤ t.exponent a := by
  have hfrac := fraction_lt (t := t) a
  simp only [and_frac, and_exp_shiftRight, ne_eq, and_exp_eq_zero_iff]
  by_cases hsub : t.biased a = 0
  · obtain ⟨m, e, hshift, hle, hlt, hmag⟩ := exists_normalised ℝ ha
    refine ⟨m, e, ?_, hle, hlt, hmag⟩
    rw [significand, exponent, if_pos hsub, if_pos hsub] at hshift
    rw [if_neg (by simpa using hsub), hsub, ← hshift, emin]
    ring
  have hor : t.fraction a ||| t.hidden = t.significand a := by
    rw [significand, if_neg hsub, Nat.or_comm, FloatFormat.hidden, shiftLeft_or_eq 1 hfrac]
    omega
  have hexp : t.exponent a = (t.biased a : Int) - t.bias := by
    rw [exponent, if_neg hsub]
  refine ⟨_, _, by rw [if_pos (by simpa using hsub)], ?_, ?_, ?_, by omega, by omega⟩
  · rw [hor, significand, if_neg hsub]
    omega
  · rw [hor]
    exact t.significand_lt a
  · rw [hor, magnitude, hexp]

lemma evenExponent_eq {f m : Nat} {e : Int} (hle : 2 ^ f ≤ m) (hlt : m < 2 ^ (f + 1)) :
    ∃ (n : Nat) (h : Int),
      (if e.tmod 2 ≠ 0 then (m <<< 1, e - 1) else (m, e)) = (n, 2 * h) ∧
        2 ^ f ≤ n ∧ n < 2 ^ (f + 2) ∧ (m : ℝ) * 2 ^ (e - f) = n * 2 ^ (2 * h - f) ∧
          e - 1 ≤ 2 * h ∧ 2 * h ≤ e := by
  have hpow2 : 2 ^ (f + 2) = 2 * 2 ^ (f + 1) := pow_succ'
  by_cases heven : e.tmod 2 = 0
  · obtain ⟨h, rfl⟩ := Int.dvd_of_tmod_eq_zero heven
    exact ⟨m, h, by rw [if_neg (by simp)], hle, by omega, rfl, by omega, by omega⟩
  have hodd : e % 2 = 1 := by
    have : ¬(2 : Int) ∣ e := fun hdvd => heven (Int.tmod_eq_zero_of_dvd hdvd)
    omega
  obtain ⟨h, hh⟩ : ∃ h : Int, e = 2 * h + 1 := ⟨e / 2, by omega⟩
  subst hh
  refine ⟨m <<< 1, h, by rw [if_pos heven, add_sub_cancel_right], ?_, ?_, ?_, by omega, by omega⟩
  · omega
  · omega
  · rw [shiftLeft_eq, show 2 * h + 1 - (f : Int) = 1 + (2 * h - f) by ring, zpow_add₀ two_ne_zero]
    push_cast
    ring

/-- The result is normal: its exponent stays in range when the root carries. -/
lemma sqrtPack_eq {h : Int} (hle : 2 ^ t.f ≤ root) (hhigh : h < t.bias) (flags : Nat) :
    packTail t (rmode fpcr) false root h flags = (sqrtPack t root (h + t.bias), flags) := by
  rw [packTail_normal hle hhigh, sqrtPack]
  split
  · simp [add_right_comm]
  · simp

lemma sqrtRound_eq {h : Int} (hle : 2 ^ t.f ≤ root) (hlow : t.emin ≤ h) (hhigh : h < t.bias) :
    sqrtRound t fpcr root rem (2 * h) =
      roundTail t (rmode fpcr) false root h (decide (rem > root)) (decide (rem ≠ 0)) := by
  have hup : (rem ≠ 0 ∧ (rmode fpcr = 1 ∨ (rmode fpcr = 0 ∧ rem > root))) ↔
      ((decide (rem > root) || decide (rem ≠ 0)) &&
        ((rmode fpcr == 0 && decide (rem > root) && (decide (rem ≠ 0) || root &&& 1 != 0)) ||
          (rmode fpcr == 1 && !false) || (rmode fpcr == 2 && false))) = true := by
    by_cases h0 : rmode fpcr = 0 <;> by_cases h1 : rmode fpcr = 1 <;> by_cases hrem : rem = 0 <;>
      simp [h0, h1, hrem]
  have hlost : (decide (rem > root) || decide (rem ≠ 0)) = decide (rem ≠ 0) := by
    by_cases hrem : rem = 0 <;> simp [hrem]
  have hnormal : ¬h < t.emin := by omega
  rw [sqrtRound, roundTail]
  simp only [hup]
  rw [if_neg hnormal, sqrtPack_eq (by split <;> omega) hhigh, hlost,
    Int.mul_tdiv_cancel_left _ (by decide)]
  simp [hnormal]

lemma sqrtFinite_eq (hbias : t.f + 2 ≤ t.bias) (ha : 0 < t.significand a)
    (hpos : t.negative a = false) (hfinite : t.biased a ≤ 2 * t.bias) :
    sqrtFinite t fpcr a = fpRound t (control fpcr) (Real.sqrt (t.value ℝ a)) := by
  obtain ⟨m, e, hstart, hle, hlt, hmag, hlow, hhigh⟩ := sqrtOperand_eq ha
  obtain ⟨n, h, heven, hnle, hnlt, hscale, hhlow, hhhigh⟩ := evenExponent_eq (e := e) hle hlt
  have hbound : t.emin ≤ h ∧ h < t.bias := by
    have hemin : t.emin = 1 - (t.bias : Int) := rfl
    have hexp : t.emin ≤ t.exponent a ∧ t.exponent a ≤ t.bias := by
      rw [exponent]
      omega
    omega
  have hfour : 4 ^ (t.f + 1) = 2 ^ (t.f + 2) * 2 ^ t.f := by
    rw [← pow_add, show t.f + 2 + t.f = 2 * (t.f + 1) by ring, Nat.pow_mul]
  have hzero : 0 * 0 + 0 = n * 2 ^ t.f / 4 ^ (t.f + 1) := by
    rw [hfour, Nat.mul_div_mul_right _ _ (Nat.two_pow_pos _), div_eq_of_lt hnlt]
  obtain ⟨hroot, hrem⟩ := sqrtLoop_spec (t.f + 1) hzero (zero_le _)
  rw [sqrtFinite]
  simp only [hstart, heven]
  revert hroot hrem
  generalize sqrtLoop t.f n (t.f + 1) 0 0 = p
  obtain ⟨root, rem⟩ := p
  intro hroot hrem
  simp only [] at hroot hrem ⊢
  have hrle : 2 ^ t.f ≤ root := by
    apply le_of_lt_succ
    apply Nat.mul_self_lt_mul_self_iff.1
    calc 2 ^ t.f * 2 ^ t.f ≤ n * 2 ^ t.f := Nat.mul_le_mul_right _ hnle
      _ < (root + 1) * (root + 1) := by
          have : (root + 1) * (root + 1) = root * root + 2 * root + 1 := by ring
          omega
  -- The square root of the operand is that of the radicand, moved by half the exponent.
  have hsqrt : Real.sqrt (t.value ℝ a) = Real.sqrt (n * 2 ^ t.f : Nat) * 2 ^ (h - t.f) := by
    have hvalue : t.value ℝ a = (n * 2 ^ t.f : Nat) * (2 ^ (h - t.f)) ^ 2 := by
      rw [value, hpos, if_neg (by decide), hmag, hscale, ← zpow_natCast, ← zpow_mul]
      push_cast
      rw [mul_assoc, ← zpow_natCast, ← zpow_add₀ two_ne_zero]
      ring
    rw [hvalue, Real.sqrt_mul (cast_nonneg _), Real.sqrt_sq (by positivity)]
  have hx : 0 < Real.sqrt (t.value ℝ a) := by
    rw [Real.sqrt_pos, value, hpos, if_neg (by decide)]
    exact magnitude_pos ha
  have hlog : Int.log 2 |Real.sqrt (t.value ℝ a)| = h := by
    have hsplit : ∀ k : Nat, (2 : ℝ) ^ (h - t.f + k) = 2 ^ k * 2 ^ (h - t.f) := by
      intro k
      rw [zpow_add₀ two_ne_zero, zpow_natCast, mul_comm]
    rw [abs_of_pos hx, hsqrt]
    apply log_eq
    · rw [show h = h - t.f + (t.f : Nat) by ring, hsplit, show h - t.f + (t.f : Nat) = h by ring]
      apply mul_le_mul_of_nonneg_right _ (by positivity)
      apply Real.le_sqrt_of_sq_le
      exact_mod_cast (by rw [sq]; exact Nat.mul_le_mul_right _ hnle : (2 ^ t.f) ^ 2 ≤ n * 2 ^ t.f)
    · rw [show h + 1 = h - t.f + (t.f + 1 : Nat) by push_cast; ring, hsplit]
      apply mul_lt_mul_of_pos_right _ (by positivity)
      rw [Real.sqrt_lt' (by positivity)]
      exact_mod_cast (by
        rw [← Nat.pow_mul, show (t.f + 1) * 2 = t.f + 2 + t.f by ring, pow_add]
        exact Nat.mul_lt_mul_of_pos_right hnlt (Nat.two_pow_pos _) :
        n * 2 ^ t.f < (2 ^ (t.f + 1)) ^ 2)
  rw [sqrtRound_eq hrle hbound.1 hbound.2]
  apply roundTail_eq hx.ne' (by simp) hlog (by omega)
  rw [abs_of_pos hx, hsqrt, max_eq_left hbound.1, mul_assoc, ← zpow_add₀ two_ne_zero,
    show h - t.f + ((t.f : Int) - h) = 0 by ring, zpow_zero, mul_one]
  exact sqrt_guardBits hroot hrem

/-! ## All operands -/

lemma fpProcessNaNs_single {a' : Nat} (ha : isNaN t a' = true → a' = a) :
    fpProcessNaNs t (control fpcr) [(fpType t a', a)] =
      if isNaN t a' || isNaN t 0 then some (nanResult t fpcr a' 0) else none := by
  rw [← fpProcessNaNs_pair ha (fun _ => rfl)]
  have hzero : fpType t 0 = .zero := by
    rw [fpType_eq_zero_iff]
    simp [biased, fraction]
  simp only [fpProcessNaNs, List.find?_cons, List.find?_nil, hzero]
  rfl

lemma sqrtWords_eq (hwidth : t.f + t.w < 64) (hbias : t.f + 2 ≤ t.bias) (ha : t.Word a) :
    sqrtValue t fpcr a = fpSqrt t (control fpcr) a := by
  have hwa := word_flushInput fpcr ha
  have hzero : flushInput t fpcr 0 = (0, 0) := by
    simp [flushInput]
  rw [sqrtValue, fpSqrt, fpUnpack_eq, hzero]
  rw [fpProcessNaNs_single flushInput_eq_of_isNaN]
  revert hwa
  generalize flushInput t fpcr a = p
  obtain ⟨a, fa⟩ := p
  intro hwa
  have hword := word_eq hwa
  simp only [or_zero] at hword ⊢
  apply congrArg (raise fa)
  cases hnan : isNaN t a || isNaN t 0 with
  | true => rfl
  | false =>
    rw [Bool.or_eq_false_iff] at hnan
    have hiszero : withoutSign t a = 0 ↔ fpType t a = .zero := by
      have := withoutSign_beq_zero hwidth hwa
      rwa [Bool.eq_iff_iff, beq_iff_eq, decide_eq_true_eq] at this
    simp only [Bool.false_eq_true, if_false, hiszero, and_exp_eq_exp_iff_infinity hnan.1,
      and_sign_ne_zero_iff, fpDefaultNaN_eq]
    by_cases hz : fpType t a = .zero
    · rw [if_pos hz, if_pos hz]
      rw [fpType_eq_zero_iff] at hz
      rw [hz.1, hz.2, zero_mul, add_zero, ← t.sign_eq] at hword
      exact Prod.ext hword rfl
    rw [if_neg hz, if_neg hz]
    cases hneg : t.negative a with
    | true => simp [ioc]
    | false =>
      by_cases hinf : fpType t a = .infinity
      · rw [(fpType_eq_infinity_iff a).1 hinf |>.1, (fpType_eq_infinity_iff a).1 hinf |>.2,
          hneg, if_neg (by decide), ← t.exp_eq, zero_add, add_zero] at hword
        simp only [hinf, true_and, if_true, Bool.false_eq_true, if_false]
        exact Prod.ext hword rfl
      simp only [hinf, false_and, if_false, Bool.false_eq_true]
      apply sqrtFinite_eq hbias (significand_pos hz) hneg
      have hlt := biased_lt (t := t) a
      have hmax := t.two_mul_bias
      rw [← and_exp_eq_exp_iff_infinity hnan.1, and_exp_eq_exp_iff] at hinf
      omega

/-- FSQRT, for both widths, all operands and every FPCR: the exact square root, rounded once,
with the special cases and the exceptions of the architecture. -/
theorem sqrtValue_eq (dbl : Bool) (fpcr : Nat) (a : BitVec ((format dbl).f + (format dbl).w + 1)) :
    sqrtValue (format dbl) fpcr a.toNat = fpSqrt (format dbl) (control fpcr) a.toNat := by
  apply sqrtWords_eq
  · cases dbl <;> decide
  · cases dbl <;> decide
  · exact a.isLt

end RecompFp
end Drippu
