import Drippu.Recomp.FpBody

/-!
# Recomp - Reciprocal estimates

FRECPE and FRSQRTE are emitted inline, as a text for each width, and also exist as a helper
of the runtime.  Both use the integer tables of the architecture, but they classify the
operand, normalise it and search the square root in different ways.

A body returns the bits of the result and the exception bits that it sets in FPSR.

Main results:

- Theorem `estimates_agree`: the inline texts and the helper agree.
-/

namespace Drippu.RecompFp

open Library FloatFormat ArmFp Nat

/-! ## The inline texts -/

section
variable (t : FloatFormat) (fpcr x : Nat)

/-- The last branch of `EmitFPRecipEstimateValue`, for the operand
`mant * 2^(e - f)`. -/
def recipEstimateFinite (mant : Nat) (e : Int) : Nat × Nat :=
  if e < t.emin - 2 then
    ((x &&& t.sign) ||| (if toInf (rmode fpcr) ((x &&& t.sign) != 0) then t.exp else t.exp - 1), 20)
  else if fz fpcr ∧ -t.emin ≤ e then (x &&& t.sign, 8)
  else
    let index := mant >>> (t.f - 8)
    let q := index * 2 + 1
    let estimate := ((((1 <<< 19) / q) + 1) / 2 % 2 ^ 8) <<< (t.f - 8)
    let re := -(e + 1)
    let (estimate, re) :=
      if re < t.emin then
        if re = t.emin - 1 then ((estimate ||| t.hidden) >>> 1, re)
        else ((estimate ||| t.hidden) >>> 2, re + 1)
      else (estimate, re)
    ((x &&& t.sign) ||| ((re + t.bias).toNat <<< t.f) ||| (estimate &&& t.frac), 0)

/-- `EmitFPRecipEstimateValue`. -/
def recipEstimateValue : Nat × Nat :=
  let eraw := (x &&& t.exp) >>> t.f
  let fb := x &&& t.frac
  if eraw = 2 * t.bias + 1 then
    if fb ≠ 0 then
      (if dn fpcr then t.exp ||| t.quiet else x ||| t.quiet, if x &&& t.quiet = 0 then 1 else 0)
    else (if x &&& t.sign ≠ 0 then t.sign else 0, 0)
  else if eraw = 0 ∧ fb = 0 then ((x &&& t.sign) ||| t.exp, 2)
  else if eraw = 0 ∧ fb ≠ 0 ∧ fz fpcr then ((x &&& t.sign) ||| t.exp, 130)
  else
    let (mant, e) :=
      if eraw ≠ 0 then (t.hidden ||| fb, (eraw : Int) - t.bias)
      else shiftWhile (fun m => m &&& t.hidden == 0) t.f fb t.emin
    recipEstimateFinite t fpcr x mant e

/-- `while (q * (b + 1) * (b + 1) < 1 << 28) ++b`, for at most `fuel` rounds. -/
def linearRoot (q : Nat) : (fuel : Nat) → Nat → Nat
  | 0, b => b
  | fuel + 1, b => if q * (b + 1) * (b + 1) < 1 <<< 28 then linearRoot q fuel (b + 1) else b

/-- The last branch of `EmitFPRSqrtEstimateValue`. -/
def rsqrtEstimateFinite (mant : Nat) (e : Int) : Nat × Nat :=
  let index := mant >>> (t.f - (if e.tmod 2 = 0 then 7 else 8))
  let q := if index < 256 then index * 2 + 1 else (index ||| 1) * 2
  let b := linearRoot q 512 512
  let estimate := (b + 1) / 2 % 2 ^ 8
  let re := (-(e + 1)) >>> (1 : Nat)
  (((re + t.bias).toNat <<< t.f) ||| ((estimate <<< (t.f - 8)) &&& t.frac), 0)

/-- `EmitFPRSqrtEstimateValue`. -/
def rsqrtEstimateValue : Nat × Nat :=
  let eraw := (x &&& t.exp) >>> t.f
  let fb := x &&& t.frac
  if eraw = 0 ∧ fb = 0 then ((x &&& t.sign) ||| t.exp, 2)
  else if eraw = 0 ∧ fb ≠ 0 ∧ fz fpcr then ((x &&& t.sign) ||| t.exp, 130)
  else if eraw = 2 * t.bias + 1 then
    if fb ≠ 0 then
      (if dn fpcr then t.exp ||| t.quiet else x ||| t.quiet, if x &&& t.quiet = 0 then 1 else 0)
    else if x &&& t.sign ≠ 0 then (t.exp ||| t.quiet, 1)
    else (0, 0)
  else if x &&& t.sign ≠ 0 then (t.exp ||| t.quiet, 1)
  else
    let (mant, e) :=
      if eraw ≠ 0 then (t.hidden ||| fb, (eraw : Int) - t.bias)
      else shiftWhile (fun m => m &&& t.hidden == 0) t.f fb (1 - t.bias)
    rsqrtEstimateFinite t mant e

end

/-! ## The runtime helper -/

section
variable (t : FloatFormat)

/-- `while (lo + 1 < hi)`: the half in which the root lies, for at most `fuel`
rounds. -/
def binaryRoot (a : Nat) : (fuel : Nat) → (lo hi : Nat) → Nat
  | 0, lo, _ => lo
  | fuel + 1, lo, hi =>
    if lo + 1 < hi then
      let mid := (lo + hi) / 2
      if a * mid * mid < 1 <<< 28 then binaryRoot a fuel mid hi else binaryRoot a fuel lo mid
    else lo

/-- The branch `!rsqrt` of `recomp_fp_estimate`. -/
def recompRecip (fpcr sign expmask mant : Nat) (exponent : Int) : Nat × Nat :=
  if exponent < t.emin - 2 then
    (sign ||| (if toInf (rmode fpcr) (sign != 0) then expmask else expmask - 1), 4 ||| 16)
  else if fz fpcr ∧ -t.emin ≤ exponent then (sign, 8)
  else
    let scaled := mant >>> (t.f - 8)
    let estimate := (((1 <<< 19) / (2 * scaled + 1) + 1) / 2) &&& 255
    let outExp := -exponent - 1
    let sig := (256 + estimate) <<< (t.f - 8)
    if outExp < t.emin then (sign ||| (sig >>> (t.emin - outExp).toNat), 0)
    else (sign ||| ((outExp + t.bias).toNat <<< t.f) ||| (estimate <<< (t.f - 8)), 0)

/-- The branch `rsqrt` of `recomp_fp_estimate`. -/
def recompRsqrt (mant : Nat) (exponent : Int) : Nat × Nat :=
  let a := mant >>> (t.f - (if exponent.tmod 2 = 0 then 7 else 8))
  let a := if a < 256 then 2 * a + 1 else 2 * (a ||| 1)
  let lo := binaryRoot a 512 512 1024
  let estimate := ((lo + 1) / 2) &&& 255
  let neg := -exponent - 1
  let outExp := if 0 ≤ neg then neg.tdiv 2 else -((-neg + 1).tdiv 2)
  (((outExp + t.bias).toNat <<< t.f) ||| (estimate <<< (t.f - 8)), 0)

def recompFpEstimate (fpcr bits : Nat) (rsqrt : Bool) : Nat × Nat :=
  let fpcr := fpcr % 2 ^ 32
  let fracmask := t.hidden - 1
  let expmask := ((1 <<< t.w) - 1) <<< t.f
  let sign := bits &&& (1 <<< (t.f + t.w))
  let quiet := t.hidden >>> 1
  let defnan := expmask ||| quiet
  let frac := bits &&& fracmask
  let rawexp := (bits &&& expmask) >>> t.f
  if rawexp = (1 <<< t.w) - 1 ∧ frac ≠ 0 then
    (if dn fpcr then defnan else bits ||| quiet, if frac &&& quiet = 0 then 1 else 0)
  else
    let flush := rawexp = 0 ∧ frac ≠ 0 ∧ fz fpcr
    let flags := if flush then 128 else 0
    let frac := if flush then 0 else frac
    if rawexp = 0 ∧ frac = 0 then (sign ||| expmask, flags ||| 2)
    else if rsqrt ∧ sign ≠ 0 then (defnan, flags ||| 1)
    else if rawexp = (1 <<< t.w) - 1 then (sign, flags)
    else
      let exponent : Int := if rawexp ≠ 0 then (rawexp : Int) - t.bias else t.emin
      let mant := if rawexp ≠ 0 then t.hidden ||| frac else frac
      let (mant, exponent) := shiftWhile (fun m => decide (m < t.hidden)) t.f mant exponent
      let (v, more) :=
        if rsqrt then recompRsqrt t mant exponent
        else recompRecip t fpcr sign expmask mant exponent
      (v, flags ||| more)

end

/-! ## The square root -/

/-- The last `b` with `q * b * b` below `2^28`. -/
def IsRoot (q b : Nat) : Prop :=
  q * b * b < 1 <<< 28 ∧ ¬q * (b + 1) * (b + 1) < 1 <<< 28

lemma square_mono (q : Nat) {b c : Nat} (h : b ≤ c) : q * b * b ≤ q * c * c :=
  Nat.mul_le_mul (Nat.mul_le_mul_left q h) h

lemma IsRoot.unique {q b c : Nat} (hb : IsRoot q b) (hc : IsRoot q c) : b = c := by
  rcases lt_trichotomy b c with h | h | h
  · exact absurd (lt_of_le_of_lt (square_mono q h) hc.1) hb.2
  · exact h
  · exact absurd (lt_of_le_of_lt (square_mono q h) hb.1) hc.2

lemma linearRoot_isRoot {q fuel b : Nat} (hlow : q * b * b < 1 <<< 28)
    (hhigh : ¬q * (b + fuel) * (b + fuel) < 1 <<< 28) : IsRoot q (linearRoot q fuel b) := by
  induction fuel generalizing b with
  | zero => exact absurd hlow hhigh
  | succ fuel ih =>
    rw [linearRoot]
    split
    case isTrue hnext =>
        apply ih hnext
        rwa [add_right_comm, add_assoc]
    case isFalse hnext => exact ⟨hlow, hnext⟩

lemma binaryRoot_isRoot {a fuel lo hi : Nat} (hlow : a * lo * lo < 1 <<< 28)
    (hhigh : ¬a * hi * hi < 1 <<< 28) (hfuel : hi ≤ lo + fuel) :
    IsRoot a (binaryRoot a fuel lo hi) := by
  have hlt : lo < hi := by
    apply lt_of_not_ge
    intro hle
    exact hhigh (lt_of_le_of_lt (square_mono a hle) hlow)
  induction fuel generalizing lo hi with
  | zero => omega
  | succ fuel ih =>
    rw [binaryRoot]
    split
    case isTrue hgap =>
        simp only []
        split
        case isTrue hmid => exact ih hmid hhigh (by omega) (by omega)
        case isFalse hmid => exact ih hlow hmid (by omega) (by omega)
    case isFalse hgap =>
        obtain rfl : hi = lo + 1 := by omega
        exact ⟨hlow, hhigh⟩

lemma linearRoot_eq_binaryRoot {q : Nat} (hlow : 256 ≤ q) (hhigh : q < 1024) :
    linearRoot q 512 512 = binaryRoot q 512 512 1024 := by
  have hstart : q * 512 * 512 < 1 <<< 28 := by omega
  have hstop : ¬q * 1024 * 1024 < 1 <<< 28 := by omega
  exact (linearRoot_isRoot hstart hstop).unique (binaryRoot_isRoot hstart hstop (by omega))

/-! ## Agreement -/

variable {m : Nat} (fpcr x : Nat)

lemma fz_mod : fz (fpcr % 2 ^ 32) = fz fpcr := by
  rw [fz, fz, one_shiftLeft, and_two_pow, and_two_pow, testBit_mod_two_pow]
  simp

lemma dn_mod : dn (fpcr % 2 ^ 32) = dn fpcr := by
  rw [dn, dn, one_shiftLeft, and_two_pow, and_two_pow, testBit_mod_two_pow]
  simp

lemma rmode_mod : rmode (fpcr % 2 ^ 32) = rmode fpcr := by
  rw [rmode, rmode, and_two_pow_sub_one_eq_mod _ 2, and_two_pow_sub_one_eq_mod _ 2,
    shiftRight_eq_div_pow, shiftRight_eq_div_pow]
  omega

section
variable {t : FloatFormat}

lemma expmask_eq : ((1 <<< t.w) - 1) <<< t.f = t.exp := by
  rw [exp, two_mul_bias, one_shiftLeft]

/-- The two tests for a leading bit agree below twice the leading bit. -/
lemma and_hidden_eq (hm : m < 2 ^ (t.f + 1)) : (m &&& t.hidden == 0) = decide (m < t.hidden) := by
  rw [t.hidden_eq, and_two_pow]
  rcases lt_or_ge m (2 ^ t.f) with hlt | hge
  · simp [testBit_lt_two_pow hlt, hlt]
  have hone : m / 2 ^ t.f = 1 := Nat.div_eq_of_lt_le (by omega) (by omega)
  have hbit : m.testBit t.f = true := by
    rw [testBit_eq_decide_div_mod_eq, hone]
    rfl
  rw [hbit, decide_eq_false (not_lt.2 hge)]
  simp

lemma hidden_or (hm : m < 2 ^ t.f) : t.hidden ||| m = 2 ^ t.f + m := by
  rw [FloatFormat.hidden, shiftLeft_or_eq 1 hm, one_mul]

/-- Both texts reach the same significand, with its leading bit in place, and exponent. -/
lemma normalised {E : Nat} (hm : m < 2 ^ t.f) (hnz : E ≠ 0 ∨ m ≠ 0) (hE : E ≤ 2 * t.bias) :
    ∃ (mant : Nat) (e : Int), 2 ^ t.f ≤ mant ∧ mant < 2 ^ (t.f + 1) ∧ e ≤ t.bias ∧
      (if E ≠ 0 then (t.hidden ||| m, (E : Int) - t.bias)
        else shiftWhile (fun m => m &&& t.hidden == 0) t.f m t.emin) = (mant, e) ∧
      shiftWhile (fun m => decide (m < t.hidden)) t.f (if E ≠ 0 then t.hidden ||| m else m)
        (if E ≠ 0 then (E : Int) - t.bias else t.emin) = (mant, e) := by
  have hbias := t.bias_pos
  by_cases hzero : E = 0
  · have hpos : 0 < m := by omega
    obtain ⟨k, heq, hlow, hhigh⟩ := shiftWhile_spec t.f t.f hpos (by omega)
      (Nat.le_mul_of_pos_left _ hpos) t.emin
    refine ⟨m * 2 ^ k, t.emin - k, hlow, hhigh, by rw [emin]; omega, ?_, ?_⟩
    · rw [if_neg (by simpa using hzero), ← heq, ← t.hidden_eq]
      apply shiftWhile_congr (P := fun m => m < 2 ^ (t.f + 1))
      · intro m hm htest
        rw [and_hidden_eq hm, t.hidden_eq, decide_eq_true_eq] at htest
        omega
      · intro m hm
        exact and_hidden_eq hm
      · omega
    · rw [if_neg (by simpa using hzero), if_neg (by simpa using hzero), t.hidden_eq, heq]
  · have hor := hidden_or (t := t) hm
    refine ⟨t.hidden ||| m, (E : Int) - t.bias, by omega, by omega, by omega, ?_, ?_⟩
    · rw [if_pos hzero]
    · rw [if_pos hzero, if_pos hzero]
      obtain ⟨f, hf⟩ : ∃ f, t.f = f + 1 := ⟨t.f - 1, by have := t.f_pos; omega⟩
      rw [hf, shiftWhile, if_neg]
      rw [hor, t.hidden_eq]
      simp

lemma estimate_lt (hf : 8 ≤ t.f) {v : Nat} (hv : v < 2 ^ 8) : v <<< (t.f - 8) < 2 ^ t.f := by
  rw [shiftLeft_eq]
  calc v * 2 ^ (t.f - 8) < 2 ^ 8 * 2 ^ (t.f - 8) :=
        Nat.mul_lt_mul_of_pos_right hv (Nat.two_pow_pos _)
    _ = 2 ^ t.f := by rw [← pow_add]; congr 1; omega

lemma estimate_or_hidden (hf : 8 ≤ t.f) {v : Nat} (hv : v < 2 ^ 8) :
    (v <<< (t.f - 8)) ||| t.hidden = (256 + v) <<< (t.f - 8) := by
  rw [Nat.or_comm, hidden_or (estimate_lt hf hv), shiftLeft_eq, shiftLeft_eq, add_mul]
  congr 1
  rw [show 256 = 2 ^ 8 by rfl, ← pow_add]
  congr 1
  omega

lemma recip_agree (hf : 8 ≤ t.f) (fpcr x mant : Nat) {e : Int} (he : e ≤ t.bias) :
    recipEstimateFinite t fpcr x mant e = recompRecip t fpcr (x &&& t.sign) t.exp mant e := by
  have hmask : ∀ v : Nat, v &&& 255 = v % 2 ^ 8 := fun v => and_two_pow_sub_one_eq_mod v 8
  have hemin : t.emin = 1 - (t.bias : Int) := rfl
  rw [recipEstimateFinite, recompRecip]
  split
  · rfl
  split
  · rfl
  simp only [hmask, mul_comm 2 (mant >>> (t.f - 8))]
  have hv := mod_lt ((1 <<< 19 / (mant >>> (t.f - 8) * 2 + 1) + 1) / 2) (Nat.two_pow_pos 8)
  revert hv
  generalize (1 <<< 19 / (mant >>> (t.f - 8) * 2 + 1) + 1) / 2 % 2 ^ 8 = v
  intro hv
  have hsum : (256 + v) <<< (t.f - 8) < 2 ^ (t.f + 1) := by
    rw [← estimate_or_hidden hf hv, Nat.or_comm, hidden_or (estimate_lt hf hv), pow_succ]
    have := estimate_lt hf hv
    omega
  have hpow : 2 ^ (t.f + 1) = 2 * 2 ^ t.f := pow_succ'
  rw [show -(e + 1) = -e - 1 by omega]
  by_cases hsub : -e - 1 < t.emin
  · -- A subnormal estimate: the exponent field is zero.
    rw [if_pos hsub, if_pos hsub, estimate_or_hidden hf hv]
    by_cases hone : -e - 1 = t.emin - 1
    · rw [if_pos hone]
      simp only [show (-e - 1 + (t.bias : Int)).toNat = 0 by omega,
        show (t.emin - (-e - 1)).toNat = 1 by omega, zero_shiftLeft, or_zero]
      rw [and_frac_of_lt]
      omega
    rw [if_neg hone]
    simp only [show (-e - 1 + 1 + (t.bias : Int)).toNat = 0 by omega,
      show (t.emin - (-e - 1)).toNat = 2 by omega, zero_shiftLeft, or_zero]
    rw [and_frac_of_lt]
    omega
  · rw [if_neg hsub, if_neg hsub, and_frac_of_lt (estimate_lt hf hv)]

lemma index_bounds {f mant : Nat} (hf : 8 ≤ f) (hlow : 2 ^ f ≤ mant) (hhigh : mant < 2 ^ (f + 1))
    {k : Nat} (hk : k ≤ 8) : 2 ^ k ≤ mant >>> (f - k) ∧ mant >>> (f - k) < 2 ^ (k + 1) := by
  rw [shiftRight_eq_div_pow, Nat.le_div_iff_mul_le (Nat.two_pow_pos _),
    Nat.div_lt_iff_lt_mul (Nat.two_pow_pos _), ← pow_add, ← pow_add,
    show k + (f - k) = f by omega, show k + 1 + (f - k) = f + 1 by omega]
  exact ⟨hlow, hhigh⟩

lemma rsqrt_agree (hf : 8 ≤ t.f) {mant : Nat} (hlow : 2 ^ t.f ≤ mant)
    (hhigh : mant < 2 ^ (t.f + 1)) (e : Int) :
    rsqrtEstimateFinite t mant e = recompRsqrt t mant e := by
  have hmask : ∀ v : Nat, v &&& 255 = v % 2 ^ 8 := fun v => and_two_pow_sub_one_eq_mod v 8
  rw [rsqrtEstimateFinite, recompRsqrt]
  simp only [hmask]
  have hindex : 128 ≤ mant >>> (t.f - (if e.tmod 2 = 0 then 7 else 8)) ∧
      mant >>> (t.f - (if e.tmod 2 = 0 then 7 else 8)) < 512 := by
    split
    · have := index_bounds hf hlow hhigh (k := 7) (by omega)
      omega
    · have := index_bounds hf hlow hhigh (k := 8) (by omega)
      omega
  revert hindex
  generalize mant >>> (t.f - (if e.tmod 2 = 0 then 7 else 8)) = index
  intro hindex
  have hodd : index ≤ index ||| 1 ∧ index ||| 1 < 512 :=
    ⟨left_le_or, or_lt_two_pow (n := 9) hindex.2 (by decide)⟩
  have hq : (if index < 256 then index * 2 + 1 else (index ||| 1) * 2) =
      if index < 256 then 2 * index + 1 else 2 * (index ||| 1) := by
    rw [mul_comm index, mul_comm (index ||| 1)]
  rw [hq, linearRoot_eq_binaryRoot (by split <;> omega) (by split <;> omega)]
  have hexp : (-(e + 1)) >>> (1 : Nat) =
      if 0 ≤ -e - 1 then (-e - 1).tdiv 2 else -((-(-e - 1) + 1).tdiv 2) := by
    rw [Int.shiftRight_eq_div_pow]
    split
    · rw [Int.tdiv_eq_ediv_of_nonneg (by omega)]
      omega
    · rw [Int.tdiv_eq_ediv_of_nonneg (by omega)]
      omega
  rw [hexp, and_frac_of_lt (estimate_lt hf (mod_lt _ (Nat.two_pow_pos 8)))]

lemma fraction_and_quiet : (t.fraction x &&& t.quiet = 0) = (x &&& t.quiet = 0) := by
  rw [and_quiet_eq_zero_iff, and_quiet_eq_zero_iff, testBit_of_quiet]

/-- The helper in the terms of the inline texts: the control bits that it reads and its masks
are theirs. -/
lemma recompFpEstimate_eq (rsqrt : Bool) :
    recompFpEstimate t fpcr x rsqrt =
      if t.biased x = 2 * t.bias + 1 ∧ t.fraction x ≠ 0 then
        (if dn fpcr then t.exp ||| t.quiet else x ||| t.quiet, if x &&& t.quiet = 0 then 1 else 0)
      else if t.biased x = 0 ∧ t.fraction x = 0 then ((x &&& t.sign) ||| t.exp, 2)
      else if t.biased x = 0 ∧ t.fraction x ≠ 0 ∧ fz fpcr then ((x &&& t.sign) ||| t.exp, 130)
      else if rsqrt ∧ x &&& t.sign ≠ 0 then (t.exp ||| t.quiet, 1)
      else if t.biased x = 2 * t.bias + 1 then (x &&& t.sign, 0)
      else
        let (mant, e) := shiftWhile (fun m => decide (m < t.hidden)) t.f
          (if t.biased x ≠ 0 then t.hidden ||| t.fraction x else t.fraction x)
          (if t.biased x ≠ 0 then (t.biased x : Int) - t.bias else t.emin)
        if rsqrt then recompRsqrt t mant e
        else recompRecip t fpcr (x &&& t.sign) t.exp mant e := by
  have hall : (1 <<< t.w) - 1 = 2 * t.bias + 1 := by
    rw [two_mul_bias, one_shiftLeft]
  have hrecip : ∀ sign mant e, recompRecip t (fpcr % 2 ^ 32) sign t.exp mant e =
      recompRecip t fpcr sign t.exp mant e := by
    intro sign mant e
    rw [recompRecip, recompRecip, fz_mod, rmode_mod]
  have hfrac : ∀ y, y &&& (t.hidden - 1) = t.fraction y := fun y => and_frac y
  have hquiet : t.hidden >>> 1 = t.quiet := rfl
  have hsign : 1 <<< (t.f + t.w) = t.sign := rfl
  rw [recompFpEstimate]
  simp only [expmask_eq, hfrac, hquiet, hsign]
  simp only [hall, fz_mod, dn_mod, hrecip, and_exp_shiftRight, fraction_and_quiet]
  by_cases hflush : t.biased x = 0 ∧ t.fraction x ≠ 0 ∧ fz fpcr = true
  · simp [hflush]
  · simp [hflush]

/-- The inline texts and the helper give the same bits and set the same exceptions. -/
lemma estimateValue_agree (hf : 8 ≤ t.f) (fpcr x : Nat) (rsqrt : Bool) :
    (if rsqrt then rsqrtEstimateValue t fpcr x else recipEstimateValue t fpcr x) =
      recompFpEstimate t fpcr x rsqrt := by
  rw [recompFpEstimate_eq, rsqrtEstimateValue, recipEstimateValue]
  simp only [and_exp_shiftRight, and_frac]
  have hE : t.biased x ≤ 2 * t.bias + 1 := by
    rw [t.two_mul_bias]
    exact le_sub_one_of_lt (biased_lt x)
  by_cases hmax : t.biased x = 2 * t.bias + 1
  · by_cases hfrac : t.fraction x = 0
    · have hsign := and_sign (t := t) x
      have hbit : t.sign ≠ 0 := by simp [t.sign_eq]
      cases rsqrt <;> cases hneg : t.negative x <;> simp [hmax, hfrac, hsign, hneg, hbit]
    · cases rsqrt <;> simp [hmax, hfrac]
  by_cases hzero : t.biased x = 0 ∧ t.fraction x = 0
  · cases rsqrt <;> simp [hzero]
  by_cases hflush : t.biased x = 0 ∧ t.fraction x ≠ 0 ∧ fz fpcr = true
  · cases rsqrt <;> simp [hflush]
  -- What is left is a finite operand that is neither zero nor flushed.
  obtain ⟨mant, e, hlow, hhigh, he, hinline, hhelper⟩ := normalised (t := t)
    (fraction_lt x) (by omega) (show t.biased x ≤ 2 * t.bias by omega)
  have hinline' := hinline
  rw [emin] at hinline'
  rw [hhelper, hinline, hinline']
  simp only [hmax, hzero, hflush, if_false, false_and]
  cases rsqrt with
  | false => simp [recip_agree hf fpcr x mant he]
  | true => simp [rsqrt_agree hf hlow hhigh e]

end

/-- FRECPE and FRSQRTE, for both widths, every operand and every FPCR. -/
theorem estimates_agree (dbl rsqrt : Bool) (fpcr x : Nat) :
    (if rsqrt then rsqrtEstimateValue (format dbl) fpcr x
      else recipEstimateValue (format dbl) fpcr x) =
      recompFpEstimate (format dbl) fpcr x rsqrt := by
  apply estimateValue_agree
  cases dbl <;> decide

end Drippu.RecompFp
