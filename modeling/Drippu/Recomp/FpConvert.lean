import Drippu.Recomp.FpBody
import Drippu.Recomp.FpScan

/-!
# Recomp - Conversions between floating point and integers

The helpers of the runtime convert a significand directly: it is shifted to the units of the
integer, the bits that are shifted out round it, and the magnitude is compared with the limits
of the target.  An integer is converted by its leading bit.

Main results:

- Theorem `conversions_exact`: the helpers compute the architecture's conversions.
-/

namespace Drippu.RecompFp

open Library FloatFormat ArmFp Rounding
open Nat hiding or_left_comm

open GuardBits

/-! ## The helpers -/

/-- What the shift of a significand gives: the magnitude, whether bits were lost, and whether
it is out of range. -/
structure Shifted where
  magnitude : Nat
  inexact : Bool
  invalid : Bool

/-- The part of `recomp_fp_to_fixed` after `shift` is known. -/
def shiftFixed (limit mantissa : Nat) (shift : Int) : Shifted :=
  if shift ≥ 0 then
    if shift ≥ 64 ∨ mantissa > limit >>> shift.toNat then ⟨0, false, true⟩
    else ⟨mantissa <<< shift.toNat, false, false⟩
  else
    let discarded := (-shift).toNat
    let (magnitude, inexact) :=
      if discarded ≥ 64 then (0, mantissa != 0)
      else (mantissa >>> discarded, (mantissa &&& ((1 <<< discarded) - 1)) != 0)
    ⟨magnitude, inexact, decide (magnitude > limit)⟩

/-- The part of `recomp_fp_to_int` after `shift` is known. -/
def shiftInt (rmode : Nat) (negative : Bool) (limit mantissa : Nat) (shift : Int) : Shifted :=
  if shift ≥ 0 then
    if shift ≥ 64 ∨ mantissa > limit >>> shift.toNat then ⟨0, false, true⟩
    else ⟨mantissa <<< shift.toNat, false, false⟩
  else
    let discarded := (-shift).toNat
    let (magnitude, remainder, half) :=
      if discarded < 64 then
        (mantissa >>> discarded, mantissa &&& ((1 <<< discarded) - 1), 1 <<< (discarded - 1))
      else (0, mantissa, 0)
    let inexact := remainder != 0
    let magnitude :=
      if inexact &&
        ((rmode == 0 && half != 0 &&
            (decide (remainder > half) || (remainder == half && magnitude &&& 1 != 0))) ||
          (rmode == 4 && half != 0 && decide (remainder ≥ half)) || (rmode == 1 && !negative) ||
          (rmode == 2 && negative)) then magnitude + 1 else magnitude
    ⟨magnitude, inexact, decide (magnitude > limit)⟩

section
variable (intBits : Nat) (isSigned negative : Bool)

/-- `limit`, the greatest magnitude of the target. -/
def integerLimit : Nat :=
  let signBit := 1 <<< (intBits - 1)
  if isSigned then signBit - (if negative then 0 else 1) else 2 ^ intBits - 1

/-- `saturated`, the result out of range. -/
def saturated : Nat :=
  if negative then (if isSigned then 1 <<< (intBits - 1) else 0)
  else integerLimit intBits isSigned negative

/-- The text after the shift. -/
def finishInteger (s : Shifted) : Nat × Nat :=
  if s.invalid || (negative && !isSigned && s.magnitude != 0) then
    (saturated intBits isSigned negative, 1)
  else
    ((if negative then (2 ^ 64 - s.magnitude) % 2 ^ 64 else s.magnitude) &&& (2 ^ intBits - 1),
      if s.inexact then 16 else 0)

end

section
variable (t : FloatFormat) (intBits : Nat) (isSigned : Bool) (fpcr bits : Nat)

/-- The common text of the two conversions to integers; `shifted` is what they differ
in. -/
def toIntegerWith (fbits : Nat)
    (shifted : (negative : Bool) → (limit mantissa : Nat) → Int → Shifted) : Nat × Nat :=
  let negative := ((bits >>> (t.f + t.w)) &&& 1) != 0
  let exponent := (bits >>> t.f) &&& (2 ^ t.w - 1)
  let mantissa := bits &&& ((1 <<< t.f) - 1)
  if exponent = 2 ^ t.w - 1 then
    (if mantissa ≠ 0 then 0 else saturated intBits isSigned negative, 1)
  else if exponent = 0 ∧ mantissa = 0 then (0, 0)
  else if exponent = 0 ∧ fz fpcr then (0, 128)
  else
    let mantissa := if exponent = 0 then mantissa else mantissa ||| (1 <<< t.f)
    let shift : Int := (if exponent ≠ 0 then exponent else 1 : Nat) - (t.bias : Int) - t.f + fbits
    finishInteger intBits isSigned negative
      (shifted negative (integerLimit intBits isSigned negative) mantissa shift)

def recompFpToFixed (fbits : Nat) : Nat × Nat :=
  toIntegerWith t intBits isSigned fpcr bits fbits fun _ => shiftFixed

def recompFpToInt (rmode : Nat) : Nat × Nat :=
  toIntegerWith t intBits isSigned fpcr bits 0 (shiftInt rmode)

/-- The text of `recomp_fixed_to_fp` after the magnitude is known. -/
def fixedRound (fbits : Nat) (negative : Bool) (magnitude : Nat) : Nat × Nat :=
  let top := recompBitIndex64 magnitude
  let exponent : Int := (top : Int) - fbits
  let (mantissa, exponent, flags) :=
    if top ≤ t.f then (magnitude <<< (t.f - top), exponent, 0)
    else
      let discarded := top - t.f
      let remainder := magnitude &&& ((1 <<< discarded) - 1)
      let halfway := 1 <<< (discarded - 1)
      let mode := rmode fpcr
      let mantissa := magnitude >>> discarded
      let flags := if remainder ≠ 0 then 16 else 0
      let mantissa :=
        if remainder != 0 && ((mode == 0 && (decide (remainder > halfway) ||
              (remainder == halfway && mantissa &&& 1 != 0))) ||
            (mode == 1 && !negative) || (mode == 2 && negative)) then mantissa + 1
        else mantissa
      if mantissa ≥ 1 <<< (t.f + 1) then (mantissa >>> 1, exponent + 1, flags)
      else (mantissa, exponent, flags)
  ((if negative then 1 <<< (t.f + t.w) else 0) ||| ((exponent + t.bias).toNat <<< t.f) |||
    (mantissa &&& ((1 <<< t.f) - 1)), flags)

def recompFixedToFp (fbits : Nat) : Nat × Nat :=
  let integerMask := 2 ^ intBits - 1
  let negative := isSigned && ((bits >>> (intBits - 1)) &&& 1) != 0
  let bits := bits &&& integerMask
  let magnitude := if negative then ((2 ^ 64 - bits) % 2 ^ 64) &&& integerMask else bits
  if magnitude = 0 then (0, 0) else fixedRound t fpcr fbits negative magnitude

end

/-! ## Rounding to an integer -/

/-- The direction of `recomp_fp_to_int`. -/
def intRounding (rmode : Nat) : Rounding :=
  match rmode with
  | 0 => .tieEven
  | 1 => .posInf
  | 2 => .negInf
  | 3 => .zero
  | _ => .tieAway

variable {intBits m : Nat} (r : Rounding) (negative : Bool)

lemma roundUp_natCast (m : Nat) (err : ℚ) : roundUp r m err = r.up false m err := by
  have hodd : ((m : Int) % 2 == 1) = (m % 2 == 1) := by
    rw [Bool.eq_iff_iff, beq_iff_eq, beq_iff_eq]
    omega
  cases r with
  | tieEven => simp [roundUp, up, hodd]
  | posInf | negInf | zero => simp [roundUp, up]
  | tieAway =>
    have hm : (0 : Int) ≤ m := Int.natCast_nonneg m
    rw [Bool.eq_iff_iff]
    simp only [roundUp, up, Bool.or_eq_true, Bool.and_eq_true, decide_eq_true_eq, hm, and_true]
    rw [le_iff_lt_or_eq, @eq_comm ℚ err]

variable {err w : ℚ}

/-- Below zero a number that is not an integer goes up when its magnitude does not. -/
lemma roundUp_neg (m : Nat) (hpos : 0 < err) (hlt : err < 1) :
    roundUp r (-(m : Int) - 1) (1 - err) = !r.up true m err := by
  have hhalf : 1 / 2 < 1 - err ↔ err < 1 / 2 := by
    constructor <;> intro h <;> linarith
  have heq : 1 - err = 1 / 2 ↔ err = 1 / 2 := by
    constructor <;> intro h <;> linarith
  have hne : 1 - err ≠ 0 := by linarith
  have hneg : -(m : Int) - 1 < 0 := by omega
  have hodd : (-(m : Int) - 1) % 2 = 1 ↔ ¬m % 2 = 1 := by omega
  rw [Bool.eq_iff_iff]
  cases r with
  | tieEven =>
    simp only [roundUp, up, Bool.or_eq_true, Bool.and_eq_true, decide_eq_true_eq,
      beq_iff_eq, hhalf, heq, hodd, Bool.not_eq_true', ← Bool.not_eq_true]
    rcases lt_trichotomy err (1 / 2) with h | h | h
    · simp only [h, h.ne, not_lt_of_gt h, false_and, or_false, not_false_eq_true]
    · simp [h]
    · simp only [h, h.ne', not_lt_of_gt h, false_and, or_false, not_true_eq_false]
  | posInf => simp [roundUp, up, hne]
  | negInf => simp [roundUp, up, hpos.ne']
  | zero => simp [roundUp, up, hne, hneg]
  | tieAway =>
    simp only [roundUp, up, Bool.or_eq_true, Bool.and_eq_true, decide_eq_true_eq,
      hhalf, not_le.2 hneg, and_false, or_false, Bool.not_eq_true', decide_eq_false_iff_not,
      not_le]

lemma roundToInt_add (n : Int) (hnonneg : 0 ≤ err) (hlt : err < 1) :
    roundToInt r (n + err) = if roundUp r n err then n + 1 else n := by
  have hfloor : ⌊(n : ℚ) + err⌋ = n := by
    rw [Int.floor_eq_iff]
    constructor <;> linarith
  rw [roundToInt, hfloor, add_sub_cancel_left]

lemma roundToInt_nonneg (m : Nat) (hnonneg : 0 ≤ err) (hlt : err < 1) :
    roundToInt r (m + err) = if r.up false m err then (m : Int) + 1 else m := by
  rw [← roundUp_natCast, ← roundToInt_add r m hnonneg hlt, Int.cast_natCast]

lemma roundToInt_neg (m : Nat) (hnonneg : 0 ≤ err) (hlt : err < 1) :
    roundToInt r (-(m + err)) = -(if r.up true m err then (m : Int) + 1 else m) := by
  rcases hnonneg.eq_or_lt with rfl | hpos
  · rw [show -((m : ℚ) + 0) = (-(m : Int) : Int) + 0 by simp, roundToInt_add r _ le_rfl one_pos]
    cases r <;> norm_num [roundUp, up]
  have hround := roundToInt_add r (-(m : Int) - 1) (sub_nonneg.2 hlt.le) (sub_lt_self 1 hpos)
  rw [show -((m : ℚ) + err) = (-(m : Int) - 1 : Int) + (1 - err) by push_cast; ring, hround,
    roundUp_neg r m hpos hlt]
  cases r.up true m err
  · simp
  · simp
    ring

/-- The magnitude `w` of a number rounded to an integer. -/
def roundMagnitude (r : Rounding) (negative : Bool) (w : ℚ) : Nat :=
  if r.up negative ⌊w⌋₊ (w - ⌊w⌋₊) then ⌊w⌋₊ + 1 else ⌊w⌋₊

lemma roundToInt_signed (hw : 0 ≤ w) :
    roundToInt r (if negative then -w else w) =
      if negative then -(roundMagnitude r negative w : Int) else roundMagnitude r negative w := by
  have hle := floor_le hw
  have hlt := lt_floor_add_one w
  have hsplit : w = ⌊w⌋₊ + (w - ⌊w⌋₊) := by ring
  have hnonneg : 0 ≤ w - ⌊w⌋₊ := by linarith
  have hone : w - ⌊w⌋₊ < 1 := by linarith
  cases negative with
  | false =>
    have h := roundToInt_nonneg r ⌊w⌋₊ hnonneg hone
    rw [← hsplit] at h
    simp [h, roundMagnitude]
  | true =>
    have h := roundToInt_neg r ⌊w⌋₊ hnonneg hone
    rw [← hsplit] at h
    simp [h, roundMagnitude]

lemma fract_signed (hw : 0 ≤ w) :
    (if negative then -w else w) - ⌊if negative then -w else w⌋ ≠ 0 ↔ w - ⌊w⌋₊ ≠ 0 := by
  have hfract : w - ⌊w⌋₊ = Int.fract w := by
    rw [Int.fract, natCast_floor_eq_intCast_floor hw]
  rw [hfract, Int.self_sub_floor]
  cases negative <;> simp

/-! ## The shifted significand -/

/-- What the shift of a significand has to give for the magnitude `w`: the rounded
magnitude when it is in range. -/
structure Rounds (r : Rounding) (negative : Bool) (limit : Nat) (w : ℚ) (s : Shifted) : Prop where
  invalid_iff : s.invalid = true ↔ limit < roundMagnitude r negative w
  magnitude_eq : s.invalid = false → s.magnitude = roundMagnitude r negative w
  inexact_iff : s.invalid = false → (s.inexact = true ↔ w - ⌊w⌋₊ ≠ 0)

lemma roundMagnitude_natCast (n : Nat) : roundMagnitude r negative n = n := by
  cases r <;> norm_num [roundMagnitude, up]

lemma roundMagnitude_of_guardBits {roundbit sticky : Bool} (h : GuardBits w m roundbit sticky) :
    roundMagnitude r negative w = if r.upBits negative m roundbit sticky then m + 1 else m := by
  rw [roundMagnitude, h.floor_eq, h.up_eq]

variable {limit : Nat}

lemma rounds_of_guardBits {r : Rounding} {negative : Bool} {roundbit sticky : Bool}
    (h : GuardBits w m roundbit sticky) {s : Shifted}
    (hmagnitude : s.magnitude = if r.upBits negative m roundbit sticky then m + 1 else m)
    (hinexact : s.inexact = (roundbit || sticky))
    (hinvalid : s.invalid = decide (s.magnitude > limit)) : Rounds r negative limit w s := by
  have heq : s.magnitude = roundMagnitude r negative w := by
    rw [hmagnitude, roundMagnitude_of_guardBits r negative h]
  constructor
  · rw [hinvalid, heq, decide_eq_true_eq]
  · intro _
    exact heq
  · intro _
    rw [hinexact, h.floor_eq, h.error_ne_zero_iff]

/-- The decision of `recomp_fp_to_int` from the bits that are shifted out. -/
lemma shiftUp_eq {rmode : Nat} (hmode : rmode < 5) (d rem : Nat) (negative : Bool) (m : Nat) :
    (rem != 0 &&
        ((rmode == 0 && 2 ^ d != 0 && (decide (rem > 2 ^ d) || (rem == 2 ^ d && m &&& 1 != 0))) ||
          (rmode == 4 && 2 ^ d != 0 && decide (rem ≥ 2 ^ d)) || (rmode == 1 && !negative) ||
          (rmode == 2 && negative))) =
      (intRounding rmode).upBits negative m (decide (2 ^ (d + 1) ≤ 2 * rem))
        (decide (2 * rem ≠ 0 ∧ 2 * rem ≠ 2 ^ (d + 1))) := by
  have hodd : (m &&& 1 != 0) = (m % 2 == 1) := by
    rcases mod_two_eq_zero_or_one m with h | h <;> simp [h]
  have hpos : (2 ^ d != 0) = true := bne_iff_ne.2 (Nat.two_pow_pos d).ne'
  have hround : decide (2 ^ (d + 1) ≤ 2 * rem) = decide (rem ≥ 2 ^ d) := by
    rw [decide_eq_decide, pow_succ]
    omega
  have hsticky : decide (2 * rem ≠ 0 ∧ 2 * rem ≠ 2 ^ (d + 1)) = (rem != 0 && rem != 2 ^ d) := by
    rw [Bool.eq_iff_iff, decide_eq_true_eq, Bool.and_eq_true, bne_iff_ne, bne_iff_ne, pow_succ]
    omega
  rw [hodd, hround, hsticky, hpos]
  have htwo := Nat.two_pow_pos d
  -- The bits that are shifted out are less than a half, a half, or more.
  rcases lt_trichotomy rem (2 ^ d) with h | h | h
  · have h1 : ¬rem ≥ 2 ^ d := by omega
    have h2 : ¬rem > 2 ^ d := by omega
    have h3 : (rem != 2 ^ d) = true := bne_iff_ne.2 (by omega)
    have h4 : (rem == 2 ^ d) = false := beq_eq_false_iff_ne.2 (by omega)
    interval_cases rmode <;> cases negative <;> simp [intRounding, upBits, h1, h2, h3, h4]
  · have hne : (rem != 0) = true := bne_iff_ne.2 (by omega)
    interval_cases rmode <;> cases negative <;> simp [intRounding, upBits, h]
  · have h1 : rem ≥ 2 ^ d := by omega
    have h3 : (rem != 2 ^ d) = true := bne_iff_ne.2 (by omega)
    have hne : (rem != 0) = true := bne_iff_ne.2 (by omega)
    rw [hne]
    interval_cases rmode <;> cases negative <;> simp [intRounding, upBits, h, h1, h3]

lemma shiftLeft_rounds (hlimit : limit < 2 ^ 64) {mantissa : Nat} (hpos : 0 < mantissa) (k : Nat) :
    Rounds r negative limit ((mantissa : ℚ) * 2 ^ k)
      (if (k : Int) ≥ 64 ∨ mantissa > limit >>> k then ⟨0, false, true⟩
        else ⟨mantissa <<< k, false, false⟩) := by
  have hw : (mantissa : ℚ) * 2 ^ k = ((mantissa * 2 ^ k : Nat) : ℚ) := by
    push_cast
    rfl
  have hiff : ((k : Int) ≥ 64 ∨ mantissa > limit >>> k) ↔ limit < mantissa * 2 ^ k := by
    rw [shiftRight_eq_div_pow, gt_iff_lt, div_lt_iff_lt_mul (Nat.two_pow_pos k)]
    constructor
    · rintro (h | h)
      · have h64 : 2 ^ 64 ≤ 2 ^ k := Nat.pow_le_pow_right (by decide) (by omega)
        calc limit < 2 ^ k := by omega
          _ ≤ mantissa * 2 ^ k := Nat.le_mul_of_pos_left _ hpos
      · exact h
    · exact Or.inr
  rw [hw]
  by_cases h : limit < mantissa * 2 ^ k
  · rw [if_pos (hiff.2 h)]
    constructor
    · rw [roundMagnitude_natCast]
      simpa using h
    · simp
    · simp
  rw [if_neg (hiff.not.2 h)]
  constructor
  · rw [roundMagnitude_natCast]
    simpa using h
  · rw [roundMagnitude_natCast, shiftLeft_eq]
    simp
  · rw [floor_natCast, sub_self]
    simp

/-- The significand of `recomp_fp_to_int` is rounded as the mode says. -/
lemma shiftInt_rounds {rmode : Nat} (hmode : rmode < 5) (negative : Bool)
    (hlimit : limit < 2 ^ 64) {mantissa : Nat} (hpos : 0 < mantissa) (hlt : mantissa < 2 ^ 63)
    (shift : Int) :
    Rounds (intRounding rmode) negative limit ((mantissa : ℚ) * 2 ^ shift)
      (shiftInt rmode negative limit mantissa shift) := by
  rw [shiftInt]
  by_cases hshift : shift ≥ 0
  · obtain ⟨k, rfl⟩ := Int.eq_ofNat_of_zero_le hshift
    exact shiftLeft_rounds _ negative hlimit hpos k
  obtain ⟨d, rfl⟩ : ∃ d : Nat, shift = -((d + 1 : Nat) : Int) := ⟨(-shift).toNat - 1, by omega⟩
  rw [if_neg hshift, neg_neg, Int.toNat_natCast, zpow_neg, zpow_natCast, ← div_eq_mul_inv]
  by_cases hd : d + 1 < 64
  · have hg := of_quot (K := ℚ) (div_add_mod' mantissa (2 ^ (d + 1))).symm
      (mod_lt mantissa (Nat.two_pow_pos _))
    push_cast at hg
    dsimp only
    rw [if_pos hd]
    simp only [shiftRight_eq_div_pow, one_shiftLeft, and_two_pow_sub_one_eq_mod, shiftUp_eq hmode]
    apply rounds_of_guardBits hg
    · rfl
    · rw [Bool.eq_iff_iff]
      simp
      omega
    · rfl
  have hhalf : (mantissa : ℚ) / 2 ^ (d + 1) < 1 / 2 := by
    have hcast : (mantissa : ℚ) < 2 ^ d := by
      have h63 : 2 ^ 63 ≤ 2 ^ d := Nat.pow_le_pow_right (by decide) (by omega)
      exact_mod_cast lt_of_lt_of_le hlt h63
    rw [div_lt_div_iff₀ (by positivity) (by decide), pow_succ]
    linarith
  have hg := of_lt_half (by positivity) hhalf
  dsimp only
  rw [if_neg hd]
  apply rounds_of_guardBits hg
  · have hne : (mantissa != 0) = true := bne_iff_ne.2 hpos.ne'
    simp only [hne]
    interval_cases rmode <;> cases negative <;> simp [intRounding, upBits]
  · simp [hpos.ne']
  · rfl

lemma shiftFixed_eq (limit mantissa : Nat) (shift : Int) :
    shiftFixed limit mantissa shift = shiftInt 3 negative limit mantissa shift := by
  rw [shiftFixed, shiftInt]
  split
  · rfl
  · by_cases h : (-shift).toNat ≥ 64
    · simp [h, not_lt.2 h]
    · simp [h, not_le.1 h]

/-! ## Limits -/

section
variable {intBits : Nat} (hpos : 0 < intBits) (hle : intBits ≤ 64)

lemma integerLimit_lt (hle : intBits ≤ 64) (isSigned negative : Bool) :
    integerLimit intBits isSigned negative < 2 ^ 64 := by
  have h : 2 ^ intBits ≤ 2 ^ 64 := Nat.pow_le_pow_right (by decide) hle
  have h' : 2 ^ (intBits - 1) ≤ 2 ^ 63 := Nat.pow_le_pow_right (by decide) (by omega)
  rw [integerLimit, one_shiftLeft]
  cases isSigned <;> cases negative <;> simp <;> omega

lemma two_pow_pred (hpos : 0 < intBits) : 2 ^ intBits = 2 * 2 ^ (intBits - 1) := by
  rw [← pow_succ', Nat.succ_eq_add_one, Nat.sub_add_cancel hpos]

lemma intMin_nonpos (intBits : Nat) (unsigned : Bool) : intMin intBits unsigned ≤ 0 := by
  cases unsigned <;> simp [intMin]

/-- The limit of a number that is not negative is the greatest integer. -/
lemma integerLimit_nonneg (intBits : Nat) (isSigned : Bool) :
    ((integerLimit intBits isSigned false : Nat) : Int) = intMax intBits (!isSigned) := by
  rw [integerLimit, one_shiftLeft, intMax]
  cases isSigned <;> simp

/-- The limit of a negative number is the magnitude of the least integer. -/
lemma integerLimit_neg (intBits : Nat) :
    ((integerLimit intBits true true : Nat) : Int) = -intMin intBits false := by
  simp [integerLimit, one_shiftLeft, intMin]

lemma integerLimit_nonneg_lt (intBits : Nat) (isSigned : Bool) :
    integerLimit intBits isSigned false < 2 ^ intBits := by
  have hle : 2 ^ (intBits - 1) ≤ 2 ^ intBits := Nat.pow_le_pow_right (by decide) (by omega)
  have hpos := Nat.two_pow_pos intBits
  rw [integerLimit, one_shiftLeft]
  cases isSigned <;> simp
  omega

lemma toBits_natCast (hm : m < 2 ^ intBits) : toBits intBits m = m := by
  have hmod : ((m : Int) % 2 ^ intBits) = ((m % 2 ^ intBits : Nat) : Int) := by
    rfl
  rw [toBits, hmod, Int.toNat_natCast, mod_eq_of_lt hm]

include hle in
lemma toBits_neg (hm : m ≤ 2 ^ 64) :
    ((2 ^ 64 - m) % 2 ^ 64) &&& (2 ^ intBits - 1) = toBits intBits (-(m : Int)) := by
  have hmod : (-(m : Int)) % 2 ^ intBits = (((2 ^ 64 - m) % 2 ^ intBits : Nat) : Int) := by
    obtain ⟨k, hk⟩ := pow_dvd_pow (2 : Int) hle
    rw [Int.natCast_mod, cast_sub hm, cast_pow, cast_pow, cast_ofNat, hk,
      sub_eq_add_neg, add_comm, Int.add_mul_emod_self_left]
  rw [and_two_pow_sub_one_eq_mod, mod_mod_of_dvd _ (pow_dvd_pow 2 hle), toBits,
    hmod, Int.toNat_natCast]

include hpos in
lemma saturated_eq (isSigned negative : Bool) :
    saturated intBits isSigned negative =
      toBits intBits
        (if negative then intMin intBits (!isSigned)
          else intMax intBits (!isSigned)) := by
  rw [saturated]
  cases negative with
  | false =>
    simp only [Bool.false_eq_true, if_false]
    rw [← integerLimit_nonneg, toBits_natCast (integerLimit_nonneg_lt intBits isSigned)]
  | true =>
    cases isSigned with
    | false => simp [intMin, toBits]
    | true =>
      have hcast : (2 : Int) ^ intBits = 2 * 2 ^ (intBits - 1) := by
        exact_mod_cast two_pow_pred hpos
      have hneg : -(2 : Int) ^ (intBits - 1) =
          2 ^ (intBits - 1) + 2 * 2 ^ (intBits - 1) * -1 := by ring
      have hhalf : (0 : Int) < 2 ^ (intBits - 1) := by positivity
      have hpow : (2 : Int) ^ (intBits - 1) = ((2 ^ (intBits - 1) : Nat) : Int) := by
        rfl
      simp only [Bool.not_true, if_true, intMin, Bool.false_eq_true, if_false, one_shiftLeft]
      rw [toBits, hcast, hneg, Int.add_mul_emod_self_left,
        Int.emod_eq_of_lt hhalf.le (by linarith), hpow, Int.toNat_natCast]

variable {r : Rounding} {w : ℚ} {s : Shifted}

lemma inexact_flag {negative : Bool} {limit : Nat} (hs : Rounds r negative limit w s)
    (hvalid : s.invalid = false) :
    (if s.inexact = true then 16 else 0) = if w - ⌊w⌋₊ ≠ 0 then ixc else 0 := by
  simp only [hs.inexact_iff hvalid]
  rfl

variable (hw : 0 ≤ w)
include hw

variable {isSigned : Bool}
include hpos in
lemma finishInteger_nonneg (hs : Rounds r false (integerLimit intBits isSigned false) w s) :
    finishInteger intBits isSigned false s = roundSat r intBits (!isSigned) w := by
  have hround := roundToInt_signed r false hw
  have hfract := fract_signed false hw
  have hmin := intMin_nonpos intBits (!isSigned)
  have hmax := integerLimit_nonneg intBits isSigned
  simp only [Bool.false_eq_true, if_false] at hround hfract
  have hlow : ¬(roundMagnitude r false w : Int) < intMin intBits (!isSigned) := by omega
  rw [roundSat, hround, if_neg hlow, finishInteger]
  simp only [hfract, Bool.false_and, Bool.or_false, Bool.false_eq_true, if_false]
  cases hvalid : s.invalid with
  | true =>
    have hlimit := hs.invalid_iff.1 hvalid
    have hover : intMax intBits (!isSigned) < (roundMagnitude r false w : Int) := by omega
    rw [if_pos rfl, if_pos hover, saturated_eq hpos]
    rfl
  | false =>
    have hlimit : ¬integerLimit intBits isSigned false < roundMagnitude r false w := by
      rw [← hs.invalid_iff, hvalid]
      decide
    have hlt := integerLimit_nonneg_lt intBits isSigned
    have hin : ¬intMax intBits (!isSigned) < (roundMagnitude r false w : Int) := by omega
    rw [if_neg Bool.false_ne_true, if_neg hin, hs.magnitude_eq hvalid, inexact_flag hs hvalid,
      toBits_natCast (by omega), and_two_pow_sub_one_eq_mod, mod_eq_of_lt (by omega)]

include hpos hle in
lemma finishInteger_neg (hs : Rounds r true (integerLimit intBits isSigned true) w s) :
    finishInteger intBits isSigned true s = roundSat r intBits (!isSigned) (-w) := by
  have hround := roundToInt_signed r true hw
  have hfract := fract_signed true hw
  have hsat := saturated_eq hpos isSigned true
  simp only [if_true] at hround hfract hsat
  have hmax : 0 ≤ intMax intBits (!isSigned) := by
    rw [← integerLimit_nonneg]
    exact Int.natCast_nonneg _
  have h64 := integerLimit_lt hle isSigned true
  -- An unsigned target takes no negative number, whatever the limit.
  have hout : (s.invalid || (!isSigned && s.magnitude != 0)) = true ↔
      -(roundMagnitude r true w : Int) < intMin intBits (!isSigned) := by
    cases isSigned with
    | true =>
      have hlimit := integerLimit_neg intBits
      simp only [Bool.not_true, Bool.false_and, Bool.or_false, hs.invalid_iff]
      omega
    | false =>
      cases hvalid : s.invalid with
      | true =>
        have hlimit := hs.invalid_iff.1 hvalid
        simp only [Bool.true_or, intMin, Bool.not_false, if_true, true_iff]
        omega
      | false =>
        rw [hs.magnitude_eq hvalid]
        simp [intMin, pos_iff_ne_zero]
  rw [roundSat, hround, finishInteger]
  simp only [hfract, Bool.true_and, if_true, hout]
  split
  · rw [hsat]
    rfl
  rename_i hin
  have hvalid : s.invalid = false := by
    cases hs : s.invalid <;> simp_all
  have hlimit : ¬integerLimit intBits isSigned true < roundMagnitude r true w := by
    rw [← hs.invalid_iff, hvalid]
    decide
  have hhigh : ¬intMax intBits (!isSigned) < -(roundMagnitude r true w : Int) := by omega
  rw [if_neg hhigh, hs.magnitude_eq hvalid, inexact_flag hs hvalid, toBits_neg hle (by omega)]

include hpos hle in
lemma finishInteger_eq {negative : Bool}
    (hs : Rounds r negative (integerLimit intBits isSigned negative) w s) :
    finishInteger intBits isSigned negative s =
      roundSat r intBits (!isSigned) (if negative then -w else w) := by
  cases negative with
  | false => exact finishInteger_nonneg hpos hw hs
  | true => exact finishInteger_neg hpos hle hw hs

end

/-! ## To integers -/

section
variable {t : FloatFormat}

lemma magnitude_mul_two_pow (a fbits : Nat) :
    t.magnitude ℚ a * 2 ^ fbits =
      (t.significand a : ℚ) *
        2 ^ (((if t.biased a ≠ 0 then t.biased a else 1 : Nat) : Int) - t.bias - t.f + fbits) := by
  have htwo : (2 : ℚ) ≠ 0 := two_ne_zero
  have hexp : ((if t.biased a ≠ 0 then t.biased a else 1 : Nat) : Int) - t.bias = t.exponent a := by
    rw [exponent]
    by_cases h : t.biased a = 0
    · simp [h, emin]
    · simp [h]
  rw [hexp, magnitude, mul_assoc, ← zpow_natCast, ← zpow_add₀ htwo]

lemma roundToInt_zero : roundToInt r 0 = 0 := by
  have h := roundToInt_signed r false (le_refl (0 : ℚ))
  have hzero := roundMagnitude_natCast r false 0
  rw [cast_zero] at hzero
  simpa [hzero] using h

lemma roundSat_zero (intBits : Nat) (isSigned : Bool) :
    roundSat r intBits (!isSigned) 0 = (0, 0) := by
  have hlow := intMin_nonpos intBits (!isSigned)
  have hhigh : 0 ≤ intMax intBits (!isSigned) := by
    rw [← integerLimit_nonneg]
    exact Int.natCast_nonneg _
  rw [roundSat, roundToInt_zero, if_neg (not_lt.2 hlow), if_neg (not_lt.2 hhigh)]
  simp [toBits]

/-- Both conversions to integers: an operand is rounded as the shift rounds it, and saturated. -/
lemma toIntegerWith_eq (hf : t.f < 62) (hpos : 0 < intBits) (hle : intBits ≤ 64) (isSigned : Bool)
    (fpcr bits fbits : Nat) {r : Rounding} {shifted : Bool → Nat → Nat → Int → Shifted}
    (hshifted : ∀ negative {limit mantissa : Nat}, limit < 2 ^ 64 → 0 < mantissa →
      mantissa < 2 ^ 63 → ∀ shift, Rounds r negative limit ((mantissa : ℚ) * 2 ^ shift)
        (shifted negative limit mantissa shift)) :
    toIntegerWith t intBits isSigned fpcr bits fbits shifted =
      fpToFixed t (control fpcr) r fbits intBits (!isSigned) bits := by
  have hmax := biased_max_ne_zero (t := t)
  have hnegative : (((bits >>> (t.f + t.w)) &&& 1) != 0) = t.negative bits :=
    shiftRight_and_one_bne bits _
  have hexponent : (bits >>> t.f) &&& (2 ^ t.w - 1) = t.biased bits := by
    rw [and_two_pow_sub_one_eq_mod, shiftRight_eq_div_pow]
    rfl
  have hmantissa : bits &&& ((1 <<< t.f) - 1) = t.fraction bits := by
    rw [one_shiftLeft, and_two_pow_sub_one_eq_mod]
    rfl
  rw [toIntegerWith, fpToFixed, fpUnpack, control_fz]
  simp only [hnegative, hexponent, hmantissa]
  by_cases hflush : fz fpcr = true ∧ t.biased bits = 0 ∧ t.fraction bits ≠ 0
  · obtain ⟨hfz, hzero, hfrac⟩ := hflush
    rw [if_neg (hzero ▸ hmax.symm), if_neg fun h => hfrac h.2, if_pos ⟨hzero, hfz⟩,
      if_pos ⟨hfz, hzero, hfrac⟩]
    simp only [zero_mul, roundSat_zero]
    rfl
  rw [if_neg hflush]
  by_cases hall : t.biased bits = 2 ^ t.w - 1
  · have hzero : t.biased bits ≠ 0 := by rw [hall]; exact hmax
    rw [if_pos hall, fpType, if_neg hzero, if_pos hall, saturated_eq hpos]
    by_cases hfrac : t.fraction bits = 0
    · rw [if_neg (not_not.2 hfrac), if_pos hfrac]
      simp [raise, ioc]
    · rw [if_pos hfrac, if_neg hfrac]
      cases bits.testBit (t.f - 1) <;> simp [raise, ioc]
  rw [if_neg hall]
  by_cases hzero : t.biased bits = 0 ∧ t.fraction bits = 0
  · have hvalue := value_eq_zero_of_fields (K := ℚ) hzero.1 hzero.2
    rw [if_pos hzero, (fpType_eq_zero_iff bits).2 hzero, hvalue]
    simp only [zero_mul, roundSat_zero]
    rfl
  rw [if_neg hzero, if_neg fun h => hflush ⟨h.2, h.1, fun hfrac => hzero ⟨h.1, hfrac⟩⟩]
  have htype : fpType t bits = .nonzero := by
    rw [fpType]
    split
    · rename_i h
      rw [if_neg fun hf => hzero ⟨h, hf⟩]
    · rfl
  have hsig : 0 < t.significand bits := by
    apply significand_pos
    simp [htype]
  have hsig' : (if t.biased bits = 0 then t.fraction bits else t.fraction bits ||| 1 <<< t.f) =
      t.significand bits := by
    rw [← mantissa_eq, mantissa, and_exp_shiftRight, and_frac]
    by_cases h : t.biased bits = 0
    · simp [h]
    · simp [h, FloatFormat.hidden]
  have hbound : t.significand bits < 2 ^ 63 :=
    lt_of_lt_of_le (t.significand_lt bits) (Nat.pow_le_pow_right (by decide) (by omega))
  have hrounds := hshifted (t.negative bits)
    (integerLimit_lt hle isSigned (t.negative bits)) hsig hbound
    (((if t.biased bits ≠ 0 then t.biased bits else 1 : Nat) : Int) - t.bias - t.f + fbits)
  have hnonneg : 0 ≤ t.magnitude ℚ bits * 2 ^ fbits :=
    mul_nonneg (magnitude_nonneg bits) (by positivity)
  rw [← magnitude_mul_two_pow] at hrounds
  have hvalue : t.value ℚ bits * 2 ^ fbits =
      if t.negative bits then -(t.magnitude ℚ bits * 2 ^ fbits)
      else t.magnitude ℚ bits * 2 ^ fbits := by
    rw [value]
    split
    · ring
    · rfl
  have hfinish := finishInteger_eq hpos hle hnonneg hrounds
  rw [htype, hsig']
  simp only [hvalue]
  rw [← hfinish, raise, zero_or]

end

/-! ## From integers -/

section
variable {t : FloatFormat}

lemma intOperand_eq (hpos : 0 < intBits) (hle : intBits ≤ 64) (isSigned : Bool) (bits : Nat) :
    let negative := isSigned && ((bits >>> (intBits - 1)) &&& 1) != 0
    let magnitude :=
      if negative then ((2 ^ 64 - (bits &&& (2 ^ intBits - 1))) % 2 ^ 64) &&& (2 ^ intBits - 1)
      else bits &&& (2 ^ intBits - 1)
    intOperand intBits (!isSigned) bits =
        (if negative then -(magnitude : Int) else magnitude) ∧ magnitude < 2 ^ 64 := by
  have hpow := two_pow_pred hpos
  have hhalf := Nat.two_pow_pos (intBits - 1)
  have h64 : 2 ^ intBits ≤ 2 ^ 64 := Nat.pow_le_pow_right (by decide) hle
  have hsign : bits.testBit (intBits - 1) = decide (2 ^ (intBits - 1) ≤ bits % 2 ^ intBits) := by
    have hlow := mod_lt bits hhalf
    rw [testBit_eq_decide_div_mod_eq, decide_eq_decide, hpow, mul_comm 2, mod_mul]
    rcases mod_two_eq_zero_or_one (bits / 2 ^ (intBits - 1)) with h | h <;> simp [h, hlow]
  simp only [shiftRight_and_one_bne, and_two_pow_sub_one_eq_mod]
  rw [intOperand]
  cases isSigned with
  | false =>
    simp
    omega
  | true =>
    have hneg : 0 < bits % 2 ^ intBits →
        (2 ^ 64 - bits % 2 ^ intBits) % 2 ^ 64 % 2 ^ intBits =
          2 ^ intBits - bits % 2 ^ intBits := by
      intro hb
      obtain ⟨k, hk⟩ := pow_dvd_pow 2 hle
      obtain ⟨k, rfl⟩ : ∃ j, k = j + 1 := ⟨k - 1, by
        have : k ≠ 0 := by
          rintro rfl
          simp at hk
        omega⟩
      rw [mul_succ] at hk
      rw [mod_mod_of_dvd _ (pow_dvd_pow 2 hle),
        show 2 ^ 64 - bits % 2 ^ intBits = 2 ^ intBits - bits % 2 ^ intBits + 2 ^ intBits * k by
          omega,
        add_mul_mod_self_left, mod_eq_of_lt (by omega)]
    rw [Bool.not_true, if_neg (by decide), BitVec.toInt_eq_toNat_cond, BitVec.toNat_ofNat, hsign]
    by_cases hb : 2 ^ (intBits - 1) ≤ bits % 2 ^ intBits
    · simp only [hb, decide_true, Bool.and_self, if_true]
      omega
    · simp only [hb, decide_false, Bool.and_false, Bool.false_eq_true, if_false]
      omega

lemma packTail_fixed {e : Int} (hle : 2 ^ t.f ≤ m) (hhigh : e < t.bias) (mode : Nat)
    (negative : Bool) (flags : Nat) :
    packTail t mode negative m e flags =
      let p := if m ≥ 1 <<< (t.f + 1) then (m >>> 1, e + 1, flags) else (m, e, flags)
      ((if negative then 1 <<< (t.f + t.w) else 0) ||| ((p.2.1 + t.bias).toNat <<< t.f) |||
        (p.1 &&& ((1 <<< t.f) - 1)), p.2.2) := by
  have hcarry : t.hidden <<< 1 = 1 <<< (t.f + 1) := (shiftLeft_add 1 t.f 1).symm
  rw [packTail_normal hle hhigh, hcarry, frac, FloatFormat.hidden, sign]
  by_cases h : m ≥ 1 <<< (t.f + 1)
  · cases negative <;> simp [h, Nat.or_comm, Nat.or_left_comm]
  · cases negative <;> simp [h, Nat.or_comm, Nat.or_left_comm]

section
variable {fpcr fbits magnitude top : Nat} (htop : recompBitIndex64 magnitude = top)
  (hlow : 2 ^ top ≤ magnitude) (hhigh : magnitude < 2 ^ (top + 1)) (hemin : t.emin ≤ top - fbits)
  (hbias : (top : Int) - fbits < t.bias)
include htop hlow hhigh hemin hbias

lemma fixedRound_of_le (hle : top ≤ t.f) (negative : Bool) :
    fixedRound t fpcr fbits negative magnitude =
      roundTail t (rmode fpcr) negative (magnitude <<< (t.f - top)) (top - fbits) false false := by
  have hsplit : 2 ^ t.f = 2 ^ top * 2 ^ (t.f - top) := by
    rw [← pow_add, Nat.add_sub_cancel' hle]
  have hm : 2 ^ t.f ≤ magnitude <<< (t.f - top) := by
    rw [hsplit, shiftLeft_eq]
    exact mul_le_mul_right _ hlow
  have hcarry : ¬magnitude <<< (t.f - top) ≥ 1 <<< (t.f + 1) := by
    rw [one_shiftLeft, pow_succ, hsplit, shiftLeft_eq, not_le, mul_right_comm, ← pow_succ]
    exact mul_lt_mul_of_pos_right hhigh (Nat.two_pow_pos _)
  have hnormal : ¬(top : Int) - fbits < t.emin := by omega
  rw [roundTail, fixedRound, htop, if_pos hle]
  simp only [hnormal, if_false, Bool.or_false, Bool.false_and, Bool.false_eq_true]
  rw [packTail_fixed hm hbias, if_neg hcarry]

omit hhigh in
lemma fixedRound_of_lt {d : Nat} (hd : top = t.f + (d + 1)) (negative : Bool) :
    fixedRound t fpcr fbits negative magnitude =
      roundTail t (rmode fpcr) negative (magnitude / 2 ^ (d + 1)) (top - fbits)
        (decide (2 ^ (d + 1) ≤ 2 * (magnitude % 2 ^ (d + 1))))
        (decide (2 * (magnitude % 2 ^ (d + 1)) ≠ 0 ∧
          2 * (magnitude % 2 ^ (d + 1)) ≠ 2 ^ (d + 1))) := by
  have hm : 2 ^ t.f ≤ magnitude / 2 ^ (d + 1) := by
    rw [le_div_iff_mul_le (Nat.two_pow_pos _), ← pow_add, ← hd]
    exact hlow
  have hnormal : ¬(top : Int) - fbits < t.emin := by omega
  have hmode := rmode_lt fpcr
  have hdecode : decodeRounding (rmode fpcr) = intRounding (rmode fpcr) := by
    match rmode fpcr, hmode with
    | 0, _ | 1, _ | 2, _ | 3, _ => rfl
  have hup := shiftUp_eq (show rmode fpcr < 5 by omega) d (magnitude % 2 ^ (d + 1)) negative
    (magnitude / 2 ^ (d + 1))
  have hfour : (rmode fpcr == 4) = false := beq_eq_false_iff_ne.2 (by omega)
  have hpow : (2 ^ d != 0) = true := bne_iff_ne.2 (Nat.two_pow_pos d).ne'
  rw [hfour, hpow, Bool.and_true, Bool.false_and, Bool.false_and, Bool.or_false] at hup
  have hlost : (decide (2 ^ (d + 1) ≤ 2 * (magnitude % 2 ^ (d + 1))) ||
      decide (2 * (magnitude % 2 ^ (d + 1)) ≠ 0 ∧ 2 * (magnitude % 2 ^ (d + 1)) ≠ 2 ^ (d + 1))) =
      decide (magnitude % 2 ^ (d + 1) ≠ 0) := by
    rw [Bool.eq_iff_iff, Bool.or_eq_true, decide_eq_true_eq, decide_eq_true_eq, decide_eq_true_eq]
    omega
  rw [roundTail, up_eq hmode, hdecode, ← hup, hlost, fixedRound, htop,
    if_neg (by omega), hd, Nat.add_sub_cancel_left]
  rw [hd] at hnormal hbias
  simp only [one_shiftLeft, and_two_pow_sub_one_eq_mod, shiftRight_eq_div_pow,
    hnormal, if_false, decide_eq_true_eq, or_zero]
  rw [packTail_fixed (by split <;> omega) hbias]
  simp [one_shiftLeft, shiftRight_eq_div_pow]

lemma fixedRound_eq {negative : Bool} {x : ℚ} (hne : x ≠ 0) (hneg : negative = decide (x < 0))
    (habs : |x| = magnitude * 2 ^ (-(fbits : Int))) :
    fixedRound t fpcr fbits negative magnitude = fpRound t (control fpcr) x := by
  have hlog := log_natCast_mul (K := ℚ) hlow hhigh (-(fbits : Int))
  rw [← habs, ← sub_eq_add_neg] at hlog
  have hscaled : |x| * 2 ^ ((t.f : Int) - max ((top : Int) - fbits) t.emin) =
      magnitude * 2 ^ ((t.f : Int) - top) := by
    rw [habs, max_eq_left hemin, mul_assoc, ← zpow_add₀ two_ne_zero]
    congr 2
    ring
  have hfz : ¬((top : Int) - fbits < t.emin ∧ fz fpcr = true) := by omega
  rcases lt_or_ge t.f top with hlt | hle
  · obtain ⟨d, rfl⟩ := Nat.exists_eq_add_of_lt hlt
    rw [fixedRound_of_lt htop hlow hemin hbias (d := d) rfl]
    apply roundTail_eq hne hneg hlog hfz
    rw [hscaled]
    have hg := of_quot (K := ℚ) (div_add_mod' magnitude (2 ^ (d + 1))).symm
      (mod_lt magnitude (Nat.two_pow_pos _))
    have hexp : (t.f : Int) - ((t.f + d + 1 : Nat) : Int) = -((d + 1 : Nat) : Int) := by
      push_cast
      ring
    rw [hexp, zpow_neg, zpow_natCast, ← div_eq_mul_inv]
    exact_mod_cast hg
  · rw [fixedRound_of_le htop hlow hhigh hemin hbias hle]
    apply roundTail_eq hne hneg hlog hfz
    have hcast : (magnitude : ℚ) * 2 ^ ((t.f : Int) - top) = (magnitude <<< (t.f - top) : Nat) := by
      rw [show (t.f : Int) - top = ((t.f - top : Nat) : Int) by omega, zpow_natCast, shiftLeft_eq]
      push_cast
      rfl
    rw [hscaled, hcast]
    exact of_natCast _

end

/-- `recomp_fixed_to_fp` rounds once.  Every result is zero or normal. -/
lemma recompFixedToFp_eq (hbias : 64 < t.bias) {fbits : Nat} (hpos : 0 < intBits)
    (hle : intBits ≤ 64) (hfbits : fbits ≤ 64) (isSigned : Bool) (fpcr bits : Nat) :
    recompFixedToFp t intBits isSigned fpcr bits fbits =
      fixedToFp t (control fpcr) fbits intBits (!isSigned) bits := by
  obtain ⟨hoperand, hlt⟩ := intOperand_eq hpos hle isSigned bits
  rw [recompFixedToFp, fixedToFp, hoperand]
  revert hlt
  generalize (isSigned && ((bits >>> (intBits - 1)) &&& 1) != 0) = negative
  generalize (if negative then
    ((2 ^ 64 - (bits &&& (2 ^ intBits - 1))) % 2 ^ 64) &&& (2 ^ intBits - 1)
    else bits &&& (2 ^ intBits - 1)) = magnitude
  intro hlt
  by_cases hzero : magnitude = 0
  · simp [hzero, fpZero]
  obtain ⟨hlow, hhigh⟩ := recompBitIndex64_spec hzero hlt
  have htop : recompBitIndex64 magnitude < 64 := by
    by_contra h
    have h64 : 2 ^ 64 ≤ 2 ^ recompBitIndex64 magnitude :=
      Nat.pow_le_pow_right (by decide) (by omega)
    omega
  have hemin : t.emin ≤ recompBitIndex64 magnitude - fbits := by
    rw [emin]
    omega
  have hmag : (0 : ℚ) < magnitude := by exact_mod_cast pos_of_ne_zero hzero
  have hscale : (0 : ℚ) < 2 ^ fbits := by positivity
  have hdiv := div_pos hmag hscale
  have hne :
      ((if negative then -(magnitude : Int) else magnitude : Int) : ℚ) / 2 ^ fbits ≠ 0 := by
    cases negative <;> simp [hzero]
  rw [if_neg hzero, if_neg hne]
  refine fixedRound_eq rfl hlow hhigh hemin (by omega) hne ?_ ?_
  · cases negative
    · simp [hdiv.le]
    · simp [neg_div, hdiv]
  · rw [abs_div, abs_of_pos hscale, zpow_neg, zpow_natCast, ← div_eq_mul_inv]
    cases negative <;> simp

end

/-! ## The three helpers -/

/-- The runtime's conversions are those of the architecture: rounding towards zero for fixed
point, in each of five directions to integers, and in the direction of FPCR from integers, with
the exceptions of each. -/
theorem conversions_exact (dbl isSigned wide : Bool) (fpcr bits : Nat) (fbits : Fin 65)
    (rmode : Fin 5) :
    let t := format dbl
    let intBits := if wide then 64 else 32
    let c := control fpcr
    recompFpToFixed t intBits isSigned fpcr bits fbits =
        fpToFixed t c .zero fbits intBits (!isSigned) bits ∧
      recompFpToInt t intBits isSigned fpcr bits rmode =
        fpToFixed t c (intRounding rmode) 0 intBits (!isSigned) bits ∧
      recompFixedToFp t intBits isSigned fpcr bits fbits =
        fixedToFp t c fbits intBits (!isSigned) bits := by
  have hf : (format dbl).f < 62 := by
    cases dbl <;> decide
  have hbias : 64 < (format dbl).bias := by
    cases dbl <;> decide
  have hpos : 0 < if wide then 64 else 32 := by
    cases wide <;> decide
  have hle : (if wide then 64 else 32) ≤ 64 := by
    cases wide <;> decide
  refine ⟨?_, ?_, ?_⟩
  · apply toIntegerWith_eq hf hpos hle
    intro negative limit mantissa hlimit hmantissa hlt shift
    rw [shiftFixed_eq negative]
    exact shiftInt_rounds (show 3 < 5 by decide) negative hlimit hmantissa hlt shift
  · apply toIntegerWith_eq hf hpos hle
    intro negative limit mantissa hlimit hmantissa hlt shift
    exact shiftInt_rounds rmode.isLt negative hlimit hmantissa hlt shift
  · exact recompFixedToFp_eq hbias hpos hle (by omega) isSigned fpcr bits

end Drippu.RecompFp
