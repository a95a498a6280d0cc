import Mathlib.Data.Int.Log
import Drippu.Library.FloatFormat

/-!
# Library - Rounding to a binary floating-point format

A positive number of an ordered field is scaled so that the last place of its result is the
unit.  The scaled number lies between two integers, and the direction of the rounding chooses
one of them; exponent and fraction of the result are then digits of one number, so that a
carry out of the fraction is a carry into the exponent.

Integer code does not have the scaled number.  It has its integer part, the first bit after
the point, and a sticky bit for the rest.
-/

namespace Drippu.Library

open Nat Int

/-! ## Directions -/

/-- The directions of a rounding. -/
inductive Rounding where
  | tieEven
  | posInf
  | negInf
  | zero
  | tieAway
  deriving DecidableEq, Repr

namespace Rounding

section
variable {K : Type*} [Field K] [LinearOrder K]

/-- Whether the magnitude `m + error` goes up to `m + 1`. -/
def up (r : Rounding) (negative : Bool) (m : Nat) (error : K) : Bool :=
  match r with
  | tieEven => decide (1 / 2 < error) || (decide (error = 1 / 2) && m % 2 == 1)
  | posInf => decide (error ≠ 0) && !negative
  | negInf => decide (error ≠ 0) && negative
  | zero => false
  | tieAway => decide (1 / 2 ≤ error)

end

/-- Whether an overflow goes to infinity, and not to the largest finite number. -/
def overflowToInf (r : Rounding) (negative : Bool) : Bool :=
  match r with
  | tieEven => true
  | posInf => !negative
  | negInf => negative
  | zero => false
  | tieAway => true

/-- The decision from the first bit after the point and the sticky bit. -/
def upBits (r : Rounding) (negative : Bool) (m : Nat) (roundbit sticky : Bool) : Bool :=
  match r with
  | tieEven => roundbit && (sticky || m % 2 == 1)
  | posInf => (roundbit || sticky) && !negative
  | negInf => (roundbit || sticky) && negative
  | zero => false
  | tieAway => roundbit

end Rounding

section
variable {K : Type*} [Field K] [LinearOrder K] [IsStrictOrderedRing K]

/-! ## Guard bits -/

/-- The number `s` by its integer part, the first bit after the point and whether
anything follows. -/
def GuardBits (s : K) (m : Nat) (roundbit sticky : Bool) : Prop :=
  ∃ rest : K, 0 ≤ rest ∧ rest < 1 / 2 ∧ (sticky = true ↔ rest ≠ 0) ∧
    s = m + (if roundbit then 1 / 2 else 0) + rest

namespace GuardBits

variable {s : K} {m : Nat} {roundbit sticky : Bool}

section
variable (h : GuardBits s m roundbit sticky)
include h

lemma le : (m : K) ≤ s := by
  obtain ⟨rest, hnonneg, -, -, rfl⟩ := h
  cases roundbit <;> simp <;> linarith

lemma lt : s < m + 1 := by
  obtain ⟨rest, -, hlt, -, rfl⟩ := h
  cases roundbit <;> simp <;> linarith

lemma floor_eq [FloorSemiring K] : ⌊s⌋₊ = m := by
  have hnonneg : (0 : K) ≤ s := le_trans (cast_nonneg m) h.le
  exact (floor_eq_iff hnonneg).2 ⟨h.le, h.lt⟩

omit [IsStrictOrderedRing K] in
lemma error_eq :
    ∃ rest : K, 0 ≤ rest ∧ rest < 1 / 2 ∧ (sticky = true ↔ rest ≠ 0) ∧
      s - m = (if roundbit then 1 / 2 else 0) + rest := by
  obtain ⟨rest, hnonneg, hlt, hsticky, rfl⟩ := h
  exact ⟨rest, hnonneg, hlt, hsticky, by ring⟩

lemma error_ne_zero_iff : s - m ≠ 0 ↔ (roundbit || sticky) = true := by
  obtain ⟨rest, hnonneg, hlt, hsticky, heq⟩ := h.error_eq
  rw [heq]
  cases roundbit
  · simp [hsticky]
  · have hpos : (1 : K) / 2 + rest ≠ 0 := by positivity
    simpa using hpos

lemma half_le_error_iff : 1 / 2 ≤ s - m ↔ roundbit = true := by
  obtain ⟨rest, hnonneg, hlt, hsticky, heq⟩ := h.error_eq
  rw [heq]
  cases roundbit
  · simpa using hlt
  · simpa using hnonneg

lemma error_eq_half_iff : s - m = 1 / 2 ↔ (roundbit && !sticky) = true := by
  obtain ⟨rest, hnonneg, hlt, hsticky, heq⟩ := h.error_eq
  rw [heq]
  cases roundbit
  · simpa using hlt.ne
  · cases sticky <;> simpa using hsticky

lemma half_lt_error_iff : 1 / 2 < s - m ↔ (roundbit && sticky) = true := by
  rw [lt_iff_le_and_ne, h.half_le_error_iff, ne_comm, Ne, h.error_eq_half_iff]
  cases roundbit <;> cases sticky <;> decide

lemma up_eq (r : Rounding) (negative : Bool) :
    r.up negative m (s - m) = r.upBits negative m roundbit sticky := by
  cases r with
  | tieEven =>
    simp only [Rounding.up, Rounding.upBits, h.half_lt_error_iff, h.error_eq_half_iff,
      Bool.decide_eq_true]
    cases roundbit <;> cases sticky <;> simp
  | posInf | negInf => simp [Rounding.up, Rounding.upBits, h.error_ne_zero_iff]
  | zero => rfl
  | tieAway => simp only [Rounding.up, Rounding.upBits, h.half_le_error_iff, Bool.decide_eq_true]

end

/-! ### Where the bits come from -/

lemma of_quot {n d q rem : Nat} (hn : n = q * d + rem) (hrem : rem < d) :
    GuardBits ((n : K) / d) q (decide (d ≤ 2 * rem)) (decide (2 * rem ≠ 0 ∧ 2 * rem ≠ d)) := by
  have hd : (0 : K) < d := by exact_mod_cast zero_lt_of_lt hrem
  have hq : (n : K) / d = q + rem / d := by
    rw [hn]
    push_cast
    field_simp
  rw [hq]
  by_cases hhalf : d ≤ 2 * rem
  · obtain ⟨k, hk⟩ := Nat.exists_eq_add_of_le hhalf
    have hrest : (rem : K) / d = 1 / 2 + k / (2 * d) := by
      have : (2 : K) * rem = d + k := by exact_mod_cast hk
      field_simp
      linarith
    refine ⟨k / (2 * d), div_nonneg (cast_nonneg k) (by linarith), ?_, ?_, ?_⟩
    · have : (k : K) < d := by exact_mod_cast (by omega : k < d)
      rw [div_lt_div_iff₀ (by positivity) two_pos]
      linarith
    · have : (k : K) / (2 * d) ≠ 0 ↔ k ≠ 0 := by simp [hd.ne']
      rw [decide_eq_true_eq, this]
      omega
    · simp [hhalf, hrest, add_assoc]
  · refine ⟨rem / d, div_nonneg (cast_nonneg rem) hd.le, ?_, ?_, ?_⟩
    · have : (2 : K) * rem < d := by exact_mod_cast lt_of_not_ge hhalf
      rw [div_lt_div_iff₀ hd two_pos]
      linarith
    · have : (rem : K) / d ≠ 0 ↔ rem ≠ 0 := by simp [hd.ne']
      rw [decide_eq_true_eq, this]
      omega
    · simp [hhalf]

lemma of_two_pow (p c : Nat) :
    GuardBits ((p : K) / 2 ^ (c + 1)) (p / 2 ^ (c + 1)) (p.testBit c) (decide (p % 2 ^ c ≠ 0)) := by
  have hquot := of_quot (K := K) (div_add_mod' p (2 ^ (c + 1))).symm
    (mod_lt p (Nat.two_pow_pos _))
  have hmod : p % 2 ^ (c + 1) = p % 2 ^ c + 2 ^ c * (p / 2 ^ c % 2) := mod_pow_succ
  have hpow : 2 ^ (c + 1) = 2 * 2 ^ c := pow_succ'
  have hround : decide (2 ^ (c + 1) ≤ 2 * (p % 2 ^ (c + 1))) = p.testBit c := by
    rw [testBit_eq_decide_div_mod_eq, decide_eq_decide, hmod, hpow]
    rcases mod_two_eq_zero_or_one (p / 2 ^ c) with h | h
    · simp [h]; omega
    · simp [h]
  have hsticky : decide (2 * (p % 2 ^ (c + 1)) ≠ 0 ∧ 2 * (p % 2 ^ (c + 1)) ≠ 2 ^ (c + 1)) =
      decide (p % 2 ^ c ≠ 0) := by
    rw [decide_eq_decide, hmod, hpow]
    rcases mod_two_eq_zero_or_one (p / 2 ^ c) with h | h
    · simp [h]; omega
    · simp [h]
  rw [hround, hsticky] at hquot
  exact_mod_cast hquot

omit [IsStrictOrderedRing K] in
lemma of_lt_half {s : K} (hpos : 0 < s) (hlt : s < 1 / 2) : GuardBits s 0 false true :=
  ⟨s, hpos.le, hlt, by simp [hpos.ne'], by simp⟩

lemma of_natCast (m : Nat) : GuardBits (m : K) m false false :=
  ⟨0, le_refl 0, by positivity, by simp, by simp⟩

end GuardBits
end

/-! ## Values -/

namespace FloatFormat

variable (t : FloatFormat)

/-- The significand, with its leading bit when the number is normal. -/
def significand (x : Nat) : Nat := t.fraction x + if t.biased x = 0 then 0 else 2 ^ t.f

/-- The exponent of the leading bit of a normal number; subnormal numbers have the least. -/
def exponent (x : Nat) : Int := if t.biased x = 0 then t.emin else (t.biased x : Int) - t.bias

section
variable {K : Type*} [Field K]

variable (K) in
/-- The magnitude of a finite number. -/
def magnitude (x : Nat) : K := t.significand x * 2 ^ (t.exponent x - t.f)

variable (K) in
/-- The value of a finite number. -/
def value (x : Nat) : K := if t.negative x then -t.magnitude K x else t.magnitude K x

end

lemma significand_eq_zero_iff (x : Nat) :
    t.significand x = 0 ↔ t.biased x = 0 ∧ t.fraction x = 0 := by
  rw [significand]
  split
  · simp_all
  · simp_all

lemma significand_lt (x : Nat) : t.significand x < 2 ^ (t.f + 1) := by
  have hf := fraction_lt (t := t) x
  rw [significand, pow_succ]
  split <;> omega

section
variable {K : Type*} [Field K] [LinearOrder K] [IsStrictOrderedRing K] {t}

lemma magnitude_nonneg (x : Nat) : 0 ≤ t.magnitude K x :=
  mul_nonneg (cast_nonneg _) (by positivity)

lemma magnitude_pos {x : Nat} (hx : 0 < t.significand x) : 0 < t.magnitude K x :=
  mul_pos (by exact_mod_cast hx) (by positivity)

@[simp]
lemma abs_value (x : Nat) : |t.value K x| = t.magnitude K x := by
  rw [value]
  split
  · rw [abs_neg, abs_of_nonneg (magnitude_nonneg x)]
  · rw [abs_of_nonneg (magnitude_nonneg x)]

lemma value_ne_zero {x : Nat} (hx : 0 < t.significand x) : t.value K x ≠ 0 := by
  rw [← abs_pos, abs_value]
  exact magnitude_pos hx

lemma exists_normalised (K : Type*) [Field K] [LinearOrder K] [IsStrictOrderedRing K] {x : Nat}
    (hx : 0 < t.significand x) :
    ∃ (m : Nat) (e : Int),
      shiftWhile (fun m => decide (m < t.hidden)) t.f (t.significand x) (t.exponent x) = (m, e) ∧
        2 ^ t.f ≤ m ∧ m < 2 ^ (t.f + 1) ∧ t.magnitude K x = m * 2 ^ (e - t.f) ∧
          t.exponent x - t.f ≤ e ∧ e ≤ t.exponent x := by
  obtain ⟨k, heq, hle, hlt⟩ := shiftWhile_spec t.f t.f hx (t.significand_lt x)
    (Nat.le_mul_of_pos_left _ hx) (t.exponent x)
  have hk : k < t.f + 1 := by
    apply (Nat.pow_lt_pow_iff_right (a := 2) (by decide)).1
    exact lt_of_le_of_lt (Nat.le_mul_of_pos_left _ hx) hlt
  refine ⟨_, _, by rw [t.hidden_eq, heq], hle, hlt, ?_, by omega, by omega⟩
  have htwo : (2 : K) ≠ 0 := two_ne_zero
  rw [magnitude, show t.exponent x - t.f = k + (t.exponent x - k - t.f) by ring, zpow_add₀ htwo,
    zpow_natCast]
  push_cast
  ring

end

/-! ## Rounding -/

/-- The bits of a rounded magnitude and the exceptions that the rounding raised. -/
structure Rounded where
  bits : Nat
  overflow : Bool
  underflow : Bool
  inexact : Bool
  deriving DecidableEq, Repr

/-- The bits of a significand in units of the last place, `k` binades above the least. -/
def packed (k mant : Nat) : Nat := k * 2 ^ t.f + mant

section
variable {K : Type*} [Field K] [LinearOrder K] [IsStrictOrderedRing K] [FloorSemiring K]

/-- The magnitude `m` rounded.  A number is tiny before it is rounded. -/
def round (r : Rounding) (negative : Bool) (m : K) : Rounded :=
  let e := log 2 m
  let last := max e t.emin
  let scaled := m * 2 ^ ((t.f : Int) - last)
  let mant := ⌊scaled⌋₊
  let error := scaled - mant
  let bits := t.packed (last - t.emin).toNat (if r.up negative mant error then mant + 1 else mant)
  let overflow := decide (t.exp ≤ bits)
  { bits := if overflow then (if r.overflowToInf negative then t.exp else t.exp - 1) else bits
    overflow := overflow
    underflow := decide (e < t.emin) && decide (error ≠ 0)
    inexact := overflow || decide (error ≠ 0) }

/-! ### Scaled numbers -/

lemma log_eq {x : K} {e : Int} (hle : 2 ^ e ≤ x) (hlt : x < 2 ^ (e + 1)) : log 2 x = e := by
  have hpos : 0 < x := lt_of_lt_of_le (by positivity) hle
  have hlow : e ≤ log 2 x := (zpow_le_iff_le_log (by decide) hpos).1 (by exact_mod_cast hle)
  have hhigh : log 2 x < e + 1 := (lt_zpow_iff_log_lt (by decide) hpos).1 (by exact_mod_cast hlt)
  omega

lemma log_natCast_mul {p k : Nat} (hle : 2 ^ k ≤ p) (hlt : p < 2 ^ (k + 1)) (q : Int) :
    log 2 ((p : K) * 2 ^ q) = k + q := by
  have hpos : (0 : K) < 2 ^ q := by positivity
  have htwo : (2 : K) ≠ 0 := two_ne_zero
  apply log_eq
  · rw [zpow_add₀ htwo, zpow_natCast]
    exact mul_le_mul_of_nonneg_right (by exact_mod_cast hle) hpos.le
  · rw [show (k : Int) + q + 1 = ((k + 1 : Nat) : Int) + q by push_cast; ring, zpow_add₀ htwo,
      zpow_natCast]
    exact mul_lt_mul_of_pos_right (by exact_mod_cast hlt) hpos

variable {t : FloatFormat}

/-- The scaled number has at most one bit before the fraction bits. -/
lemma scaled_lt (m : K) : m * 2 ^ ((t.f : Int) - max (log 2 m) t.emin) < 2 ^ (t.f + 1) := by
  have htwo : (2 : K) ≠ 0 := two_ne_zero
  have hlt : m < 2 ^ (log 2 m + 1) := by
    exact_mod_cast lt_zpow_succ_log_self (b := 2) (by decide) m
  calc m * 2 ^ ((t.f : Int) - max (log 2 m) t.emin)
      < 2 ^ (log 2 m + 1) * 2 ^ ((t.f : Int) - max (log 2 m) t.emin) :=
        mul_lt_mul_of_pos_right hlt (by positivity)
    _ = 2 ^ (log 2 m + 1 + ((t.f : Int) - max (log 2 m) t.emin)) :=
        (zpow_add₀ htwo _ _).symm
    _ ≤ 2 ^ ((t.f + 1 : Nat) : Int) := by
        apply zpow_le_zpow_right₀ one_le_two
        omega
    _ = 2 ^ (t.f + 1) := zpow_natCast _ _

lemma le_scaled {m : K} (hm : 0 < m) (he : t.emin ≤ log 2 m) :
    2 ^ t.f ≤ m * 2 ^ ((t.f : Int) - max (log 2 m) t.emin) := by
  have htwo : (2 : K) ≠ 0 := two_ne_zero
  have hle : 2 ^ log 2 m ≤ m := by
    exact_mod_cast zpow_log_le_self (b := 2) (by decide) hm
  calc (2 : K) ^ t.f = 2 ^ (log 2 m + ((t.f : Int) - log 2 m)) := by
        rw [add_sub_cancel, zpow_natCast]
    _ = 2 ^ log 2 m * 2 ^ ((t.f : Int) - log 2 m) := zpow_add₀ htwo _ _
    _ ≤ m * 2 ^ ((t.f : Int) - log 2 m) := mul_le_mul_of_nonneg_right hle (by positivity)
    _ = _ := by rw [max_eq_left he]

/-- The significand before it is rounded: at most one bit before the fraction, and that bit
unless the number is tiny. -/
lemma mant_bounds {m : K} {mant : Nat} {roundbit sticky : Bool} (hm : 0 < m)
    (h : GuardBits (m * 2 ^ ((t.f : Int) - max (log 2 m) t.emin)) mant roundbit sticky) :
    mant < 2 ^ (t.f + 1) ∧ (t.emin ≤ log 2 m → 2 ^ t.f ≤ mant) := by
  constructor
  · have : (mant : K) < 2 ^ (t.f + 1) := lt_of_le_of_lt h.le (scaled_lt m)
    exact_mod_cast this
  · intro he
    have : (2 : K) ^ t.f < mant + 1 := lt_of_le_of_lt (le_scaled hm he) h.lt
    have : 2 ^ t.f < mant + 1 := by exact_mod_cast this
    omega

/-- The rounding in terms of the integer part and the two bits. -/
lemma round_eq (r : Rounding) (negative : Bool) {m : K} {mant : Nat} {roundbit sticky : Bool}
    (h : GuardBits (m * 2 ^ ((t.f : Int) - max (log 2 m) t.emin)) mant roundbit sticky) :
    t.round r negative m =
      let bits := t.packed (max (log 2 m) t.emin - t.emin).toNat
        (if r.upBits negative mant roundbit sticky then mant + 1 else mant)
      let overflow := decide (t.exp ≤ bits)
      { bits := if overflow then (if r.overflowToInf negative then t.exp else t.exp - 1) else bits
        overflow := overflow
        underflow := decide (log 2 m < t.emin) && (roundbit || sticky)
        inexact := overflow || (roundbit || sticky) } := by
  rw [round]
  simp [h.floor_eq, h.up_eq, h.error_ne_zero_iff]

end
end FloatFormat
end Drippu.Library
