import Mathlib.Data.Nat.Bitwise
import Mathlib.Tactic

/-!
# Library - Binary floating-point formats

A binary interchange format has a sign bit, a biased exponent and a fraction.  The masks of
the fields are those that integer code uses to take a word apart; the lemmas say what a
masked word is as a number.
-/

namespace Drippu.Library

open Nat

/-- The widths of the fraction and of the exponent. -/
structure FloatFormat where
  f : Nat
  w : Nat
  f_pos : 0 < f
  w_ge : 2 ≤ w

namespace FloatFormat

variable (t : FloatFormat)

def bias : Nat := 2 ^ (t.w - 1) - 1

/-- The leading bit of a normal significand. -/
def hidden : Nat := 1 <<< t.f

def frac : Nat := t.hidden - 1

def quiet : Nat := t.hidden >>> 1

def exp : Nat := (2 * t.bias + 1) <<< t.f

def sign : Nat := 1 <<< (t.f + t.w)

/-- The least exponent of a normal number. -/
def emin : Int := 1 - t.bias

/-- The words of the format. -/
def Word (x : Nat) : Prop := x < 2 ^ (t.f + t.w + 1)

def negative (x : Nat) : Bool := x.testBit (t.f + t.w)

def biased (x : Nat) : Nat := x / 2 ^ t.f % 2 ^ t.w

def fraction (x : Nat) : Nat := x % 2 ^ t.f

/-! ## Masks -/

lemma hidden_eq : t.hidden = 2 ^ t.f := by
  rw [hidden, shiftLeft_eq, one_mul]

lemma frac_eq : t.frac = 2 ^ t.f - 1 := by
  rw [frac, hidden_eq]

lemma sign_eq : t.sign = 2 ^ (t.f + t.w) := by
  rw [sign, shiftLeft_eq, one_mul]

lemma quiet_eq : t.quiet = 2 ^ (t.f - 1) := by
  have hf := t.f_pos
  rw [quiet, hidden_eq, shiftRight_eq_div_pow, Nat.pow_div (by omega) (by decide)]

lemma two_mul_bias : 2 * t.bias + 1 = 2 ^ t.w - 1 := by
  have hw := t.w_ge
  have hpow : 2 ^ t.w = 2 * 2 ^ (t.w - 1) := by
    rw [← pow_succ']
    congr 1
    omega
  have hpos := Nat.two_pow_pos (t.w - 1)
  rw [bias]
  omega

lemma exp_eq : t.exp = (2 ^ t.w - 1) * 2 ^ t.f := by
  rw [exp, two_mul_bias, shiftLeft_eq]

lemma bias_pos : 0 < t.bias := by
  have hw := t.w_ge
  have : 2 ^ 1 ≤ 2 ^ (t.w - 1) := Nat.pow_le_pow_right (by decide) (by omega)
  rw [bias]
  omega

variable {t} (x : Nat)

lemma fraction_lt : t.fraction x < 2 ^ t.f :=
  mod_lt _ (Nat.two_pow_pos _)

lemma biased_lt : t.biased x < 2 ^ t.w :=
  mod_lt _ (Nat.two_pow_pos _)

lemma and_frac : x &&& t.frac = t.fraction x := by
  rw [frac_eq, and_two_pow_sub_one_eq_mod]
  rfl

lemma testBit_exp (i : Nat) : t.exp.testBit i = decide (t.f ≤ i ∧ i < t.f + t.w) := by
  rw [exp_eq, testBit_mul_two_pow, testBit_two_pow_sub_one, ← Bool.decide_and]
  exact decide_eq_decide.2 (and_congr_right fun h => by omega)

lemma and_exp : x &&& t.exp = t.biased x * 2 ^ t.f := by
  apply eq_of_testBit_eq
  intro i
  rw [testBit_and, testBit_exp, testBit_mul_two_pow, biased, testBit_mod_two_pow,
    testBit_div_two_pow]
  rcases lt_or_ge i t.f with hlt | hge
  · simp [not_le.2 hlt]
  · have : (i < t.f + t.w) = (i - t.f < t.w) := propext (by omega)
    simp [hge, this, Bool.and_comm]

lemma and_exp_shiftRight : (x &&& t.exp) >>> t.f = t.biased x := by
  rw [and_exp, shiftRight_eq_div_pow, Nat.mul_div_cancel _ (Nat.two_pow_pos _)]

lemma and_exp_eq_zero_iff : x &&& t.exp = 0 ↔ t.biased x = 0 := by
  rw [and_exp, mul_eq_zero]
  exact or_iff_left (Nat.two_pow_pos _).ne'

lemma and_exp_eq_exp_iff : x &&& t.exp = t.exp ↔ t.biased x = 2 ^ t.w - 1 := by
  rw [and_exp, exp_eq, Nat.mul_left_inj (Nat.two_pow_pos _).ne']

lemma and_sign : x &&& t.sign = if t.negative x then t.sign else 0 := by
  rw [sign_eq, and_two_pow, negative]
  cases x.testBit (t.f + t.w) <;> simp

lemma and_sign_ne_zero_iff : x &&& t.sign ≠ 0 ↔ t.negative x = true := by
  rw [and_sign]
  cases t.negative x
  · simp
  · simp [sign_eq]

lemma testBit_of_quiet : (t.fraction x).testBit (t.f - 1) = x.testBit (t.f - 1) := by
  have hf := t.f_pos
  rw [fraction, testBit_mod_two_pow]
  simp [show t.f - 1 < t.f by omega]

lemma and_quiet_eq_zero_iff : x &&& t.quiet = 0 ↔ x.testBit (t.f - 1) = false := by
  rw [quiet_eq, and_two_pow]
  simp

/-! ## Words -/

/-- A word is put together from its fields. -/
lemma word_eq {x : Nat} (hx : t.Word x) :
    x = (if t.negative x then 2 ^ (t.f + t.w) else 0) + t.biased x * 2 ^ t.f + t.fraction x := by
  have hlow := div_add_mod x (2 ^ t.f)
  have hmid := div_add_mod (x / 2 ^ t.f) (2 ^ t.w)
  rw [Nat.div_div_eq_div_mul, ← pow_add] at hmid
  have htop : x / 2 ^ (t.f + t.w) < 2 := by
    rw [Nat.div_lt_iff_lt_mul (Nat.two_pow_pos _), ← pow_succ']
    exact hx
  have hsign : (if t.negative x then 2 ^ (t.f + t.w) else 0) =
      2 ^ t.f * (2 ^ t.w * (x / 2 ^ (t.f + t.w))) := by
    rw [negative, testBit_eq_decide_div_mod_eq, mod_eq_of_lt htop, ← mul_assoc, ← pow_add]
    generalize x / 2 ^ (t.f + t.w) = q at htop
    rcases (show q = 0 ∨ q = 1 by omega) with rfl | rfl <;> simp
  rw [hsign, mul_comm (t.biased x), ← mul_add]
  calc x = 2 ^ t.f * (x / 2 ^ t.f) + x % 2 ^ t.f := hlow.symm
    _ = _ := by rw [← hmid]; rfl

lemma shiftLeft_or_eq {m : Nat} (e : Nat) (hm : m < 2 ^ t.f) :
    (e <<< t.f) ||| m = e * 2 ^ t.f + m := by
  rw [← shiftLeft_add_eq_or_of_lt hm, shiftLeft_eq]

lemma or_sign_eq {v : Nat} (hv : v < 2 ^ (t.f + t.w)) : v ||| t.sign = 2 ^ (t.f + t.w) + v := by
  rw [Nat.or_comm, sign, ← shiftLeft_add_eq_or_of_lt hv, shiftLeft_eq, one_mul]

end FloatFormat

/-! ## Normalisation -/

/-- `while (test(m)) m <<= 1, --e`, for at most `fuel` rounds. -/
def shiftWhile (test : Nat → Bool) : (fuel : Nat) → Nat → Int → Nat × Int
  | 0, m, e => (m, e)
  | fuel + 1, m, e => if test m then shiftWhile test fuel (m <<< 1) (e - 1) else (m, e)

/-- The loop ends with the leading bit of the significand in its place, and the product of
the significand and the power of two is the same as before. -/
lemma shiftWhile_spec (f fuel : Nat) {m : Nat} (hpos : 0 < m) (hlt : m < 2 ^ (f + 1))
    (hfuel : 2 ^ f ≤ m * 2 ^ fuel) (e : Int) :
    ∃ k : Nat, shiftWhile (fun m => decide (m < 2 ^ f)) fuel m e = (m * 2 ^ k, e - k) ∧
      2 ^ f ≤ m * 2 ^ k ∧ m * 2 ^ k < 2 ^ (f + 1) := by
  induction fuel generalizing m e with
  | zero => exact ⟨0, by simp [shiftWhile], by simpa using hfuel, by simpa using hlt⟩
  | succ fuel ih =>
    rcases lt_or_ge m (2 ^ f) with hsmall | hge
    · have hdouble : m <<< 1 = m * 2 := by
        rw [shiftLeft_eq]
      obtain ⟨k, heq, hlow, hhigh⟩ := ih (m := m * 2) (by omega) (by omega)
        (by rw [mul_assoc, ← pow_succ']; exact hfuel) (e - 1)
      have hpow : m * 2 * 2 ^ k = m * 2 ^ (k + 1) := by
        rw [mul_assoc, ← pow_succ']
      rw [hpow] at heq hlow hhigh
      refine ⟨k + 1, ?_, hlow, hhigh⟩
      rw [shiftWhile, if_pos (by simpa using hsmall), hdouble, heq]
      congr 1
      omega
    · refine ⟨0, ?_, by simpa using hge, by simpa using hlt⟩
      rw [shiftWhile, if_neg (by simpa using hge)]
      simp

lemma shiftWhile_congr {test test' : Nat → Bool} {P : Nat → Prop} {fuel m : Nat} {e : Int}
    (hstep : ∀ m, P m → test m = true → P (m <<< 1)) (htest : ∀ m, P m → test m = test' m)
    (hm : P m) : shiftWhile test fuel m e = shiftWhile test' fuel m e := by
  induction fuel generalizing m e with
  | zero => rfl
  | succ fuel ih =>
    rw [shiftWhile, shiftWhile, ← htest m hm]
    split
    · rename_i h
      exact ih (hstep m hm h)
    · rfl

end Drippu.Library
