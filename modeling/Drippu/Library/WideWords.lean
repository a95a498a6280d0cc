import Mathlib.Data.Nat.Bitwise
import Mathlib.Tactic

/-!
# Library - Arithmetic on arrays of words

An array of words of `w` bits, the least significant one first, stands for a number.  Two
such numbers are added with a carry and subtracted with a borrow that are found by comparing a
word with the result of its own operation; they are compared from the most significant word
down; and their bits are those of the words.
-/

namespace Drippu.Library
open Function BitVec

/-- An array of words of `w` bits. -/
abbrev Words (w : Nat) : Type := Nat → BitVec w

namespace Words

variable {w : Nat}

/-! ## The number -/

/-- The number of the first `n` words. -/
def value (p : Words w) : Nat → Nat
  | 0 => 0
  | n + 1 => value p n + (p n).toNat * 2 ^ (w * n)

lemma value_succ (p : Words w) (n : Nat) :
    value p (n + 1) = value p n + (p n).toNat * 2 ^ (w * n) :=
  rfl

lemma two_pow_mul_succ (n : Nat) : 2 ^ (w * (n + 1)) = 2 ^ w * 2 ^ (w * n) := by
  rw [Nat.mul_succ, pow_add, mul_comm]

lemma value_lt (p : Words w) (n : Nat) : value p n < 2 ^ (w * n) := by
  induction n with
  | zero => exact Nat.two_pow_pos _
  | succ n ih =>
    have hword : ((p n).toNat + 1) * 2 ^ (w * n) ≤ 2 ^ w * 2 ^ (w * n) :=
      Nat.mul_le_mul_right _ (p n).isLt
    rw [Nat.succ_mul] at hword
    rw [value_succ, two_pow_mul_succ]
    omega

variable {c p : Words w} {k n s : Nat}

lemma value_congr {q : Words w} (h : ∀ k, k < n → p k = q k) : value p n = value q n := by
  induction n with
  | zero => rfl
  | succ n ih => rw [value_succ, value_succ, ih fun k hk => h k (by omega), h n (by omega)]

@[simp]
lemma value_zero (n : Nat) : value (fun _ => 0#w) n = 0 := by
  induction n with
  | zero => rfl
  | succ n ih => simp [value_succ, ih]

lemma value_update {j : Nat} (hj : j < n) (hp : p j = 0#w) (x : BitVec w) :
    value (update p j x) n = value p n + x.toNat * 2 ^ (w * j) := by
  induction n with
  | zero => omega
  | succ n ih =>
    simp only [value_succ]
    rcases lt_or_ge j n with hlt | hge
    · rw [ih hlt, update_of_ne (by omega)]
      ring
    · obtain rfl : j = n := by omega
      have hcongr : value (update p j x) j = value p j :=
        value_congr fun k hk => update_of_ne (by omega) _ _
      simp [hcongr, hp]

lemma value_update_zero {j : Nat} (hj : j < n) (x : BitVec w) :
    value (update (fun _ => 0#w) j x) n = x.toNat * 2 ^ (w * j) := by
  have h := value_update (p := fun _ => 0#w) hj rfl x
  rwa [value_zero, zero_add] at h

lemma value_eq_zero_iff (p : Words w) (n : Nat) : value p n = 0 ↔ ∀ k, k < n → p k = 0#w := by
  induction n with
  | zero => simp [value]
  | succ n ih =>
    have hword : (p n).toNat = 0 ↔ p n = 0#w := by
      rw [toNat_eq, toNat_ofNat, Nat.zero_mod]
    rw [value_succ, Nat.add_eq_zero_iff, ih, mul_eq_zero, hword]
    constructor
    · rintro ⟨hlow, htop⟩ k hk
      rcases Nat.lt_succ_iff_lt_or_eq.1 hk with h | rfl
      · exact hlow k h
      · exact htop.resolve_right (Nat.two_pow_pos _).ne'
    · intro h
      exact ⟨fun k hk => h k (by omega), .inl (h n (by omega))⟩

/-! ## Addition and subtraction -/

section
variable (p c : Words w)

/-- The carry into word `k`. -/
def carry : Nat → Bool
  | 0 => false
  | k + 1 =>
    let sum := p k + c k
    let total := sum + BitVec.ofNat w (carry k).toNat
    decide (sum < p k) || decide (total < sum)

/-- The words of a sum. -/
def add : Words w := fun k => p k + c k + BitVec.ofNat w (carry p c k).toNat

/-- The borrow from word `k`. -/
def borrow : Nat → Bool
  | 0 => false
  | k + 1 =>
    let diff := p k - c k
    decide (p k < c k) || decide (diff < BitVec.ofNat w (borrow k).toNat)

/-- The words of a difference. -/
def sub : Words w := fun k => p k - c k - BitVec.ofNat w (borrow p c k).toNat

end

lemma mod_of_lt_two_mul {a b : Nat} (h : a < 2 * b) : a % b = if a < b then a else a - b := by
  split
  · exact Nat.mod_eq_of_lt (by assumption)
  · rw [Nat.mod_eq_sub_mod (by omega), Nat.mod_eq_of_lt (by omega)]

lemma toNat_ofNat_toNat (hw : 0 < w) (b : Bool) : (BitVec.ofNat w b.toNat).toNat = b.toNat := by
  have htwo : 2 ≤ 2 ^ w := Nat.le_self_pow hw.ne' 2
  have hb := Bool.toNat_lt b
  rw [toNat_ofNat, Nat.mod_eq_of_lt (by omega)]

lemma toNat_add_carry (x y : BitVec w) :
    (x + y).toNat + (decide (x + y < x)).toNat * 2 ^ w = x.toNat + y.toNat := by
  simp only [lt_def, toNat_add]
  rw [mod_of_lt_two_mul (by omega)]
  by_cases hlt : x.toNat + y.toNat < 2 ^ w
  · simp [hlt]
  · have hyes : x.toNat + y.toNat - 2 ^ w < x.toNat := by omega
    simp only [hlt, hyes, if_false, decide_true, Bool.toNat_true]
    omega

lemma toNat_sub_borrow (x y : BitVec w) :
    (x - y).toNat + y.toNat = x.toNat + (decide (x < y)).toNat * 2 ^ w := by
  simp only [lt_def, toNat_sub]
  rw [mod_of_lt_two_mul (by omega)]
  by_cases hlt : x.toNat < y.toNat
  · have hsum : 2 ^ w - y.toNat + x.toNat < 2 ^ w := by omega
    simp only [hlt, hsum, if_true, decide_true, Bool.toNat_true]
    omega
  · have hsum : ¬2 ^ w - y.toNat + x.toNat < 2 ^ w := by omega
    simp only [hlt, hsum, if_false, decide_false, Bool.toNat_false]
    omega

/-- Two carries that are not both set. -/
lemma toNat_or_mul {a b : Bool} {m : Nat} (h : a.toNat * m + b.toNat * m < 2 * m) :
    (a || b).toNat * m = a.toNat * m + b.toNat * m := by
  cases a <;> cases b <;> simp at h ⊢
  omega

section
variable (hw : 0 < w)
include hw

lemma add_word (x y : BitVec w) (b : Bool) :
    (x + y + BitVec.ofNat w b.toNat).toNat +
        (decide (x + y < x) || decide (x + y + BitVec.ofNat w b.toNat < x + y)).toNat * 2 ^ w =
      x.toNat + y.toNat + b.toNat := by
  have hsum := toNat_add_carry x y
  have htotal := toNat_add_carry (x + y) (BitVec.ofNat w b.toNat)
  have hb := Bool.toNat_lt b
  rw [toNat_ofNat_toNat hw] at htotal
  rw [toNat_or_mul (by omega)]
  omega

lemma sub_word (x y : BitVec w) (b : Bool) :
    (x - y - BitVec.ofNat w b.toNat).toNat + y.toNat + b.toNat =
      x.toNat + (decide (x < y) || decide (x - y < BitVec.ofNat w b.toNat)).toNat * 2 ^ w := by
  have hdiff := toNat_sub_borrow x y
  have htotal := toNat_sub_borrow (x - y) (BitVec.ofNat w b.toNat)
  have hb := Bool.toNat_lt b
  rw [toNat_ofNat_toNat hw] at htotal
  rw [toNat_or_mul (by omega)]
  omega

lemma value_add (p c : Words w) (n : Nat) :
    value (add p c) n + (carry p c n).toNat * 2 ^ (w * n) = value p n + value c n := by
  induction n with
  | zero => simp [value, carry]
  | succ n ih =>
    have hword := add_word hw (p n) (c n) (carry p c n)
    rw [← carry] at hword
    have hscaled := congrArg (· * 2 ^ (w * n)) hword
    simp only [Nat.add_mul, mul_assoc, Nat.succ_eq_add_one] at hscaled
    simp only [value_succ, two_pow_mul_succ, add]
    omega

lemma value_sub (p c : Words w) (n : Nat) :
    value (sub p c) n + value c n = value p n + (borrow p c n).toNat * 2 ^ (w * n) := by
  induction n with
  | zero => simp [value, borrow]
  | succ n ih =>
    have hword := sub_word hw (p n) (c n) (borrow p c n)
    rw [← borrow] at hword
    have hscaled := congrArg (· * 2 ^ (w * n)) hword
    simp only [Nat.add_mul, mul_assoc, Nat.succ_eq_add_one] at hscaled
    simp only [value_succ, two_pow_mul_succ, sub]
    omega

lemma value_add_of_lt (h : value p n + value c n < 2 ^ (w * n)) :
    value (add p c) n = value p n + value c n := by
  have hadd := value_add hw p c n
  cases hc : carry p c n
  · simpa [hc] using hadd
  · rw [hc, Bool.toNat_true] at hadd
    omega

lemma value_sub_of_le (h : value c n ≤ value p n) : value (sub p c) n = value p n - value c n := by
  have hsub := value_sub hw p c n
  have hlt := value_lt (sub p c) n
  cases hb : borrow p c n
  · rw [hb, Bool.toNat_false] at hsub
    omega
  · rw [hb, Bool.toNat_true] at hsub
    omega

end

/-! ## Comparison -/

/-- The first `n` words of two arrays, compared from the last one down. -/
def compareWords (p c : Words w) : Nat → Ordering
  | 0 => .eq
  | k + 1 => if p k ≠ c k then (if c k < p k then .gt else .lt) else compareWords p c k

lemma value_lt_of_word_lt (h : p k < c k) : value p (k + 1) < value c (k + 1) := by
  have hlt := value_lt p k
  have hword : ((p k).toNat + 1) * 2 ^ (w * k) ≤ (c k).toNat * 2 ^ (w * k) :=
    Nat.mul_le_mul_right _ h
  rw [Nat.succ_mul] at hword
  simp only [value_succ]
  omega

lemma compareWords_eq (p c : Words w) (n : Nat) :
    compareWords p c n = compare (value p n) (value c n) := by
  induction n with
  | zero => simp [compareWords, value]
  | succ n ih =>
    rw [compareWords]
    by_cases hne : p n = c n
    · rw [if_neg (absurd hne), ih, value_succ, value_succ, hne]
      simp [compare, compareOfLessAndEq]
    rw [if_pos hne]
    split
    · rename_i h
      exact (Nat.compare_eq_gt.2 (value_lt_of_word_lt h)).symm
    rename_i h
    have hlt : p n < c n := by
      rw [lt_def] at h ⊢
      have := toNat_ne.1 hne
      omega
    exact (Nat.compare_eq_lt.2 (value_lt_of_word_lt hlt)).symm

/-! ## Bits -/

lemma value_mod (p : Words w) (h : k ≤ n) : value p n % 2 ^ (w * k) = value p k := by
  induction n with
  | zero =>
    obtain rfl : k = 0 := by omega
    simp [value]
  | succ n ih =>
    rcases lt_or_ge n k with hlt | hge
    · obtain rfl : k = n + 1 := by omega
      exact Nat.mod_eq_of_lt (value_lt p _)
    · have hdvd : 2 ^ (w * k) ∣ (p n).toNat * 2 ^ (w * n) :=
        Nat.dvd_mul_left_of_dvd (Nat.pow_dvd_pow 2 (Nat.mul_le_mul_left w hge)) _
      rw [value_succ, Nat.add_mod, Nat.mod_eq_zero_of_dvd hdvd, add_zero, Nat.mod_mod, ih hge]

/-- The bits of the number are those of its words. -/
lemma testBit_value (p : Words w) (n : Nat) {i : Nat} (hi : i < w) :
    (value p n).testBit (w * k + i) = (decide (k < n) && (p k).getLsbD i) := by
  induction n with
  | zero => simp [value]
  | succ n ih =>
    rw [value_succ, add_comm, mul_comm, Nat.testBit_two_pow_mul_add _ (value_lt p n)]
    rcases Nat.lt_trichotomy k n with hlt | rfl | hgt
    · have hindex : w * k + i < w * n := by
        calc w * k + i < w * k + w := by omega
          _ = w * (k + 1) := (Nat.mul_succ w k).symm
          _ ≤ w * n := Nat.mul_le_mul_left w hlt
      rw [if_pos hindex, ih, decide_eq_true hlt, decide_eq_true (show k < n + 1 by omega)]
    · rw [if_neg (by omega), Nat.add_sub_cancel_left, testBit_toNat,
        decide_eq_true (Nat.lt_succ_self k), Bool.true_and]
    · have hindex : w * n + w ≤ w * k + i := by
        calc w * n + w = w * (n + 1) := (Nat.mul_succ w n).symm
          _ ≤ w * k := Nat.mul_le_mul_left w hgt
          _ ≤ w * k + i := Nat.le_add_right _ _
      rw [if_neg (by omega), testBit_toNat, getLsbD_of_ge _ _ (by omega),
        decide_eq_false (by omega), Bool.false_and]

/-- The word that starts at bit `offset` of word `index`. -/
def window (p : Words w) (n index offset : Nat) : BitVec w :=
  let low := p index >>> offset
  if offset ≠ 0 ∧ index + 1 < n then low ||| (p (index + 1) <<< (w - offset)) else low

lemma toNat_window (p : Words w) {index offset : Nat} (hindex : index < n) (hoffset : offset < w) :
    (window p n index offset).toNat = value p n / 2 ^ (w * index + offset) % 2 ^ w := by
  apply Nat.eq_of_testBit_eq
  intro i
  rw [testBit_toNat, Nat.testBit_mod_two_pow, Nat.testBit_div_two_pow]
  rcases lt_or_ge i w with hi | hi
  · rw [decide_eq_true hi, Bool.true_and]
    rcases lt_or_ge (offset + i) w with hlow | hhigh
    -- The bit is in the lower of the two words.
    · have hbit := testBit_value p n (k := index) hlow
      rw [decide_eq_true hindex, Bool.true_and] at hbit
      rw [show i + (w * index + offset) = w * index + (offset + i) by ring, hbit, window]
      split
      · have hno : i < w - offset := by omega
        simp [hno]
      · simp
    · have hbit := testBit_value p n (k := index + 1) (i := offset + i - w) (by omega)
      rw [show i + (w * index + offset) = w * (index + 1) + (offset + i - w) by
        rw [Nat.mul_succ]; omega, hbit, window]
      split
      · rename_i h
        have hno : ¬i < w - offset := by omega
        have hsub : i - (w - offset) = offset + i - w := by omega
        rw [getLsbD_or, getLsbD_ushiftRight, getLsbD_of_ge _ _ hhigh, getLsbD_shiftLeft, hsub]
        simp [h.2, hno, hi]
      · have hn : ¬index + 1 < n := by omega
        simp [hn, getLsbD_of_ge _ _ hhigh]
  · rw [decide_eq_false (by omega), Bool.false_and, getLsbD_of_ge _ _ hi]

/-! ## Writing a shifted number -/

lemma two_pow_width (hs : s ≤ w) : 2 ^ w = 2 ^ (w - s) * 2 ^ s := by
  rw [← pow_add, Nat.sub_add_cancel hs]

lemma toNat_ushiftRight_width (x : BitVec w) (h : s = 0) : (x >>> (w - s)).toNat = 0 := by
  rw [h, toNat_ushiftRight, Nat.shiftRight_eq_div_pow]
  exact Nat.div_eq_of_lt x.isLt

lemma toNat_shiftLeft_word (x : BitVec w) (hs : s < w) :
    (x <<< s).toNat + (x >>> (w - s)).toNat * 2 ^ w = x.toNat * 2 ^ s := by
  have hdiv : x.toNat / 2 ^ (w - s) = x.toNat * 2 ^ s / 2 ^ w := by
    rw [two_pow_width hs.le, Nat.mul_div_mul_right _ _ (Nat.two_pow_pos s)]
  rw [toNat_shiftLeft, toNat_ushiftRight, Nat.shiftLeft_eq, Nat.shiftRight_eq_div_pow,
    hdiv, Nat.mod_add_div']

/-- The upper part of one word and the lower part of the next do not overlap. -/
lemma toNat_shiftLeft_or (lo hi : BitVec w) (hs : s < w) :
    ((hi <<< s) ||| (lo >>> (w - s))).toNat = (hi <<< s).toNat + (lo >>> (w - s)).toNat := by
  have hmod : hi.toNat * 2 ^ s % 2 ^ w = hi.toNat % 2 ^ (w - s) * 2 ^ s := by
    rw [two_pow_width hs.le, Nat.mul_mod_mul_right]
  have hlt : lo.toNat / 2 ^ (w - s) < 2 ^ s := by
    rw [Nat.div_lt_iff_lt_mul (Nat.two_pow_pos _), ← pow_add, Nat.add_sub_cancel' hs.le]
    exact lo.isLt
  rw [toNat_or, toNat_shiftLeft, toNat_ushiftRight, Nat.shiftLeft_eq, hmod,
    Nat.shiftRight_eq_div_pow, ← Nat.shiftLeft_eq, Nat.shiftLeft_add_eq_or_of_lt hlt]

/-- The word `x`, written at bit `shift` of an array of zeros. -/
def placeWord (x : BitVec w) (shift : Nat) : Words w :=
  let j := shift / w
  let s := shift % w
  let c := update (fun _ => 0#w) j (x <<< s)
  if s ≠ 0 then update c (j + 1) (x >>> (w - s)) else c

lemma two_pow_div_mod (w shift : Nat) : 2 ^ shift = 2 ^ (shift % w) * 2 ^ (w * (shift / w)) := by
  rw [← pow_add, Nat.mod_add_div]

lemma value_placeWord (hw : 0 < w) (x : BitVec w) {shift : Nat} (hn : shift / w + 1 < n) :
    value (placeWord x shift) n = x.toNat * 2 ^ shift := by
  have hs := Nat.mod_lt shift hw
  have hword := toNat_shiftLeft_word x hs
  have hfirst := value_update_zero (show shift / w < n by omega) (x <<< (shift % w))
  rw [placeWord, two_pow_div_mod w shift, ← mul_assoc, ← hword]
  by_cases hzero : shift % w = 0
  · rw [if_neg (absurd hzero), hfirst, toNat_ushiftRight_width x hzero, Nat.zero_mul, add_zero]
  · rw [if_pos hzero, value_update hn (by simp), hfirst, two_pow_mul_succ]
    ring

/-- Two words, written at bit `shift` of an array of `n` zeros. -/
def placePair (lo hi : BitVec w) (shift n : Nat) : Words w :=
  let j := shift / w
  let s := shift % w
  let p := update (fun _ => 0#w) j (lo <<< s)
  let p := update p (j + 1) ((hi <<< s) ||| (if s ≠ 0 then lo >>> (w - s) else 0#w))
  if s ≠ 0 ∧ j + 2 < n then update p (j + 2) (hi >>> (w - s)) else p

lemma value_placePair (hw : 0 < w) (lo hi : BitVec w) {shift : Nat} (hn : shift / w + 1 < n)
    (hfit : (lo.toNat + hi.toNat * 2 ^ w) * 2 ^ shift < 2 ^ (w * n)) :
    value (placePair lo hi shift n) n = (lo.toNat + hi.toNat * 2 ^ w) * 2 ^ shift := by
  have hs := Nat.mod_lt shift hw
  have hlo := toNat_shiftLeft_word lo hs
  have hhi := toNat_shiftLeft_word hi hs
  have hmiddle : ((hi <<< (shift % w)) |||
      (if shift % w ≠ 0 then lo >>> (w - shift % w) else 0#w)).toNat =
        (hi <<< (shift % w)).toNat + (lo >>> (w - shift % w)).toNat := by
    by_cases hzero : shift % w = 0
    · rw [if_neg (absurd hzero), toNat_ushiftRight_width lo hzero]
      simp
    · rw [if_pos hzero, toNat_shiftLeft_or lo hi hs]
  -- The two words and what is shifted out of the upper one.
  have hsum : (lo.toNat + hi.toNat * 2 ^ w) * 2 ^ shift =
      (lo <<< (shift % w)).toNat * 2 ^ (w * (shift / w)) +
        ((hi <<< (shift % w)).toNat + (lo >>> (w - shift % w)).toNat) * 2 ^ (w * (shift / w + 1)) +
        (hi >>> (w - shift % w)).toNat * 2 ^ (w * (shift / w + 2)) := by
    rw [two_pow_mul_succ, two_pow_mul_succ, two_pow_div_mod w shift]
    calc _ = (lo.toNat * 2 ^ (shift % w) + hi.toNat * 2 ^ (shift % w) * 2 ^ w) *
          2 ^ (w * (shift / w)) := by ring
      _ = _ := by
        rw [← hlo, ← hhi]
        ring
  have hpair : value (update (update (fun _ => 0#w) (shift / w)
      (lo <<< (shift % w))) (shift / w + 1) ((hi <<< (shift % w)) |||
        (if shift % w ≠ 0 then lo >>> (w - shift % w) else 0#w))) n =
      (lo <<< (shift % w)).toNat * 2 ^ (w * (shift / w)) +
        ((hi <<< (shift % w)).toNat + (lo >>> (w - shift % w)).toNat) *
          2 ^ (w * (shift / w + 1)) := by
    rw [value_update hn (by simp), value_update_zero (by omega), hmiddle]
  rw [placePair]
  split
  · rename_i h
    rw [value_update h.2 (by simp), hpair, hsum]
  have hout : (hi >>> (w - shift % w)).toNat = 0 := by
    by_cases hzero : shift % w = 0
    · exact toNat_ushiftRight_width hi hzero
    have hpow : 2 ^ (w * n) ≤ 2 ^ (w * (shift / w + 2)) :=
      Nat.pow_le_pow_right (by decide) (Nat.mul_le_mul_left w (by omega))
    by_contra hne
    have := Nat.le_mul_of_pos_left (2 ^ (w * (shift / w + 2))) (pos_of_ne_zero hne)
    omega
  rw [hpair, hsum, hout, Nat.zero_mul]
  omega

/-- A bit is set. -/
def setBit (c : Words w) (bit : Nat) : Words w :=
  update c (bit / w) (c (bit / w) ||| (1#w <<< (bit % w)))

lemma value_setBit (hw : 0 < w) (c : Words w) {bit : Nat} (hn : bit / w < n) :
    value (setBit c bit) n = value c n ||| 2 ^ bit := by
  apply Nat.eq_of_testBit_eq
  intro i
  have hi := Nat.mod_lt i hw
  rw [← Nat.div_add_mod i w, Nat.testBit_or, testBit_value _ _ hi, testBit_value _ _ hi,
    Nat.div_add_mod, Nat.testBit_two_pow]
  by_cases hword : i / w = bit / w
  · have hone : (1#w <<< (bit % w)).getLsbD (i % w) = decide (bit = i) := by
      rw [getLsbD_shiftLeft, getLsbD_one, Bool.eq_iff_iff]
      have hbitdiv := Nat.div_add_mod bit w
      have hidiv := Nat.div_add_mod i w
      rw [hword] at hidiv
      simp only [Bool.and_eq_true, decide_eq_true_eq, Bool.not_eq_true', decide_eq_false_iff_not]
      omega
    rw [setBit, hword, update_self, getLsbD_or, decide_eq_true hn, Bool.true_and,
      Bool.true_and, hone]
  · have hne : ¬bit = i := by
      rintro rfl
      exact hword rfl
    rw [setBit, update_of_ne hword, decide_eq_false hne, Bool.or_false]

end Words
end Drippu.Library
