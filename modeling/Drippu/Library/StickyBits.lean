import Drippu.Library.FloatRound

/-!
# Library - Sticky bits

Integer code that shifts a number to the right keeps what it shifts out as one sticky bit in
the last place.  The integer that is left stands for a number that it either equals or
brackets: with a sticky bit of weight `g` the number lies strictly between the multiples
of `2g` around the integer.  Sums, differences and shifts keep that relation, and three
places below the significand are enough to round.
-/

namespace Drippu.Library

open Nat

variable {K : Type*} [Field K] [LinearOrder K] [IsStrictOrderedRing K]

/-- The integer `m` is the number `s`, or its last nonzero bit has weight `g`
and stands for what lies beside the multiples of `2g`. -/
def Jammed (g : Nat) (s : K) (m : Nat) : Prop :=
  s = m ∨ ∃ j : Nat, m = 2 * g * j + g ∧ ((2 * g * j : Nat) : K) < s ∧
    s < ((2 * g * (j + 1) : Nat) : K)

lemma or_one_eq (q : Nat) : q ||| 1 = 2 * (q / 2) + 1 := by
  apply eq_of_testBit_eq
  intro i
  rw [testBit_or]
  cases i with
  | zero => simp
  | succ i =>
    rw [testBit_succ, testBit_succ, testBit_succ, show (2 * (q / 2) + 1) / 2 = q / 2 by omega]
    simp

/-- A number strictly between two integers, by the odd one of the two. -/
lemma jammed_or_one {s : K} {q : Nat} (hlow : (q : K) < s) (hhigh : s < ((q + 1 : Nat) : K)) :
    Jammed 1 s (q ||| 1) := by
  right
  refine ⟨q / 2, by rw [or_one_eq], ?_, ?_⟩
  · exact lt_of_le_of_lt (cast_le.2 (by omega)) hlow
  · exact lt_of_lt_of_le hhigh (cast_le.2 (by omega))

lemma jammed_shiftRight (p d : Nat) :
    Jammed 1 ((p : K) / 2 ^ d) ((p >>> d) ||| if p &&& ((1 <<< d) - 1) ≠ 0 then 1 else 0) := by
  have hpow : (0 : K) < 2 ^ d := by positivity
  rw [one_shiftLeft, and_two_pow_sub_one_eq_mod, shiftRight_eq_div_pow]
  have hdiv := div_add_mod p (2 ^ d)
  split
  · apply jammed_or_one
    · rw [lt_div_iff₀ hpow]
      exact_mod_cast (by rw [mul_comm]; omega : p / 2 ^ d * 2 ^ d < p)
    · rw [div_lt_iff₀ hpow]
      exact_mod_cast (by rw [add_mul, mul_comm]; omega : p < (p / 2 ^ d + 1) * 2 ^ d)
  · left
    rw [or_zero, div_eq_iff hpow.ne']
    exact_mod_cast (by rw [mul_comm]; omega : p = p / 2 ^ d * 2 ^ d)

namespace Jammed

variable {g : Nat} {s : K} {m : Nat}

lemma le_iff (h : Jammed g s m) (c : Nat) : ((2 * g * c : Nat) : K) ≤ s ↔ 2 * g * c ≤ m := by
  rcases h with rfl | ⟨j, rfl, hlow, hhigh⟩
  · exact cast_le
  constructor
  · intro hle
    have hlt : 2 * g * c < 2 * g * (j + 1) := by exact_mod_cast lt_of_le_of_lt hle hhigh
    have hcj : c < j + 1 := Nat.lt_of_mul_lt_mul_left hlt
    have := Nat.mul_le_mul_left (2 * g) (le_of_lt_succ hcj)
    omega
  · intro hle
    have hlt : 2 * g * c < 2 * g * (j + 1) ∨ g = 0 := by
      rw [mul_add]
      omega
    rcases hlt with hlt | rfl
    · have hcj : c < j + 1 := Nat.lt_of_mul_lt_mul_left hlt
      refine le_of_lt (lt_of_le_of_lt ?_ hlow)
      exact cast_le.2 (Nat.mul_le_mul_left (2 * g) (le_of_lt_succ hcj))
    · simpa using hlow.le

omit [IsStrictOrderedRing K] in
lemma eq_zero (h : Jammed g s 0) (hg : 0 < g) : s = 0 := by
  rcases h with rfl | ⟨j, hm, -, -⟩
  · simp
  · omega

lemma pos (h : Jammed g s m) (hm : 0 < m) : 0 < s := by
  rcases h with rfl | ⟨j, -, hlow, -⟩
  · exact_mod_cast hm
  · exact lt_of_le_of_lt (cast_nonneg _) hlow

lemma natCast_eq {n : Nat} (h : Jammed 1 (n : K) m) : n = m := by
  rcases h with heq | ⟨j, rfl, hlow, hhigh⟩
  · exact_mod_cast heq
  · have hl : 2 * 1 * j < n := by exact_mod_cast hlow
    have hh : n < 2 * 1 * (j + 1) := by exact_mod_cast hhigh
    omega

lemma add (h : Jammed 1 s m) (c : Nat) : Jammed 1 (((2 * c : Nat) : K) + s) (2 * c + m) := by
  rcases h with rfl | ⟨j, rfl, hlow, hhigh⟩
  · left
    push_cast
    ring
  right
  refine ⟨c + j, by ring, ?_, ?_⟩
  · push_cast at hlow ⊢
    linarith
  · push_cast at hhigh ⊢
    linarith

lemma sub (h : Jammed 1 s m) {c : Nat} (hle : s ≤ ((2 * c : Nat) : K)) :
    m ≤ 2 * c ∧ Jammed 1 (((2 * c : Nat) : K) - s) (2 * c - m) := by
  rcases h with rfl | ⟨j, rfl, hlow, hhigh⟩
  · have hm : m ≤ 2 * c := by exact_mod_cast hle
    refine ⟨hm, .inl ?_⟩
    rw [cast_sub hm]
  have hj : 2 * 1 * j < 2 * c := by exact_mod_cast lt_of_lt_of_le hlow hle
  obtain ⟨d, rfl⟩ := Nat.exists_eq_add_of_lt (show j < c by omega)
  refine ⟨by omega, .inr ⟨d, by omega, ?_, ?_⟩⟩
  · push_cast at hhigh ⊢
    linarith
  · push_cast at hlow ⊢
    linarith

lemma half (h : Jammed 1 s m) : Jammed 1 (s / 2) ((m >>> 1) ||| (m &&& 1)) := by
  have hm : (m >>> 1) ||| (m &&& 1) = (m >>> 1) ||| if m &&& ((1 <<< 1) - 1) ≠ 0 then 1 else 0 := by
    congr 1
    rw [and_one_is_mod, show (1 <<< 1) - 1 = 1 by rfl, and_one_is_mod]
    split <;> omega
  rcases h with rfl | ⟨j, rfl, hlow, hhigh⟩
  · rw [hm]
    simpa using jammed_shiftRight (K := K) m 1
  have hodd : ((2 * 1 * j + 1) >>> 1) ||| ((2 * 1 * j + 1) &&& 1) = j ||| 1 := by
    rw [shiftRight_eq_div_pow, and_one_is_mod, show (2 * 1 * j + 1) / 2 ^ 1 = j by omega,
      show (2 * 1 * j + 1) % 2 = 1 by omega]
  rw [hodd]
  apply jammed_or_one
  · push_cast at hlow
    linarith
  · push_cast at hhigh ⊢
    linarith

lemma double (h : Jammed g s m) : Jammed (2 * g) (s * 2) (m * 2) := by
  rcases h with rfl | ⟨j, rfl, hlow, hhigh⟩
  · left
    push_cast
    ring
  right
  refine ⟨j, by ring, ?_, ?_⟩
  · push_cast at hlow ⊢
    linarith
  · push_cast at hhigh ⊢
    linarith

lemma guardBits (h : Jammed g s m) (hg : g = 1 ∨ g = 2) :
    GuardBits (s / 8) (m >>> 3) (m.testBit 2) (decide (m % 4 ≠ 0)) := by
  rw [shiftRight_eq_div_pow]
  rcases h with rfl | ⟨j, rfl, hlow, hhigh⟩
  · have hbits := GuardBits.of_two_pow (K := K) m 2
    norm_num at hbits ⊢
    exact hbits
  -- The number lies strictly inside the quarter that the integer is in.
  obtain ⟨i, r, hm, hr, hrlt⟩ : ∃ i r : Nat, 2 * g * j + g = 4 * i + r ∧ 0 < r ∧ r < 4 :=
    ⟨(2 * g * j + g) / 4, (2 * g * j + g) % 4, by omega, by rcases hg with rfl | rfl <;> omega,
      mod_lt _ (by decide)⟩
  have hbelow : 4 * i ≤ 2 * g * j := by rcases hg with rfl | rfl <;> omega
  have habove : 2 * g * (j + 1) ≤ 4 * i + 4 := by rcases hg with rfl | rfl <;> omega
  have hlow' : ((4 * i : Nat) : K) < s := lt_of_le_of_lt (cast_le.2 hbelow) hlow
  have hhigh' : s < ((4 * i + 4 : Nat) : K) := lt_of_lt_of_le hhigh (cast_le.2 habove)
  push_cast at hlow' hhigh'
  have hbit : (4 * i + r).testBit 2 = decide (i % 2 = 1) := by
    rw [testBit_eq_decide_div_mod_eq, decide_eq_decide]
    omega
  have hmant : (4 * i + r) / 2 ^ 3 = i / 2 := by omega
  have hsticky : decide ((4 * i + r) % 4 ≠ 0) = true := by
    rw [decide_eq_true_eq]
    omega
  rw [hm, hbit, hmant, hsticky]
  refine ⟨s / 8 - i / 2, by linarith, by linarith, ?_, ?_⟩
  · have hne : s / 8 - i / 2 ≠ 0 := by linarith
    simpa using hne
  have hcast : (i : K) = 2 * ((i / 2 : Nat) : K) + ((i % 2 : Nat) : K) := by
    exact_mod_cast (div_add_mod i 2).symm
  rcases mod_two_eq_zero_or_one i with hi | hi
  · rw [hi] at hcast
    simp only [hi]
    simp
    linarith
  · rw [hi] at hcast
    simp only [hi]
    simp
    linarith

end Jammed
end Drippu.Library
