import Drippu.Library.WideWords

/-!
# Recomp - Scans of the exact accumulator

The index of the highest set bit of a word, by the portable text of the runtime; the highest
set bit of the accumulator, which is an array of words; and whether any of its bits below a
position is set.
-/

namespace Drippu.RecompFp

open Library Library.Words Nat List

/-! ## A word -/

/-- `if (w >> s) w >>= s, n += s`. -/
def bitIndexStep (s : Nat) (p : Nat × Nat) : Nat × Nat :=
  if p.1 >>> s ≠ 0 then (p.1 >>> s, p.2 + s) else p

def recompBitIndex64 (w : Nat) : Nat :=
  (bitIndexStep 1 (bitIndexStep 2 (bitIndexStep 4 (bitIndexStep 8 (bitIndexStep 16
    (bitIndexStep 32 (w, 0))))))).2

lemma bitIndexStep_spec {w s : Nat} {p : Nat × Nat} (hp : p.1 = w >>> p.2) (hpos : p.1 ≠ 0)
    (hlt : p.1 < 2 ^ (s + s)) :
    (bitIndexStep s p).1 = w >>> (bitIndexStep s p).2 ∧ (bitIndexStep s p).1 ≠ 0 ∧
      (bitIndexStep s p).1 < 2 ^ s := by
  rw [bitIndexStep]
  split
  case isTrue h =>
      refine ⟨?_, h, ?_⟩
      · rw [hp, shiftRight_add]
      · rw [shiftRight_eq_div_pow, Nat.div_lt_iff_lt_mul (Nat.two_pow_pos s), ← pow_add]
        exact hlt
  case isFalse h =>
      refine ⟨hp, hpos, ?_⟩
      rw [not_not, shiftRight_eq_div_pow, Nat.div_eq_zero_iff] at h
      exact h.resolve_left (Nat.two_pow_pos s).ne'

lemma recompBitIndex64_spec {w : Nat} (hpos : w ≠ 0) (hlt : w < 2 ^ 64) :
    2 ^ recompBitIndex64 w ≤ w ∧ w < 2 ^ (recompBitIndex64 w + 1) := by
  obtain ⟨h1, p1, l1⟩ := bitIndexStep_spec (w := w) (s := 32) (p := (w, 0)) rfl hpos hlt
  obtain ⟨h2, p2, l2⟩ := bitIndexStep_spec (s := 16) h1 p1 l1
  obtain ⟨h3, p3, l3⟩ := bitIndexStep_spec (s := 8) h2 p2 l2
  obtain ⟨h4, p4, l4⟩ := bitIndexStep_spec (s := 4) h3 p3 l3
  obtain ⟨h5, p5, l5⟩ := bitIndexStep_spec (s := 2) h4 p4 l4
  obtain ⟨h6, p6, l6⟩ := bitIndexStep_spec (s := 1) h5 p5 l5
  rw [← recompBitIndex64] at h6
  have hone : w >>> recompBitIndex64 w = 1 := by omega
  rw [shiftRight_eq_div_pow] at hone
  have hdiv := div_add_mod w (2 ^ recompBitIndex64 w)
  rw [hone, mul_one] at hdiv
  omega

/-! ## The accumulator -/

def recompFpTopBit (p : Words 64) : (count : Nat) → Int
  | 0 => -1
  | k + 1 =>
    if p k ≠ 0#64 then (k * 64 : Nat) + (recompBitIndex64 (p k).toNat : Int)
    else recompFpTopBit p k

def recompFpSticky (p : Words 64) (count : Nat) (cut : Int) : Bool :=
  let n := cut - 1
  if n ≤ 0 then false
  else
    let whole := n.toNat / 64
    let whole := if whole > count then count else whole
    let agg := (range whole).foldl (fun agg i => agg ||| p i) 0#64
    let rest := n.toNat % 64
    let agg :=
      if rest ≠ 0 ∧ whole < count then agg ||| (p whole &&& ((1#64 <<< rest) - 1#64)) else agg
    agg != 0#64

variable (p : Words 64) (n : Nat)

/-- The scan finds the leading bit, or nothing when the accumulator is zero. -/
lemma recompFpTopBit_spec :
    (value p n = 0 ∧ recompFpTopBit p n = -1) ∨
      ∃ top : Nat, recompFpTopBit p n = top ∧ 2 ^ top ≤ value p n ∧ value p n < 2 ^ (top + 1) := by
  induction n with
  | zero => exact .inl ⟨rfl, rfl⟩
  | succ n ih =>
    rw [recompFpTopBit, value]
    by_cases hword : p n = 0#64
    · simpa [hword] using ih
    have hne : (p n).toNat ≠ 0 := fun h => hword (BitVec.toNat_eq.2 h)
    obtain ⟨hlow, hhigh⟩ := recompBitIndex64_spec hne (p n).isLt
    have hlt := value_lt p n
    right
    refine ⟨n * 64 + recompBitIndex64 (p n).toNat, ?_, ?_, ?_⟩
    · rw [if_pos hword]
      rfl
    · calc 2 ^ (n * 64 + recompBitIndex64 (p n).toNat)
          = 2 ^ recompBitIndex64 (p n).toNat * 2 ^ (64 * n) := by
            rw [pow_add, mul_comm n, mul_comm]
        _ ≤ (p n).toNat * 2 ^ (64 * n) := Nat.mul_le_mul_right _ hlow
        _ ≤ _ := Nat.le_add_left _ _
    · have hword' : ((p n).toNat + 1) * 2 ^ (64 * n) ≤
          2 ^ (recompBitIndex64 (p n).toNat + 1) * 2 ^ (64 * n) :=
        Nat.mul_le_mul_right _ hhigh
      rw [succ_mul, ← pow_add] at hword'
      rw [show n * 64 + recompBitIndex64 (p n).toNat + 1 =
        recompBitIndex64 (p n).toNat + 1 + 64 * n by ring]
      omega

lemma foldl_or_eq_zero_iff :
    (range n).foldl (fun agg i => agg ||| p i) 0#64 = 0#64 ↔ value p n = 0 := by
  rw [value_eq_zero_iff]
  induction n with
  | zero => simp
  | succ n ih =>
    rw [range_succ, foldl_append, foldl_cons, foldl_nil,
      BitVec.or_eq_zero_iff, ih]
    constructor
    · rintro ⟨hlow, htop⟩ k hk
      rcases Nat.lt_succ_iff_lt_or_eq.1 hk with h | rfl
      · exact hlow k h
      · exact htop
    · intro h
      exact ⟨fun k hk => h k (by omega), h n (by omega)⟩

lemma and_mask_eq_zero_iff (x : BitVec 64) {r : Nat} (hr : r < 64) :
    x &&& ((1#64 <<< r) - 1#64) = 0#64 ↔ x.toNat % 2 ^ r = 0 := by
  have hpow : 2 ^ r < 2 ^ 64 := Nat.pow_lt_pow_right (by decide) hr
  have hpos := Nat.two_pow_pos r
  have hmask : ((1#64 <<< r) - 1#64).toNat = 2 ^ r - 1 := by
    rw [BitVec.toNat_sub, BitVec.toNat_shiftLeft, BitVec.toNat_ofNat]
    omega
  rw [BitVec.toNat_eq, BitVec.toNat_and, hmask, and_two_pow_sub_one_eq_mod]
  rfl

lemma value_mod_two_pow {k r n : Nat} (hk : k < n) (hr : r ≤ 64) :
    value p n % 2 ^ (64 * k + r) = value p k + 2 ^ (64 * k) * ((p k).toNat % 2 ^ r) := by
  have hdvd : 2 ^ (64 * k + r) ∣ 2 ^ (64 * (k + 1)) := Nat.pow_dvd_pow 2 (by omega)
  have hdiv : value p (k + 1) / 2 ^ (64 * k) = (p k).toNat := by
    rw [value, add_mul_div_right _ _ (Nat.two_pow_pos _), div_eq_of_lt (value_lt p k), zero_add]
  rw [← mod_mod_of_dvd _ hdvd, value_mod p hk, pow_add, mod_mul, hdiv, value_mod p (le_succ k)]

/-- The scan says whether a bit below the round bit is set. -/
lemma recompFpSticky_eq (c : Nat) :
    recompFpSticky p n ((c + 1 : Nat) : Int) = decide (value p n % 2 ^ c ≠ 0) := by
  rw [recompFpSticky, Bool.eq_iff_iff, decide_eq_true_eq]
  have hn : ((c + 1 : Nat) : Int) - 1 = c := by
    push_cast
    ring
  simp only [hn, Int.toNat_natCast]
  by_cases hc : c = 0
  · simp [hc, mod_one]
  rw [if_neg (by omega), bne_iff_ne]
  apply not_congr
  have hsplit := div_add_mod c 64
  rcases lt_or_ge (c / 64) n with hlt | hge
  · have hrest := mod_lt c (show 0 < 64 by decide)
    have hmod := value_mod_two_pow p hlt hrest.le
    have hwhole : (if c / 64 > n then n else c / 64) = c / 64 := if_neg (by omega)
    rw [hsplit] at hmod
    rw [hwhole, hmod]
    by_cases hzero : c % 64 = 0
    · rw [if_neg (by simp [hzero]), foldl_or_eq_zero_iff, hzero]
      simp [mod_one]
    · rw [if_pos ⟨hzero, hlt⟩, BitVec.or_eq_zero_iff, foldl_or_eq_zero_iff,
        and_mask_eq_zero_iff _ hrest, Nat.add_eq_zero_iff, mul_eq_zero]
      simp
  · have hwhole : (if c / 64 > n then n else c / 64) = n := by
      split <;> omega
    have hfit : value p n % 2 ^ c = value p n := by
      apply mod_eq_of_lt
      apply lt_of_lt_of_le (value_lt p n)
      exact Nat.pow_le_pow_right (by decide) (by omega)
    rw [hwhole, if_neg (by omega), foldl_or_eq_zero_iff, hfit]

end Drippu.RecompFp
