import Drippu.Library.StickyBits
import Drippu.Recomp.FpBody

/-!
# Recomp - Addition and subtraction

The text of FADD and FSUB puts the larger operand first, gives both significands three more
places and shifts the smaller one to the right, with a sticky bit for what it shifts out.  Sum
or difference, the result is moved to its place again and rounded from the three places.

Main results:

- Theorem `addSubValue_eq`: the text computes the architecture's sum and difference.
-/

namespace Drippu.RecompFp

open Library FloatFormat ArmFp Nat

/-! ## The text -/

/-- The smaller significand, shifted by the distance of the exponents. -/
def jamAlign (distance mb : Nat) : Nat :=
  if distance ≥ 64 then (if mb ≠ 0 then 1 else 0)
  else if distance ≠ 0 then
    (mb >>> distance) ||| (if mb &&& ((1 <<< distance) - 1) ≠ 0 then 1 else 0)
  else mb

/-- `while (magnitude < limit && ea > 1) magnitude <<= 1, --ea`. -/
def shiftUp (limit : Nat) : (ea : Nat) → (magnitude : Nat) → Nat × Nat
  | 0, magnitude => (magnitude, 0)
  | 1, magnitude => (magnitude, 1)
  | ea + 2, magnitude =>
    if magnitude < limit then shiftUp limit (ea + 1) (magnitude <<< 1) else (magnitude, ea + 2)

variable (t : FloatFormat) (fpcr : Nat)

/-- The fields are put together.  The exponent is the biased one here. -/
def addPack (sa : Bool) (rounded ea flags : Nat) : Nat × Nat :=
  let (rounded, ea) := if rounded ≥ t.hidden <<< 1 then (rounded >>> 1, ea + 1) else (rounded, ea)
  let (v, flags) :=
    if ea ≥ t.exp >>> t.f then
      (if toInf (rmode fpcr) sa then t.exp else t.exp - 1, flags ||| 20)
    else (((if rounded ≥ t.hidden then ea else 0) <<< t.f) ||| (rounded &&& t.frac), flags)
  (if sa then v ||| t.sign else v, flags)

/-- The end of the text: three places below the significand are rounded away. -/
def addRound (sa : Bool) (magnitude ea : Nat) : Nat × Nat :=
  let mode := rmode fpcr
  let tiny := decide (ea = 1 ∧ magnitude < t.hidden <<< 3)
  if tiny && fz fpcr then (if sa then 0 ||| t.sign else 0, 8)
  else
    let lost := magnitude &&& 7
    let rounded := magnitude >>> 3
    let flags := if lost ≠ 0 then 16 ||| (if tiny then 8 else 0) else 0
    let rounded :=
      if lost ≠ 0 ∧ ((mode = 0 ∧ (lost > 4 ∨ (lost = 4 ∧ rounded &&& 1 ≠ 0))) ∨
        (mode = 1 ∧ sa = false) ∨ (mode = 2 ∧ sa = true)) then rounded + 1 else rounded
    addPack t fpcr sa rounded ea flags

/-- The text from the alignment on.  The first operand is not the smaller one. -/
def addAligned (sa sb : Bool) (ea eb ma mb : Nat) : Nat × Nat :=
  let ma := ma <<< 3
  let mb := jamAlign (ea - eb) (mb <<< 3)
  let magnitude := if sa = sb then ma + mb else ma - mb
  if magnitude = 0 then
    (if (if sa = sb then sa else rmode fpcr == 2) then t.sign else 0, 0)
  else
    let (magnitude, ea) :=
      if magnitude ≥ t.hidden <<< 4 then ((magnitude >>> 1) ||| (magnitude &&& 1), ea + 1)
      else (magnitude, ea)
    let (magnitude, ea) := shiftUp (t.hidden <<< 3) ea magnitude
    addRound t fpcr sa magnitude ea

/-- The last branch of `EmitFPAddSubValue`. -/
def addSubFinite (sa sb : Bool) (a b : Nat) : Nat × Nat :=
  let ea := (a &&& t.exp) >>> t.f
  let eb := (b &&& t.exp) >>> t.f
  let ma := mantissa t a
  let mb := mantissa t b
  let ea := if ea = 0 then 1 else ea
  let eb := if eb = 0 then 1 else eb
  if ea < eb ∨ (ea = eb ∧ ma < mb) then addAligned t fpcr sb sa eb ea mb ma
  else addAligned t fpcr sa sb ea eb ma mb

/-- `EmitFPAddSubValue`. -/
def addSubValue (subtract : Bool) (a b : Nat) : Nat × Nat :=
  let (a, fa) := flushInput t fpcr a
  let (b, fb) := flushInput t fpcr b
  let sa := (a &&& t.sign) != 0
  let sb := if subtract then (b &&& t.sign) == 0 else (b &&& t.sign) != 0
  let (v, flags) :=
    if isNaN t a || isNaN t b then nanResult t fpcr a b
    else if a &&& t.exp = t.exp ∨ b &&& t.exp = t.exp then
      if a &&& t.exp = t.exp ∧ b &&& t.exp = t.exp ∧ sa ≠ sb then (t.exp ||| t.quiet, 1)
      else (t.exp ||| (if (if a &&& t.exp = t.exp then sa else sb) then t.sign else 0), 0)
    else addSubFinite t fpcr sa sb a b
  (v, fa ||| fb ||| flags)

/-! ## Alignment -/

section
variable {K : Type*} [Field K] [LinearOrder K] [IsStrictOrderedRing K]

lemma jamAlign_jammed (distance : Nat) {mb : Nat} (hmb : mb < 2 ^ 64) :
    Jammed 1 ((mb : K) / 2 ^ distance) (jamAlign distance mb) := by
  rw [jamAlign]
  by_cases hfar : distance ≥ 64
  · rw [if_pos hfar]
    have hpow : mb < 2 ^ distance :=
      lt_of_lt_of_le hmb (Nat.pow_le_pow_right (by decide) hfar)
    have hjam := jammed_shiftRight (K := K) mb distance
    rwa [one_shiftLeft, and_two_pow_sub_one_eq_mod, mod_eq_of_lt hpow,
      shiftRight_eq_div_pow, div_eq_of_lt hpow, zero_or] at hjam
  rw [if_neg hfar]
  by_cases hnear : distance = 0
  · subst hnear
    left
    simp
  · rw [if_pos hnear]
    exact jammed_shiftRight mb distance

end

variable {ea m : Nat}

/-- The loop stops with the leading bit in place or at the least exponent, and one round
before it had not. -/
lemma shiftUp_spec (limit : Nat) (hea : 1 ≤ ea) (magnitude : Nat) :
    ∃ k, k < ea ∧ shiftUp limit ea magnitude = (magnitude * 2 ^ k, ea - k) ∧
      (limit ≤ magnitude * 2 ^ k ∨ ea - k = 1) ∧
      (k = 0 ∨ magnitude * 2 ^ k < 2 * limit) := by
  induction ea generalizing magnitude with
  | zero => omega
  | succ ea ih =>
    cases ea with
    | zero => exact ⟨0, by omega, by simp [shiftUp], by simp, by simp⟩
    | succ ea =>
      rw [shiftUp]
      by_cases h : magnitude < limit
      · rw [if_pos h]
        obtain ⟨k, hk, heq, hstop, hbefore⟩ := ih (by omega) (magnitude <<< 1)
        have hpow : magnitude <<< 1 * 2 ^ k = magnitude * 2 ^ (k + 1) := by
          rw [shiftLeft_eq, pow_succ]
          ring
        rw [hpow] at heq hstop hbefore
        refine ⟨k + 1, by omega, ?_, by omega, .inr ?_⟩
        · rw [heq, show ea + 2 - (k + 1) = ea + 1 - k by omega]
        · rcases hbefore with rfl | hlt
          · omega
          · exact hlt
      · rw [if_neg h]
        exact ⟨0, by omega, by simp, by omega, .inl rfl⟩

/-! ## Rounding -/

variable {t fpcr}

lemma and_seven_ne_zero_iff (m : Nat) :
    m &&& 7 ≠ 0 ↔ (m.testBit 2 || decide (m % 4 ≠ 0)) = true := by
  rw [and_two_pow_sub_one_eq_mod m 3, testBit_eq_decide_div_mod_eq, Bool.or_eq_true,
    decide_eq_true_eq, decide_eq_true_eq]
  omega

/-- The decision from the three places is the decision from the two guard bits. -/
lemma addUp_iff (mode m : Nat) (sa : Bool) :
    (m &&& 7 ≠ 0 ∧ ((mode = 0 ∧ (m &&& 7 > 4 ∨ (m &&& 7 = 4 ∧ (m >>> 3) &&& 1 ≠ 0))) ∨
        (mode = 1 ∧ sa = false) ∨ (mode = 2 ∧ sa = true))) ↔
      ((m.testBit 2 || decide (m % 4 ≠ 0)) && ((mode == 0 && m.testBit 2 &&
        (decide (m % 4 ≠ 0) || (m >>> 3) &&& 1 != 0)) || (mode == 1 && !sa) ||
          (mode == 2 && sa))) = true := by
  have hseven : m &&& 7 = m % 8 := and_two_pow_sub_one_eq_mod m 3
  have hbit : m.testBit 2 = decide (m / 4 % 2 = 1) := testBit_eq_decide_div_mod_eq
  rw [hseven, hbit]
  cases sa <;> by_cases h0 : mode = 0 <;> by_cases h1 : mode = 1 <;> by_cases h2 : mode = 2 <;>
    simp [h2] <;> omega

lemma addPack_eq (sa : Bool) (rounded ea flags : Nat) :
    addPack t fpcr sa rounded ea flags =
      packTail t (rmode fpcr) sa rounded ((ea : Int) - t.bias) flags := by
  have hall : t.exp >>> t.f = 2 * t.bias + 1 := by
    rw [exp, shiftLeft_shiftRight]
  have hstep : ∀ r e : Nat,
      (if e ≥ 2 * t.bias + 1 then (if toInf (rmode fpcr) sa then t.exp else t.exp - 1, flags ||| 20)
        else (((if r ≥ t.hidden then e else 0) <<< t.f) ||| (r &&& t.frac), flags)) =
      if (e : Int) - t.bias > t.bias then
        (if toInf (rmode fpcr) sa then t.exp else t.exp - 1, flags ||| 20)
      else ((if r ≥ t.hidden then ((e : Int) - t.bias + t.bias).toNat <<< t.f else 0) |||
        (r &&& t.frac), flags) := by
    intro r e
    have hiff : e ≥ 2 * t.bias + 1 ↔ (e : Int) - t.bias > t.bias := by omega
    have hshift : (if r ≥ t.hidden then e else 0) <<< t.f =
        if r ≥ t.hidden then e <<< t.f else 0 := by
      split <;> simp
    simp [hiff, hshift]
  rw [addPack, packTail]
  simp only [hall]
  by_cases hcarry : rounded ≥ t.hidden <<< 1
  · simp only [hcarry, if_true]
    rw [hstep, show ((ea + 1 : Nat) : Int) - t.bias = (ea : Int) - t.bias + 1 by push_cast; ring]
  · simp only [hcarry, if_false]
    rw [hstep]

variable {sa : Bool}

lemma addRound_eq_roundTail {e : Int} (hmax : max e t.emin = ea - t.bias)
    (htiny : (ea = 1 ∧ m < t.hidden <<< 3) ↔ e < t.emin) (hfz : ¬(e < t.emin ∧ fz fpcr)) :
    addRound t fpcr sa m ea =
      roundTail t (rmode fpcr) sa (m >>> 3) e (m.testBit 2) (decide (m % 4 ≠ 0)) := by
  have he : (if e < t.emin then t.emin else e) = ea - t.bias := by
    split <;> omega
  rw [addRound, roundTail]
  simp only [addUp_iff]
  simp only [htiny, and_seven_ne_zero_iff, he, Bool.and_eq_true, decide_eq_true_eq, if_neg hfz,
    addPack_eq]

variable {s x : ℚ}

/-- The three places are enough: the rounding of the number that the magnitude stands for. -/
lemma addRound_eq {g : Nat} (hjam : Jammed g s m) (hg : g = 1 ∨ g = 2) (hm : 0 < m)
    (hlt : m < 16 * 2 ^ t.f) (hea : 1 ≤ ea) (hstop : 8 * 2 ^ t.f ≤ m ∨ ea = 1)
    (habs : |x| = s * 2 ^ ((ea : Int) - t.bias - t.f - 3)) (hsa : sa = decide (x < 0)) :
    addRound t fpcr sa m ea = fpRound t (control fpcr) x := by
  have htwo : (2 : ℚ) ≠ 0 := two_ne_zero
  have hpos : 0 < s := hjam.pos hm
  have hx : x ≠ 0 := by
    rw [← abs_pos, habs]
    positivity
  have hhidden : t.hidden <<< 3 = 8 * 2 ^ t.f := by
    rw [t.hidden_eq, shiftLeft_eq, mul_comm]
  -- The magnitude and its number are on the same side of the powers of two.
  have hcompare : ∀ c : Nat, ((4 * c : Nat) : ℚ) ≤ s ↔ 4 * c ≤ m := by
    intro c
    rcases hg with rfl | rfl
    · simpa [← mul_assoc] using hjam.le_iff (2 * c)
    · simpa using hjam.le_iff c
  have hbelow : s < 16 * 2 ^ t.f := by
    have := (hcompare (4 * 2 ^ t.f)).not.2 (by omega)
    push_cast at this
    linarith
  have hlead : 8 * 2 ^ t.f ≤ s ↔ 8 * 2 ^ t.f ≤ m := by
    have := hcompare (2 * 2 ^ t.f)
    rw [show 4 * (2 * 2 ^ t.f) = 8 * 2 ^ t.f by ring] at this
    rw [← this]
    push_cast
    rfl
  obtain ⟨hmax, htiny⟩ : max (Int.log 2 |x|) t.emin = ea - t.bias ∧
      ((ea = 1 ∧ m < t.hidden <<< 3) ↔ Int.log 2 |x| < t.emin) := by
    have hunit : (8 : ℚ) * 2 ^ t.f * 2 ^ ((ea : Int) - t.bias - t.f - 3) =
        2 ^ ((ea : Int) - t.bias) := by
      rw [show (8 : ℚ) = 2 ^ (3 : Int) by norm_num, ← zpow_natCast, ← zpow_add₀ htwo,
        ← zpow_add₀ htwo]
      ring
    have hemin : t.emin = 1 - (t.bias : Int) := rfl
    by_cases hl : 8 * 2 ^ t.f ≤ m
    · have hlog : Int.log 2 |x| = ea - t.bias := by
        apply log_eq
        · rw [habs, ← hunit]
          exact mul_le_mul_of_nonneg_right (hlead.2 hl) (by positivity)
        · rw [habs, zpow_add_one₀ htwo, ← hunit, mul_right_comm]
          apply mul_lt_mul_of_pos_right _ (by positivity)
          linarith
      omega
    obtain rfl : ea = 1 := by omega
    have hlog : Int.log 2 |x| < t.emin := by
      rw [← Int.lt_zpow_iff_log_lt (by decide) (abs_pos.2 hx), habs, hemin]
      push_cast at hunit ⊢
      rw [← hunit]
      apply mul_lt_mul_of_pos_right _ (by positivity)
      exact lt_of_not_ge fun h => hl (hlead.1 h)
    omega
  by_cases hflush : Int.log 2 |x| < t.emin ∧ fz fpcr = true
  · rw [fpRound_flush rfl hflush, ← hsa, addRound]
    simp [htiny.2 hflush.1, hflush.2, fpZero]
  rw [addRound_eq_roundTail hmax htiny hflush]
  apply roundTail_eq hx hsa rfl hflush
  have hscaled : |x| * 2 ^ ((t.f : Int) - max (Int.log 2 |x|) t.emin) = s / 8 := by
    rw [hmax, habs, mul_assoc, ← zpow_add₀ htwo,
      show (ea : Int) - t.bias - t.f - 3 + ((t.f : Int) - (ea - t.bias)) = -3 by ring]
    ring
  rw [hscaled]
  exact hjam.guardBits hg

/-! ## Operands in order -/

/-- The operands in order: their fields, and a leading bit unless the exponent is the least. -/
structure Ordered (t : FloatFormat) (ea eb ma mb : Nat) : Prop where
  eb_pos : 1 ≤ eb
  le : eb ≤ ea
  ma_lt : ma < 2 ^ (t.f + 1)
  mb_lt : mb < 2 ^ (t.f + 1)
  normal : 1 < ea → 2 ^ t.f ≤ ma
  ma_le : ea = eb → mb ≤ ma

/-- The exact sum or difference in units of the last of the three places. -/
def exactSum (same : Bool) (distance ma mb : Nat) : ℚ :=
  if same then (8 * ma : Nat) + ((8 * mb : Nat) : ℚ) / 2 ^ distance
  else (8 * ma : Nat) - ((8 * mb : Nat) : ℚ) / 2 ^ distance

/-- The same number in the text. -/
def alignedSum (same : Bool) (distance ma mb : Nat) : Nat :=
  if same then ma <<< 3 + jamAlign distance (mb <<< 3) else ma <<< 3 - jamAlign distance (mb <<< 3)

namespace Ordered

variable {ea eb ma mb : Nat} (h : Ordered t ea eb ma mb)
include h

lemma quot_le : ((8 * mb : Nat) : ℚ) / 2 ^ (ea - eb) ≤ (8 * ma : Nat) := by
  have hle : 8 * mb ≤ 8 * ma * 2 ^ (ea - eb) := by
    rcases eq_or_lt_of_le h.le with heq | hlt
    · have := h.ma_le heq.symm
      rw [heq, tsub_self]
      omega
    have hnormal := h.normal (by have := h.eb_pos; omega)
    have hmb := h.mb_lt
    obtain ⟨d, hd⟩ : ∃ d, ea - eb = d + 1 := ⟨ea - eb - 1, by omega⟩
    have hpow : ma * 2 ≤ ma * 2 ^ (ea - eb) := by
      rw [hd, pow_succ']
      exact Nat.mul_le_mul_left _ (Nat.le_mul_of_pos_right _ (Nat.two_pow_pos d))
    rw [mul_assoc]
    omega
  rw [div_le_iff₀ (by positivity)]
  exact_mod_cast hle

section
variable (hwidth : t.f + 4 ≤ 64)
include hwidth

variable (same : Bool)
include same

lemma jammed : Jammed 1 (exactSum same (ea - eb) ma mb) (alignedSum same (ea - eb) ma mb) := by
  have hmb : mb <<< 3 < 2 ^ 64 := by
    have hpow : 2 ^ (t.f + 4) ≤ 2 ^ 64 := Nat.pow_le_pow_right (by decide) hwidth
    have hlt := h.mb_lt
    rw [Nat.pow_add] at hpow
    omega
  have halign := jamAlign_jammed (K := ℚ) (ea - eb) hmb
  have hma : ma <<< 3 = 2 * (4 * ma) := by
    omega
  rw [exactSum, alignedSum, hma, show 8 * ma = 2 * (4 * ma) by ring]
  rw [shiftLeft_eq, show mb * 2 ^ 3 = 8 * mb by ring] at halign ⊢
  cases same
  · have hle := h.quot_le
    rw [show 8 * ma = 2 * (4 * ma) by ring] at hle
    exact (halign.sub hle).2
  · exact halign.add (4 * ma)

/-- What is shifted out is lost only when the difference keeps its leading bits. -/
lemma exact_or_large :
    exactSum same (ea - eb) ma mb = alignedSum same (ea - eb) ma mb ∨
      4 * 2 ^ t.f ≤ alignedSum same (ea - eb) ma mb := by
  have hjam := h.jammed hwidth same
  have hquot := h.quot_le
  rcases lt_or_ge (ea - eb) 4 with hnear | hfar
  · -- A short shift moves only the three places out of the smaller significand.
    left
    have hexact : ((8 * mb : Nat) : ℚ) / 2 ^ (ea - eb) =
        ((2 ^ (3 - (ea - eb)) * mb : Nat) : ℚ) := by
      rw [div_eq_iff (by positivity)]
      have hpow : 2 ^ (3 - (ea - eb)) * 2 ^ (ea - eb) = 8 := by
        rw [← Nat.pow_add, show 3 - (ea - eb) + (ea - eb) = 3 by omega]
      exact_mod_cast (by rw [← hpow]; ring : 8 * mb = 2 ^ (3 - (ea - eb)) * mb * 2 ^ (ea - eb))
    rw [exactSum, hexact] at hjam ⊢
    rw [hexact] at hquot
    have hle : 2 ^ (3 - (ea - eb)) * mb ≤ 8 * ma := by exact_mod_cast hquot
    cases same
    · simp only [Bool.false_eq_true, if_false, ← cast_sub hle] at hjam ⊢
      exact_mod_cast hjam.natCast_eq
    · simp only [if_true, ← cast_add] at hjam ⊢
      exact_mod_cast hjam.natCast_eq
  have hnormal : (2 : ℚ) ^ t.f ≤ ma := by
    exact_mod_cast h.normal (by omega)
  have hmb : (mb : ℚ) < 2 * 2 ^ t.f := by
    have := h.mb_lt
    rw [pow_succ'] at this
    exact_mod_cast this
  have hsmall : ((8 * mb : Nat) : ℚ) / 2 ^ (ea - eb) ≤ mb / 2 := by
    have hpow : (16 : ℚ) ≤ 2 ^ (ea - eb) := by
      calc (16 : ℚ) = 2 ^ 4 := by norm_num
        _ ≤ 2 ^ (ea - eb) := pow_le_pow_right₀ one_le_two hfar
    rw [div_le_div_iff₀ (by positivity) two_pos]
    push_cast
    have : (mb : ℚ) * 16 ≤ mb * 2 ^ (ea - eb) := mul_le_mul_of_nonneg_left hpow (by positivity)
    linarith
  have hnonneg : 0 ≤ ((8 * mb : Nat) : ℚ) / 2 ^ (ea - eb) := by positivity
  have hlarge : ((2 * 1 * (2 * 2 ^ t.f) : Nat) : ℚ) ≤ exactSum same (ea - eb) ma mb := by
    rw [exactSum]
    push_cast at hsmall hnonneg ⊢
    split <;> linarith
  have := (hjam.le_iff (2 * 2 ^ t.f)).1 hlarge
  omega

lemma alignedSum_lt : alignedSum same (ea - eb) ma mb < 32 * 2 ^ t.f := by
  have hjam := h.jammed hwidth same
  have hquot := h.quot_le
  have hma : (ma : ℚ) < 2 * 2 ^ t.f := by
    have := h.ma_lt
    rw [pow_succ'] at this
    exact_mod_cast this
  have hnonneg : 0 ≤ ((8 * mb : Nat) : ℚ) / 2 ^ (ea - eb) := by positivity
  have hsmall : ¬((2 * 1 * (16 * 2 ^ t.f) : Nat) : ℚ) ≤ exactSum same (ea - eb) ma mb := by
    rw [exactSum, not_le]
    push_cast at hquot hnonneg ⊢
    split <;> linarith
  have := (hjam.le_iff (16 * 2 ^ t.f)).not.1 hsmall
  omega

end
end Ordered

/-! ## Normalisation -/

/-- A magnitude that stands for `s` in the binade `ea`. -/
structure Placed (t : FloatFormat) (s : ℚ) (m ea : Nat) : Prop where
  jammed : Jammed 1 s m
  pos : 0 < m
  lt : m < 16 * 2 ^ t.f
  exact_or_large : s = m ∨ 4 * 2 ^ t.f ≤ m
  ea_pos : 1 ≤ ea

lemma carry_placed (hjam : Jammed 1 s m) (hm : 0 < m) (hlt : m < 32 * 2 ^ t.f)
    (hexact : s = m ∨ 4 * 2 ^ t.f ≤ m) (hea : 1 ≤ ea) :
    ∃ s' : ℚ, ∃ m' ea' : Nat,
      (if m ≥ t.hidden <<< 4 then ((m >>> 1) ||| (m &&& 1), ea + 1) else (m, ea)) = (m', ea') ∧
        Placed t s' m' ea' ∧ s * 2 ^ ea = s' * 2 ^ ea' := by
  have hhidden : t.hidden <<< 4 = 16 * 2 ^ t.f := by
    rw [t.hidden_eq, shiftLeft_eq, mul_comm]
  rw [hhidden]
  by_cases hcarry : m ≥ 16 * 2 ^ t.f
  · have hhalf := hjam.half
    have hcompare : ∀ c : Nat, 2 * c ≤ (m >>> 1) ||| (m &&& 1) ↔ 4 * c ≤ m := by
      intro c
      have hleft := hhalf.le_iff c
      have hright := hjam.le_iff (2 * c)
      rw [← hleft, show 4 * c = 2 * (2 * c) by ring, ← hright, le_div_iff₀ two_pos]
      push_cast
      rw [mul_comm]
    have hlow := (hcompare (4 * 2 ^ t.f)).2 (by omega)
    have hhigh := (hcompare (8 * 2 ^ t.f)).not.2 (by omega)
    refine ⟨s / 2, _, _, if_pos hcarry, ⟨hhalf, by omega, by omega, by omega, by omega⟩, ?_⟩
    ring
  · exact ⟨s, m, ea, if_neg hcarry, ⟨hjam, hm, by omega, hexact, hea⟩, rfl⟩

/-- The loop moves the magnitude to the left.  More than one place is left only when nothing
was shifted out before. -/
lemma shiftUp_placed (h : Placed t s m ea) :
    ∃ (g : Nat) (s' : ℚ) (m' ea' : Nat), shiftUp (t.hidden <<< 3) ea m = (m', ea') ∧
      Jammed g s' m' ∧ (g = 1 ∨ g = 2) ∧ 0 < m' ∧ m' < 16 * 2 ^ t.f ∧ 1 ≤ ea' ∧
        (8 * 2 ^ t.f ≤ m' ∨ ea' = 1) ∧ s * 2 ^ ea = s' * 2 ^ ea' := by
  have hhidden : t.hidden <<< 3 = 8 * 2 ^ t.f := by
    rw [t.hidden_eq, shiftLeft_eq, mul_comm]
  rw [hhidden]
  obtain ⟨k, hk, heq, hstop, hbefore⟩ := shiftUp_spec (8 * 2 ^ t.f) h.ea_pos m
  have hlt := h.lt
  have hpos := mul_pos h.pos (Nat.two_pow_pos k)
  have hscale : s * 2 ^ ea = s * 2 ^ k * 2 ^ (ea - k) := by
    rw [mul_assoc, ← pow_add, show k + (ea - k) = ea by omega]
  have hrange : m * 2 ^ k < 16 * 2 ^ t.f := by
    rcases hbefore with rfl | hlt'
    · omega
    · omega
  match k, h.exact_or_large with
  | 0, _ =>
    refine ⟨1, s * 2 ^ 0, _, _, heq, ?_, .inl rfl, hpos, hrange, by omega, hstop, hscale⟩
    simpa using h.jammed
  | 1, _ =>
    refine ⟨2, s * 2 ^ 1, _, _, heq, ?_, .inr rfl, hpos, hrange, by omega, hstop, hscale⟩
    simpa using h.jammed.double
  | k + 2, .inl hexact =>
    refine ⟨1, s * 2 ^ (k + 2), _, _, heq, .inl ?_, .inl rfl, hpos, hrange, by omega, hstop,
      hscale⟩
    rw [hexact]
    push_cast
    rfl
  | k + 2, .inr hlarge =>
    have : m * 4 ≤ m * 2 ^ (k + 2) := by
      apply Nat.mul_le_mul_left
      rw [Nat.pow_add, mul_comm]
      exact Nat.le_mul_of_pos_right 4 (Nat.two_pow_pos k)
    omega

/-! ## The sum -/

/-- The exact sum is the number that the text has in units of the last of the three places. -/
lemma Ordered.sum_eq {eb ma mb : Nat} (h : Ordered t ea eb ma mb) (sa sb : Bool) :
    withSign sa (ma * 2 ^ ((ea : Int) - t.bias - t.f)) +
        withSign sb (mb * 2 ^ ((eb : Int) - t.bias - t.f)) =
      withSign sa (exactSum (sa == sb) (ea - eb) ma mb * 2 ^ ((ea : Int) - t.bias - t.f - 3)) := by
  have htwo : (2 : ℚ) ≠ 0 := two_ne_zero
  have hfirst : (2 : ℚ) ^ ((ea : Int) - t.bias - t.f) =
      8 * 2 ^ ((ea : Int) - t.bias - t.f - 3) := by
    rw [zpow_sub₀ htwo _ 3]
    ring
  have hsecond : (2 : ℚ) ^ ((eb : Int) - t.bias - t.f) =
      8 / 2 ^ (ea - eb) * 2 ^ ((ea : Int) - t.bias - t.f - 3) := by
    have hd : ((ea - eb : Nat) : Int) = (ea : Int) - eb := Int.ofNat_sub h.le
    rw [div_mul_eq_mul_div, ← hfirst, ← zpow_natCast, hd, ← zpow_sub₀ htwo]
    ring
  rw [hfirst, hsecond, exactSum]
  cases sa <;> cases sb <;> simp [withSign] <;> ring

/-- The text rounds the exact sum; an exact zero takes the sign of equal signs, or else that of
the direction. -/
lemma addAligned_eq {eb ma mb : Nat} (h : Ordered t ea eb ma mb) (hwidth : t.f + 4 ≤ 64)
    {sb : Bool} (hx : x = withSign sa (ma * 2 ^ ((ea : Int) - t.bias - t.f)) +
      withSign sb (mb * 2 ^ ((eb : Int) - t.bias - t.f))) :
    addAligned t fpcr sa sb ea eb ma mb =
      if x = 0 then (fpZero t (if sa = sb then sa else rmode fpcr == 2), 0)
      else fpRound t (control fpcr) x := by
  have htwo : (2 : ℚ) ≠ 0 := two_ne_zero
  have hjam := h.jammed hwidth (sa == sb)
  have hexact := h.exact_or_large hwidth (sa == sb)
  have hlt := h.alignedSum_lt hwidth (sa == sb)
  rw [h.sum_eq] at hx
  have hsum : (if sa = sb then ma <<< 3 + jamAlign (ea - eb) (mb <<< 3)
      else ma <<< 3 - jamAlign (ea - eb) (mb <<< 3)) = alignedSum (sa == sb) (ea - eb) ma mb := by
    cases sa <;> cases sb <;> rfl
  rw [addAligned]
  simp only [hsum]
  revert hx hjam hexact hlt
  generalize exactSum (sa == sb) (ea - eb) ma mb = s
  generalize alignedSum (sa == sb) (ea - eb) ma mb = m
  intro hx hjam hexact hlt
  have hea : 1 ≤ ea := h.eb_pos.trans h.le
  by_cases hzero : m = 0
  · subst hzero
    rw [hjam.eq_zero (by decide), zero_mul] at hx
    have hx0 : x = 0 := by
      rw [hx, withSign]
      simp
    rw [if_pos rfl, if_pos hx0]
    rfl
  have hm := pos_of_ne_zero hzero
  have hpos : 0 < s * 2 ^ ((ea : Int) - t.bias - t.f - 3) := mul_pos (hjam.pos hm) (by positivity)
  have hsa := withSign_neg_iff hpos sa
  have habs := abs_withSign hpos.le sa
  rw [← hx] at hsa habs
  have hx0 : x ≠ 0 := by
    rw [← abs_pos, habs]
    exact hpos
  rw [if_neg hzero, if_neg hx0]
  obtain ⟨s', m', ea', hcarry, hplaced, hscale⟩ := carry_placed hjam hm hlt hexact hea
  obtain ⟨g, s'', m'', ea'', hshift, hjam'', hg, hm'', hlt'', hea'', hstop, hscale'⟩ :=
    shiftUp_placed hplaced
  rw [hcarry]
  simp only [hshift]
  apply addRound_eq hjam'' hg hm'' hlt'' hea'' hstop _ hsa
  rw [habs]
  have hpow : ∀ n : Nat, (2 : ℚ) ^ ((n : Int) - t.bias - t.f - 3) =
      2 ^ n * 2 ^ (-(t.bias : Int) - t.f - 3) := by
    intro n
    rw [← zpow_natCast, ← zpow_add₀ htwo]
    ring
  rw [hpow, hpow, ← mul_assoc, ← mul_assoc, hscale, hscale']

/-! ## All operands -/

lemma ordered_of {a b : Nat} (hle : fieldOrOne t b ≤ fieldOrOne t a)
    (hsig : fieldOrOne t a = fieldOrOne t b → t.significand b ≤ t.significand a) :
    Ordered t (fieldOrOne t a) (fieldOrOne t b) (t.significand a) (t.significand b) where
  eb_pos := by
    rw [fieldOrOne]
    split <;> omega
  le := hle
  ma_lt := t.significand_lt a
  mb_lt := t.significand_lt b
  normal := by
    intro hnormal
    rw [fieldOrOne] at hnormal
    rw [significand]
    split at hnormal
    · omega
    · rename_i hne
      rw [if_neg hne]
      omega
  ma_le := hsig

lemma addSubFinite_eq (hwidth : t.f + 4 ≤ 64) (sa sb : Bool) (a b : Nat)
    (hx : x = withSign sa (t.magnitude ℚ a) + withSign sb (t.magnitude ℚ b)) :
    addSubFinite t fpcr sa sb a b =
      if x = 0 then (fpZero t (if sa = sb then sa else rmode fpcr == 2), 0)
      else fpRound t (control fpcr) x := by
  rw [magnitude_eq, magnitude_eq] at hx
  have hfield : ∀ y : Nat, (if (y &&& t.exp) >>> t.f = 0 then 1 else (y &&& t.exp) >>> t.f) =
      fieldOrOne t y := by
    intro y
    rw [and_exp_shiftRight, fieldOrOne]
  rw [addSubFinite]
  simp only [hfield, mantissa_eq]
  split
  · have hordered : Ordered t (fieldOrOne t b) (fieldOrOne t a) (t.significand b)
        (t.significand a) := ordered_of (by omega) (by omega)
    rw [add_comm] at hx
    rw [addAligned_eq hordered hwidth hx]
    cases sa <;> cases sb <;> rfl
  · have hordered : Ordered t (fieldOrOne t a) (fieldOrOne t b) (t.significand a)
        (t.significand b) := ordered_of (by omega) (by omega)
    exact addAligned_eq hordered hwidth hx

lemma addSubWords_eq (hwidth : t.f + 4 ≤ 64) (subtract : Bool) (a b : Nat) :
    addSubValue t fpcr subtract a b = fpAddSub t (control fpcr) subtract a b := by
  rw [addSubValue, fpAddSub, fpUnpack_eq, fpUnpack_eq]
  simp only []
  rw [fpProcessNaNs_pair flushInput_eq_of_isNaN flushInput_eq_of_isNaN]
  generalize flushInput t fpcr a = p
  generalize flushInput t fpcr b = q
  obtain ⟨a, fa⟩ := p
  obtain ⟨b, fb⟩ := q
  apply congrArg (raise (fa ||| fb))
  have hsb : (if subtract then (b &&& t.sign) == 0 else (b &&& t.sign) != 0) =
      (t.negative b ^^ subtract) := by
    rw [← bne_and_sign]
    cases subtract <;> cases h : (b &&& t.sign) == 0 <;> simp [bne, h]
  simp only [hsb]
  simp only [bne_and_sign, ArmFp.Unpacked.isInf, ArmFp.Unpacked.isZero, fpInfinity_eq,
    fpDefaultNaN_eq]
  generalize hsb' : (t.negative b ^^ subtract) = sb
  cases hnan : isNaN t a || isNaN t b with
  | true => rfl
  | false =>
    rw [Bool.or_eq_false_iff] at hnan
    simp only [Bool.false_eq_true, if_false, and_exp_eq_exp_iff_infinity hnan.1,
      and_exp_eq_exp_iff_infinity hnan.2]
    by_cases hia : fpType t a = .infinity
    · simp only [hia, true_or, true_and, if_true]
      rfl
    by_cases hib : fpType t b = .infinity
    · simp only [hia, hib, or_true, false_and, if_true, if_false]
    simp only [hia, hib, or_self, false_and, if_false]
    -- Two finite operands.
    have hvalue : t.value ℚ a + (if subtract then -t.value ℚ b else t.value ℚ b) =
        withSign (t.negative a) (t.magnitude ℚ a) + withSign sb (t.magnitude ℚ b) := by
      rw [← hsb']
      cases hb : t.negative b <;> cases subtract <;> simp [value, withSign, hb]
    rw [addSubFinite_eq hwidth _ _ a b hvalue]
    by_cases hzero : fpType t a = .zero ∧ fpType t b = .zero ∧ t.negative a = sb
    · have hx : t.value ℚ a + (if subtract then -t.value ℚ b else t.value ℚ b) = 0 := by
        rw [hvalue, magnitude_eq_zero hzero.1, magnitude_eq_zero hzero.2.1]
        simp [withSign]
      rw [if_pos hzero, if_pos hx, if_pos hzero.2.2]
    rw [if_neg hzero, fpRoundOrZero, decide_negInf]
    by_cases hx : t.value ℚ a + (if subtract then -t.value ℚ b else t.value ℚ b) = 0
    · -- Equal signs cancel only when both operands are zeros.
      have hne : t.negative a ≠ sb := by
        intro heq
        rw [hvalue, heq] at hx
        have hma := magnitude_nonneg (K := ℚ) (t := t) a
        have hmb := magnitude_nonneg (K := ℚ) (t := t) b
        have hboth : t.magnitude ℚ a = 0 ∧ t.magnitude ℚ b = 0 := by
          cases sb <;> simp only [withSign, Bool.false_eq_true, if_false, if_true] at hx <;>
            constructor <;> linarith
        exact hzero ⟨fpType_eq_zero hboth.1, fpType_eq_zero hboth.2, heq⟩
      rw [if_pos hx, if_pos hx, if_neg hne]
    · rw [if_neg hx, if_neg hx]

/-- FADD and FSUB, for both widths, all operands and every FPCR: the exact sum or difference,
rounded once, with the special cases and the exceptions of the architecture. -/
theorem addSubValue_eq (dbl subtract : Bool) (fpcr : Nat)
    (a b : BitVec ((format dbl).f + (format dbl).w + 1)) :
    addSubValue (format dbl) fpcr subtract a.toNat b.toNat =
      fpAddSub (format dbl) (control fpcr) subtract a.toNat b.toNat := by
  apply addSubWords_eq
  cases dbl <;> decide

end Drippu.RecompFp
