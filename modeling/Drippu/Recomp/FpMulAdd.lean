import Drippu.Recomp.FpLattice

/-!
# Recomp - Fused multiply-add

The text of FMADD and its relatives writes the product of two operands and the addend into
accumulators of equal size, adds them or takes the smaller from the larger, and rounds the
result once.

Main results:

- Theorem `mulAddValue_eq`: the text computes the architecture's fused multiply-add.
-/

namespace Drippu.RecompFp

open Library Library.Words ArmFp

/-! ## The text -/

/-- The sum of the product, with sign `ps`, and the addend, with sign `cs`, and its
sign. -/
def combine (count : Nat) (ps cs : Bool) (p c : Words 64) : Words 64 × Bool :=
  if ps ≠ cs then
    let compare := compareWords p c count
    let left := if compare.isGE then p else c
    let right := if compare.isGE then c else p
    (sub left right, if compare.isGE then ps else cs)
  else (add p c, ps)

section
variable (t : FloatFormat) (fpcr count : Nat) (base : Int)

/-- The last branch of `EmitFPMulAddValue`. -/
def fmaFinite (a b z : Nat) : Nat × Nat :=
  let az := withoutSign t a == 0
  let bz := withoutSign t b == 0
  let zz := withoutSign t z == 0
  let ps := ((a ^^^ b) &&& t.sign) != 0
  let cs := (z &&& t.sign) != 0
  let p := productWords t count a b
  let c := placeWord (BitVec.ofNat 64 (mantissa t z)) (placeOf t z + t.bias + t.f - 1)
  let (p, negative) := combine count ps cs p c
  latticeRound t fpcr base count negative
    (if zz && (az || bz) && ps == cs then ps else rmode fpcr == 2) p

/-- The result when one of the three operands is a not-a-number. -/
def nanResult3 (badproduct : Bool) (a b z : Nat) : Nat × Nat :=
  let an := isNaN t a
  let zn := isNaN t z
  let as := isSNaN t a
  let bs := isSNaN t b
  let zs := isSNaN t z
  let bad := zn && !zs && badproduct
  (if dn fpcr || bad then t.exp ||| t.quiet
    else (if zs then z else if as then a else if bs then b else if zn then z else if an then a
      else b) ||| t.quiet,
    (if as || bs || zs then 1 else 0) ||| (if bad then 1 else 0))

/-- `EmitFPMulAddValue`. -/
def mulAddValue (a b z : Nat) : Nat × Nat :=
  let (a, fa) := flushInput t fpcr a
  let (b, fb) := flushInput t fpcr b
  let (z, fz) := flushInput t fpcr z
  let ai := withoutSign t a == t.exp
  let bi := withoutSign t b == t.exp
  let zi := withoutSign t z == t.exp
  let az := withoutSign t a == 0
  let bz := withoutSign t b == 0
  let badproduct := (ai && bz) || (bi && az)
  let ps := ((a ^^^ b) &&& t.sign) != 0
  let cs := (z &&& t.sign) != 0
  let (v, flags) :=
    if isNaN t a || isNaN t b || isNaN t z then nanResult3 t fpcr badproduct a b z
    else if badproduct || (zi && (ai || bi) && ps != cs) then (t.exp ||| t.quiet, 1)
    else if zi || ai || bi then
      (t.exp ||| (if (if zi then cs else ps) then t.sign else 0), 0)
    else fmaFinite t fpcr count base a b z
  (v, fa ||| fb ||| fz ||| flags)

end

/-! ## The sum -/

lemma combine_eq {count : Nat} {p c : Words 64}
    (hfit : value p count + value c count < 2 ^ (64 * count)) (ps cs : Bool) (u : ℚ) :
    withSign (combine count ps cs p c).2 (value (combine count ps cs p c).1 count * u) =
      withSign ps (value p count * u) + withSign cs (value c count * u) := by
  rw [combine]
  split
  · rw [compareWords_eq]
    by_cases hge : value c count ≤ value p count
    · have hcompare : (compare (value p count) (value c count)).isGE = true := by
        rw [Nat.isGE_compare]
        exact hge
      simp only [hcompare, if_true]
      rw [value_sub_of_le (by decide) hge, Nat.cast_sub hge]
      cases ps <;> cases cs <;> simp_all [withSign] <;> ring
    have hcompare : (compare (value p count) (value c count)).isGE = false := by
      rw [← Bool.not_eq_true, Nat.isGE_compare]
      exact hge
    simp only [hcompare, Bool.false_eq_true, if_false]
    rw [value_sub_of_le (by decide) (by omega), Nat.cast_sub (by omega)]
    cases ps <;> cases cs <;> simp_all [withSign] <;> ring
  · rw [value_add_of_lt (by decide) hfit]
    cases ps <;> cases cs <;> simp_all [withSign] <;> ring

section
variable {t : FloatFormat} {fpcr count : Nat} {base : Int}

lemma Fits.value_addend (h : Fits t count) {z : Nat} (hz : t.biased z ≠ 2 ^ t.w - 1) :
    value (placeWord (BitVec.ofNat 64 (mantissa t z)) (placeOf t z + t.bias + t.f - 1)) count =
        t.significand z * 2 ^ (placeOf t z + t.bias + t.f - 1) ∧
      2 * value (placeWord (BitVec.ofNat 64 (mantissa t z)) (placeOf t z + t.bias + t.f - 1))
        count < 2 ^ (64 * count) := by
  have hpz := placeOf_le hz
  have hroom := h.room
  have hbias := t.two_mul_bias
  have hcount : (placeOf t z + t.bias + t.f - 1) / 64 + 1 < count := by
    have hlt := h.addend_lt
    omega
  rw [value_placeWord (by decide) _ hcount, toNat_mantissa h.f_lt]
  refine ⟨rfl, ?_⟩
  calc 2 * (t.significand z * 2 ^ (placeOf t z + t.bias + t.f - 1))
      < 2 * (2 ^ (t.f + 1) * 2 ^ (placeOf t z + t.bias + t.f - 1)) := by
        apply Nat.mul_lt_mul_of_pos_left _ (by decide)
        exact Nat.mul_lt_mul_of_pos_right (t.significand_lt z) (Nat.two_pow_pos _)
    _ = 2 ^ (1 + (t.f + 1 + (placeOf t z + t.bias + t.f - 1))) := by
        rw [pow_add 2 1, pow_add 2 (t.f + 1), pow_one]
    _ ≤ 2 ^ (64 * count) := Nat.pow_le_pow_right (by decide) (by omega)

lemma mulAdd_value (hbase : base = 2 * (t.emin - t.f)) (a b z : Nat) :
    t.value ℚ z + t.value ℚ a * t.value ℚ b =
      withSign (t.negative a ^^ t.negative b)
          ((t.significand a * t.significand b * 2 ^ (placeOf t a + placeOf t b) : Nat) * 2 ^ base) +
        withSign (t.negative z)
          ((t.significand z * 2 ^ (placeOf t z + t.bias + t.f - 1) : Nat) * 2 ^ base) := by
  have htwo : (2 : ℚ) ≠ 0 := two_ne_zero
  have haddend : t.magnitude ℚ z =
      (t.significand z * 2 ^ (placeOf t z + t.bias + t.f - 1) : Nat) * 2 ^ base := by
    have hplace : placeOf t z + t.bias + t.f - 1 = placeOf t z + (t.bias + t.f - 1) := by
      have hf := t.f_pos
      omega
    have hunit : (2 : ℚ) ^ (t.emin - t.f) = 2 ^ (t.bias + t.f - 1) * 2 ^ base := by
      have hf := t.f_pos
      rw [← zpow_natCast, ← zpow_add₀ htwo, hbase, FloatFormat.emin]
      push_cast [show 1 ≤ t.bias + t.f by omega]
      ring
    rw [magnitude_eq_place, hunit, hplace, pow_add]
    push_cast
    ring
  rw [hbase, ← magnitude_mul, ← hbase, ← haddend, FloatFormat.value, FloatFormat.value,
    FloatFormat.value]
  cases t.negative a <;> cases t.negative b <;> cases t.negative z <;> simp [withSign] <;> ring

/-- The text on finite operands. -/
lemma fmaFinite_eq (h : Fits t count) (hbase : base = 2 * (t.emin - t.f))
    (hwidth : t.f + t.w < 64) {a b z : Nat} (ha : t.Word a) (hb : t.Word b) (hz : t.Word z)
    (hfa : t.biased a ≠ 2 ^ t.w - 1) (hfb : t.biased b ≠ 2 ^ t.w - 1)
    (hfz : t.biased z ≠ 2 ^ t.w - 1) :
    fmaFinite t fpcr count base a b z =
      if fpType t z = .zero ∧ (fpType t a = .zero ∨ fpType t b = .zero) ∧
          t.negative z = (t.negative a ^^ t.negative b) then
        (fpZero t (t.negative z), 0)
      else
        fpRoundOrZero t (control fpcr) (t.value ℚ z + t.value ℚ a * t.value ℚ b) := by
  obtain ⟨hp, hproom⟩ := h.value_product hfa hfb
  obtain ⟨hc, hcroom⟩ := h.value_addend hfz
  have hexact := mulAdd_value hbase a b z
  have hroom : value (productWords t count a b) count +
      value (placeWord (BitVec.ofNat 64 (mantissa t z)) (placeOf t z + t.bias + t.f - 1)) count <
        2 ^ (64 * count) := by omega
  have hsum := combine_eq hroom (t.negative a ^^ t.negative b) (t.negative z) (2 ^ base)
  rw [hp, hc, ← hexact] at hsum
  have hlow : 1 ≤ t.emin - t.f - base := by
    have hf := t.f_pos
    have hbias := t.bias_pos
    rw [hbase, FloatFormat.emin]
    omega
  have hhigh : t.emin - t.f - base < 64 * count := by
    have hroom := h.room
    have hbias := t.two_mul_bias
    rw [hbase, FloatFormat.emin]
    omega
  rw [fmaFinite, xor_and_sign, bne_and_sign]
  simp only [withoutSign_beq_zero hwidth ha, withoutSign_beq_zero hwidth hb,
    withoutSign_beq_zero hwidth hz]
  generalize combine count (t.negative a ^^ t.negative b) (t.negative z) (productWords t count a b)
    (placeWord (BitVec.ofNat 64 (mantissa t z)) (placeOf t z + t.bias + t.f - 1)) = s at hsum ⊢
  rw [latticeRound_eq h.f_lt hlow hhigh, hsum, fpRoundOrZero, decide_negInf]
  have hzero : value s.1 count = 0 ↔ t.value ℚ z + t.value ℚ a * t.value ℚ b = 0 := by
    have hunit : (2 : ℚ) ^ base ≠ 0 := zpow_ne_zero _ two_ne_zero
    rw [← hsum, withSign_eq_zero_iff, mul_eq_zero, or_iff_left hunit, Nat.cast_eq_zero]
  by_cases hcond : fpType t z = .zero ∧
      (fpType t a = .zero ∨ fpType t b = .zero) ∧
      t.negative z = (t.negative a ^^ t.negative b)
  · have hx : t.value ℚ z + t.value ℚ a * t.value ℚ b = 0 := by
      rw [value_eq_zero_of_fpType hcond.1, zero_add]
      rcases hcond.2.1 with ha0 | hb0
      · rw [value_eq_zero_of_fpType ha0, zero_mul]
      · rw [value_eq_zero_of_fpType hb0, mul_zero]
    rw [if_pos hcond, if_pos (hzero.2 hx)]
    rcases hcond.2.1 with h0 | h0 <;> simp [hcond.1, h0, ← hcond.2.2]
  rw [if_neg hcond]
  by_cases hx : t.value ℚ z + t.value ℚ a * t.value ℚ b = 0
  · have hsign : (decide (fpType t z = .zero) && (decide (fpType t a = .zero) ||
        decide (fpType t b = .zero)) &&
        (t.negative a ^^ t.negative b) == t.negative z) = false := by
      rw [← Bool.not_eq_true]
      intro hyes
      simp only [Bool.and_eq_true, Bool.or_eq_true, decide_eq_true_eq, beq_iff_eq] at hyes
      exact hcond ⟨hyes.1.1, hyes.1.2, hyes.2.symm⟩
    rw [if_pos (hzero.2 hx), if_pos hx, hsign]
    simp
  · rw [if_neg (hzero.not.2 hx), if_neg hx]

/-! ## Not-a-numbers -/

/-- The choice of the text among the not-a-numbers of three operands. -/
lemma fpProcessNaNs_triple {a b z a' b' z' : Nat} (ha : isNaN t a' = true → a' = a)
    (hb : isNaN t b' = true → b' = b) (hz : isNaN t z' = true → z' = z) :
    fpProcessNaNs t (control fpcr) [(fpType t z', z), (fpType t a', a), (fpType t b', b)] =
      if isNaN t a' || isNaN t b' || isNaN t z' then some (nanResult3 t fpcr false a' b' z')
      else none := by
  have hnan (x : Nat) := isNaN_of_isSNaN (t := t) (a := x)
  simp only [fpProcessNaNs, List.find?_cons, List.find?_nil, fpType_eq_snan_iff,
    fpType_eq_qnan_iff, fpProcessNaN_eq, nanResult3]
  cases hsz : isSNaN t z'
  · cases hsa : isSNaN t a'
    · cases hsb : isSNaN t b'
      · cases hnz : isNaN t z' <;> cases hna : isNaN t a' <;> cases hnb : isNaN t b' <;>
          simp_all [fpType_eq_snan_iff]
      · simp_all [fpType_eq_snan_iff]
    · simp_all [fpType_eq_snan_iff]
  · simp_all [fpType_eq_snan_iff]

lemma nanResult3_bad {a b z : Nat} {badproduct : Bool}
    (hproduct : badproduct = true → isNaN t a = false ∧ isNaN t b = false) :
    nanResult3 t fpcr badproduct a b z =
      if fpType t z = .qnan ∧ badproduct = true then (t.exp ||| t.quiet, 1)
      else nanResult3 t fpcr false a b z := by
  have hnan : ∀ x, isNaN t x = false → isSNaN t x = false := by
    intro x hx
    rw [isSNaN, hx, Bool.false_and]
  simp only [fpType_eq_qnan_iff]
  cases badproduct with
  | false => simp
  | true =>
    obtain ⟨ha, hb⟩ := hproduct rfl
    by_cases hq : isNaN t z = true ∧ isSNaN t z = false
    · simp [nanResult3, hq.1, hq.2, hnan a ha, hnan b hb]
    · have hbad : (isNaN t z && !isSNaN t z) = false := by
        simpa using hq
      rw [if_neg (fun hc => hq hc.1)]
      simp [nanResult3, hbad]

/-! ## All operands -/

lemma mulAddWords_eq (h : Fits t count) (hbase : base = 2 * (t.emin - t.f))
    (hwidth : t.f + t.w < 64) {a b z : Nat} (ha : t.Word a) (hb : t.Word b) (hz : t.Word z) :
    mulAddValue t fpcr count base a b z = fpMulAdd t (control fpcr) z a b := by
  have hwa := word_flushInput fpcr ha
  have hwb := word_flushInput fpcr hb
  have hwz := word_flushInput fpcr hz
  rw [mulAddValue, fpMulAdd, fpUnpack_eq, fpUnpack_eq, fpUnpack_eq]
  simp only []
  rw [fpProcessNaNs_triple flushInput_eq_of_isNaN flushInput_eq_of_isNaN flushInput_eq_of_isNaN]
  revert hwa hwb hwz
  generalize flushInput t fpcr a = p
  generalize flushInput t fpcr b = q
  generalize flushInput t fpcr z = r
  obtain ⟨a, fa⟩ := p
  obtain ⟨b, fb⟩ := q
  obtain ⟨z, fz⟩ := r
  intro hwa hwb hwz
  have hflags : fa ||| fb ||| fz = fz ||| fa ||| fb := by
    rw [Nat.or_comm, Nat.or_assoc]
  rw [hflags]
  apply congrArg (raise (fz ||| fa ||| fb))
  simp only [withoutSign_beq_exp hwidth hwa, withoutSign_beq_exp hwidth hwb,
    withoutSign_beq_exp hwidth hwz, withoutSign_beq_zero hwidth hwa,
    withoutSign_beq_zero hwidth hwb]
  rw [xor_and_sign, bne_and_sign, fpDefaultNaN_eq]
  have hbad : ((fpType t a = .infinity ∧ fpType t b = .zero) ∨
      (fpType t a = .zero ∧ fpType t b = .infinity)) ↔
        (decide (fpType t a = .infinity) && decide (fpType t b = .zero) ||
          decide (fpType t b = .infinity) && decide (fpType t a = .zero)) = true := by
    simp [and_comm]
  have hproduct := fun h => hbad.2 h
  simp only [ArmFp.Unpacked.isInf, ArmFp.Unpacked.isZero, hbad]
  revert hproduct
  generalize (decide (fpType t a = .infinity) && decide (fpType t b = .zero) ||
    decide (fpType t b = .infinity) && decide (fpType t a = .zero)) = badproduct
  intro hproduct
  cases hnan : isNaN t a || isNaN t b || isNaN t z with
  | true =>
    have hnumbers : badproduct = true → isNaN t a = false ∧ isNaN t b = false := by
      intro hbadproduct
      rcases hproduct hbadproduct with h | h
      · exact ⟨isNaN_false_of_fpType (.inl h.1), isNaN_false_of_fpType (.inr h.2)⟩
      · exact ⟨isNaN_false_of_fpType (.inr h.1), isNaN_false_of_fpType (.inl h.2)⟩
    rw [if_pos rfl, nanResult3_bad hnumbers]
    rfl
  | false =>
    rw [Bool.or_eq_false_iff, Bool.or_eq_false_iff] at hnan
    obtain ⟨⟨hna, hnb⟩, hnz⟩ := hnan
    have hquiet : ¬(fpType t z = .qnan ∧ badproduct = true) := by
      rw [fpType_eq_qnan_iff, hnz]
      simp
    simp only [Bool.false_eq_true, if_false]
    have hinvalid : (badproduct || (decide (fpType t z = .infinity) &&
        (decide (fpType t a = .infinity) || decide (fpType t b = .infinity)) &&
        (t.negative a ^^ t.negative b) != t.negative z)) = true ↔
        badproduct = true ∨ (fpType t z = .infinity ∧
          (fpType t a = .infinity ∨ fpType t b = .infinity) ∧
            t.negative z ≠ (t.negative a ^^ t.negative b)) := by
      simp only [Bool.or_eq_true, Bool.and_eq_true, decide_eq_true_eq, bne_iff_ne, and_assoc,
        @ne_comm Bool (t.negative z)]
    simp only [hinvalid, fpInfinity_eq]
    split
    · rfl
    by_cases hiz : fpType t z = .infinity
    · simp [hiz]
    by_cases hiab : fpType t a = .infinity ∨ fpType t b = .infinity
    · rcases hiab with hia | hib
      · simp [hiz, hia]
      · simp [hiz, hib]
    obtain ⟨hia, hib⟩ := not_or.1 hiab
    simp only [hiz, hia, hib, decide_false, Bool.or_false, Bool.false_eq_true, if_false]
    exact fmaFinite_eq h hbase hwidth hwa hwb hwz (biased_ne_max hna hia)
      (biased_ne_max hnb hib) (biased_ne_max hnz hiz)

/-- FMADD and its relatives, for both widths, all operands and every FPCR: the exact sum of the
addend and the product, rounded once, with the special cases and the exceptions of the
architecture. -/
theorem mulAddValue_eq (dbl : Bool) (fpcr : Nat)
    (a b z : BitVec ((format dbl).f + (format dbl).w + 1)) :
    mulAddValue (format dbl) fpcr (latticeCount dbl) (latticeBase dbl) a.toNat b.toNat z.toNat =
      fpMulAdd (format dbl) (control fpcr) z.toNat a.toNat b.toNat := by
  apply mulAddWords_eq (fits dbl) _ _ a.isLt b.isLt z.isLt
  · cases dbl <;> decide
  · cases dbl <;> decide

end
end Drippu.RecompFp
