import Mathlib.Data.BitVec
import Drippu.Library.BitWords

/-!
# Shader recompiler - Shifts and bit fields

The constant propagation pass folds shifts and bit fields of immediates, and the lowering of
64-bit integers builds their shifts from shifts and bit fields of the two words.  A 32-bit shift
is defined for amounts below 32, a field when it lies in the word.

Main results:

- Theorem `fold_faithful_iff`: which folds give the defined result.
- Theorem `lower_exact`: the lowering is exact, whatever undefined operations give.
-/

namespace Drippu.ShaderRecompiler

open Library BitVec Except

/-! ## The defined results -/

def extractField (base : BitVec 32) (offset count : Nat) : BitVec 32 :=
  (base.extractLsb' offset count).setWidth 32

def extractSigned (base : BitVec 32) (offset count : Nat) : BitVec 32 :=
  (base.extractLsb' offset count).signExtend 32

/-- The low bits of the inserted value in the field, the bits of the base outside. -/
def insertField (base insert : BitVec 32) (offset count : Nat) : BitVec 32 :=
  let mask := (BitVec.allOnes count).setWidth 32 <<< offset
  (base &&& ~~~mask) ||| ((insert <<< offset) &&& mask)

variable {base insert : BitVec 32} {offset count i : Nat}

lemma getLsbD_extractField (hi : i < 32) :
    (extractField base offset count).getLsbD i =
      (decide (i < count) && base.getLsbD (offset + i)) := by
  simp [extractField, getLsbD_extractLsb', hi]

lemma getLsbD_insertField (hi : i < 32) :
    (insertField base insert offset count).getLsbD i =
      if offset ≤ i ∧ i < offset + count then insert.getLsbD (i - offset) else base.getLsbD i := by
  simp only [insertField, getLsbD_or, getLsbD_and, getLsbD_not,
    getLsbD_shiftLeft, getLsbD_setWidth, getLsbD_allOnes]
  grind

/-! ## Folding -/

inductive FoldFault where
  | logicError
  | undefinedShift
  deriving DecidableEq

/-- A shift of the host. -/
def shiftBy (op : BitVec 32 → Nat → BitVec 32) (a : BitVec 32) (n : Nat) :
    Except FoldFault (BitVec 32) :=
  if n < 32 then .ok (op a n) else .error .undefinedShift

def foldShiftRightArithmetic32 (a b : BitVec 32) : Except FoldFault (BitVec 32) :=
  shiftBy .sshiftRight a b.toNat

def foldBitFieldUExtract (base shift count : BitVec 32) : Except FoldFault (BitVec 32) :=
  if shift.toNat + count.toNat > 32 then .error .logicError
  else do
    let field ← shiftBy (· >>> ·) base shift.toNat
    let bound ← shiftBy (· <<< ·) 1#32 count.toNat
    return field &&& (bound - 1#32)

/-- The shift to the left is a difference of 64 bits, the one to the right of 32 bits. -/
def foldBitFieldSExtract (base shift count : BitVec 32) : Except FoldFault (BitVec 32) :=
  let backShift := shift.toNat + count.toNat
  let leftShift := (2 ^ 64 + 32 - backShift) % 2 ^ 64
  let rightShift := (32#32 - count).toNat
  if backShift > 32 ∨ leftShift ≥ 32 ∨ rightShift ≥ 32 then .error .logicError
  else do
    let field ← shiftBy (· <<< ·) base leftShift
    shiftBy .sshiftRight field rightShift

def foldBitFieldInsert (base insert offset bits : BitVec 32) : Except FoldFault (BitVec 32) :=
  if bits.toNat ≥ 32 ∨ offset.toNat ≥ 32 then .error .logicError
  else do
    let above ← shiftBy (· <<< ·) (~~~0#32) bits.toNat
    let mask ← shiftBy (· <<< ·) (~~~above) offset.toNat
    let field ← shiftBy (· <<< ·) insert offset.toNat
    return (base &&& ~~~mask) ||| field

lemma getLsbD_low (hcount : count < 32) (hi : i < 32) :
    ((1#32 <<< count) - 1#32).getLsbD i = decide (i < count) := by
  rw [one_shiftLeft_sub_one hcount, getLsbD_ofNat, Nat.testBit_two_pow_sub_one,
    decide_eq_true hi, Bool.true_and]

section
variable (base insert a b shift count offset bits : BitVec 32)

lemma foldBitFieldUExtract_iff :
    foldBitFieldUExtract base shift count = .ok (extractField base shift.toNat count.toNat) ↔
      foldBitFieldUExtract base shift count ≠ .error .logicError ∧ shift.toNat < 32 ∧
        count.toNat < 32 := by
  rw [foldBitFieldUExtract]
  split_ifs with hsum
  · simp
  rw [shiftBy, shiftBy]
  split_ifs with hshift hcount
  · refine iff_of_true (congrArg ok (eq_of_getLsbD_eq fun i hi => ?_))
      ⟨nofun, hshift, hcount⟩
    rw [getLsbD_extractField hi, getLsbD_and, getLsbD_ushiftRight,
      getLsbD_low hcount hi, Bool.and_comm]
  · exact iff_of_false nofun fun h => hcount h.2.2
  all_goals exact iff_of_false nofun fun h => hshift h.2.1

lemma foldBitFieldSExtract_iff :
    foldBitFieldSExtract base shift count = .ok (extractSigned base shift.toNat count.toNat) ↔
      foldBitFieldSExtract base shift count ≠ .error .logicError := by
  by_cases hfold : foldBitFieldSExtract base shift count = .error .logicError
  · simp [hfold]
  refine iff_of_true ?_ hfold
  rw [foldBitFieldSExtract] at hfold ⊢
  split_ifs at hfold ⊢ with hbad
  · exact absurd rfl hfold
  have hright : (32#32 - count).toNat = (2 ^ 32 - count.toNat + 32) % 2 ^ 32 := rfl
  have hlt := count.isLt
  rw [shiftBy, if_pos (by omega)]
  refine (if_pos (by omega)).trans (congrArg ok (eq_of_getLsbD_eq fun i hi => ?_))
  simp only [extractSigned, getLsbD_sshiftRight, getLsbD_signExtend,
    msb_eq_getLsbD_last, getLsbD_shiftLeft, getLsbD_extractLsb']
  grind

/-- No bit of the inserted value above the field is set where the base has none. -/
lemma foldBitFieldInsert_iff :
    foldBitFieldInsert base insert offset bits =
        .ok (insertField base insert offset.toNat bits.toNat) ↔
      foldBitFieldInsert base insert offset bits ≠ .error .logicError ∧
        ∀ i < 32, offset.toNat + bits.toNat ≤ i → insert.getLsbD (i - offset.toNat) = true →
          base.getLsbD i = true := by
  rw [foldBitFieldInsert]
  split_ifs with hbad
  · simp
  simp only [shiftBy, if_pos (not_le.1 (not_or.1 hbad).1), if_pos (not_le.1 (not_or.1 hbad).2)]
  have hmask : ~~~(~~~0#32 <<< bits.toNat) = (BitVec.allOnes bits.toNat).setWidth 32 := by
    refine eq_of_getLsbD_eq fun i hi => ?_
    simp only [getLsbD_not, getLsbD_shiftLeft, getLsbD_zero, getLsbD_setWidth, getLsbD_allOnes]
    grind
  have hbit {i : Nat} (hi : i < 32) :
      ((base &&& ~~~(~~~(~~~0#32 <<< bits.toNat) <<< offset.toNat)) |||
        insert <<< offset.toNat).getLsbD i =
      ((insertField base insert offset.toNat bits.toNat).getLsbD i ||
        decide (offset.toNat + bits.toNat ≤ i) && insert.getLsbD (i - offset.toNat)) := by
    rw [hmask, getLsbD_insertField hi]
    simp only [getLsbD_or, getLsbD_and, getLsbD_not,
      getLsbD_shiftLeft, getLsbD_setWidth, getLsbD_allOnes]
    grind
  refine ⟨fun h => ⟨nofun, fun i hi habove hset => ?_⟩,
    fun h => congrArg ok (eq_of_getLsbD_eq fun i hi => ?_)⟩
  · have hsame := congrArg (fun v : BitVec 32 => v.getLsbD i) (ok.inj h)
    simp only [hbit hi, getLsbD_insertField hi] at hsame
    grind
  · have hbase := h.2 i hi
    rw [hbit hi, getLsbD_insertField hi]
    grind

/-- The folded extraction shifts by 32 for a field of the whole word or an empty one at its end,
the folded insertion keeps the bits of the value above the field, and the folded arithmetic shift
takes any amount. -/
theorem fold_faithful_iff :
    (foldBitFieldUExtract base shift count = .ok (extractField base shift.toNat count.toNat) ↔
      foldBitFieldUExtract base shift count ≠ .error .logicError ∧ shift.toNat < 32 ∧
        count.toNat < 32) ∧
    (foldBitFieldSExtract base shift count = .ok (extractSigned base shift.toNat count.toNat) ↔
      foldBitFieldSExtract base shift count ≠ .error .logicError) ∧
    (foldBitFieldInsert base insert offset bits =
        .ok (insertField base insert offset.toNat bits.toNat) ↔
      foldBitFieldInsert base insert offset bits ≠ .error .logicError ∧
        ∀ i < 32, offset.toNat + bits.toNat ≤ i → insert.getLsbD (i - offset.toNat) = true →
          base.getLsbD i = true) ∧
    (foldShiftRightArithmetic32 a b = .ok (a.sshiftRight b.toNat) ↔ b.toNat < 32) := by
  refine ⟨foldBitFieldUExtract_iff .., foldBitFieldSExtract_iff .., foldBitFieldInsert_iff .., ?_⟩
  rw [foldShiftRightArithmetic32, shiftBy]
  split_ifs with hb <;> simp [hb]

theorem fold_unfaithful :
    foldBitFieldInsert 0 0xFF 0 4 = .ok 0xFF ∧ insertField 0 0xFF 0 4 = 0xF ∧
      foldBitFieldUExtract 5 0 32 = .error .undefinedShift ∧
      foldShiftRightArithmetic32 5 32 = .error .undefinedShift := by
  decide

end

/-! ## Lowering -/

/-- A low and a high word. -/
abbrev Words := BitVec 32 × BitVec 32

def unpack (packed : BitVec 64) : Words :=
  (packed.setWidth 32, (packed >>> 32).setWidth 32)

/-- The results of the operations outside their range; every operation has its own. -/
abbrev Undefined := Nat → BitVec 32

section
variable (undef : BitVec 32)

def shift32 (op : BitVec 32 → Nat → BitVec 32) (a n : BitVec 32) : BitVec 32 :=
  if n.toNat < 32 then op a n.toNat else undef

def bitFieldExtract (base offset count : BitVec 32) : BitVec 32 :=
  if offset.toNat + count.toNat ≤ 32 then extractField base offset.toNat count.toNat else undef

def bitFieldInsert (base insert offset count : BitVec 32) : BitVec 32 :=
  if offset.toNat + count.toNat ≤ 32 then insertField base insert offset.toNat count.toNat
  else undef

end

def bit32 (b : Bool) : BitVec 32 := if b then 1 else 0

def iAdd64To32 (a b : Words) : Words :=
  let carry := bit32 (2 ^ 32 ≤ a.1.toNat + b.1.toNat)
  (a.1 + b.1, a.2 + b.2 + carry)

def iSub64To32 (a b : Words) : Words :=
  let retLo := a.1 - b.1
  let underflowBit := bit32 (a.1.toNat < retLo.toNat)
  (retLo, a.2 - b.2 - underflowBit)

def iNeg64To32 (a : Words) : Words :=
  let lo := ~~~a.1
  let hi := ~~~a.2
  let carry := bit32 (2 ^ 32 ≤ lo.toNat + 1)
  (lo + 1, hi + carry)

/-- The results for long, short and no shifts. -/
def select (shift : BitVec 32) (long short zero : Words) : Words :=
  let invShift := shift - 32
  if shift = 0 then zero else if 0 ≤ invShift.toInt then long else short

variable (u : Undefined)

def shiftLeftLogical64To32 (a : Words) (shift : BitVec 32) : Words :=
  let shiftedLo := shift32 (u 0) (· <<< ·) a.1 shift
  let shiftedHi := shift32 (u 1) (· <<< ·) a.2 shift
  let longRetHi := shift32 (u 2) (· <<< ·) a.1 (shift - 32)
  let loExtract := bitFieldExtract (u 3) a.1 (32 - shift) shift
  select shift (0, longRetHi) (shiftedLo, shiftedHi ||| loExtract) a

def shiftRight64To32 (op : BitVec 32 → Nat → BitVec 32) (longRetHi : BitVec 32)
    (a : Words) (shift : BitVec 32) : Words :=
  let shiftedLo := shift32 (u 0) (· >>> ·) a.1 shift
  let shiftedHi := shift32 (u 1) op a.2 shift
  let longRetLo := shift32 (u 2) op a.2 (shift - 32)
  let shortHiExtract := bitFieldExtract (u 3) a.2 0 shift
  let shortRetLo := bitFieldInsert (u 4) shiftedLo shortHiExtract (32 - shift) shift
  select shift (longRetLo, longRetHi) (shortRetLo, shiftedHi) a

def shiftRightLogical64To32 (a : Words) (shift : BitVec 32) : Words :=
  shiftRight64To32 u (· >>> ·) 0 a shift

def shiftRightArithmetic64To32 (a : Words) (shift : BitVec 32) : Words :=
  shiftRight64To32 u .sshiftRight (shift32 (u 5) .sshiftRight a.2 31) a shift

lemma eq_unpack {lo hi : BitVec 32} {packed : BitVec 64}
    (hlo : ∀ i < 32, lo.getLsbD i = packed.getLsbD i)
    (hhi : ∀ i < 32, hi.getLsbD i = packed.getLsbD (32 + i)) : (lo, hi) = unpack packed := by
  refine Prod.ext (eq_of_getLsbD_eq fun i h => ?_) (eq_of_getLsbD_eq fun i h => ?_)
  · rw [hlo i h]
    simp [unpack, h]
  · rw [hhi i h]
    simp [unpack, h]

lemma iAdd64To32_unpack (a b : BitVec 64) : iAdd64To32 (unpack a) (unpack b) = unpack (a + b) := by
  refine Prod.ext (eq_of_toNat_eq ?_) (eq_of_toNat_eq ?_)
  · simp [iAdd64To32, unpack]
  · simp [iAdd64To32, unpack, bit32, Nat.shiftRight_eq_div_pow]
    split_ifs <;> simp <;> omega

lemma iSub64To32_unpack (a b : BitVec 64) : iSub64To32 (unpack a) (unpack b) = unpack (a - b) := by
  refine Prod.ext (eq_of_toNat_eq ?_) (eq_of_toNat_eq ?_)
  · simp [iSub64To32, unpack]
    omega
  · simp [iSub64To32, unpack, bit32, Nat.shiftRight_eq_div_pow]
    split_ifs <;> simp <;> omega

lemma iNeg64To32_unpack (a : BitVec 64) : iNeg64To32 (unpack a) = unpack (-a) := by
  refine Prod.ext (eq_of_toNat_eq ?_) (eq_of_toNat_eq ?_)
  · simp [iNeg64To32, unpack]
    omega
  · simp [iNeg64To32, unpack, bit32, Nat.shiftRight_eq_div_pow]
    split_ifs <;> simp <;> omega

section
variable {shift : BitVec 32} (hshift : shift.toNat < 64)
include hshift

lemma select_eq (long short zero : Words) :
    select shift long short zero =
      if shift.toNat = 0 then zero else if 32 ≤ shift.toNat then long else short := by
  have hzero : shift = 0 ↔ shift.toNat = 0 := by
    rw [← toNat_inj]
    rfl
  have hlong : 0 ≤ (shift - 32).toInt ↔ 32 ≤ shift.toNat := by
    rw [toInt_eq_toNat_cond, toNat_sub]
    have h32 : (32 : BitVec 32).toNat = 32 := rfl
    rw [h32]
    split_ifs <;> omega
  simp only [select, hzero, hlong]

omit hshift in
lemma invShift_toNat (hlong : 32 ≤ shift.toNat) : (shift - 32).toNat = shift.toNat - 32 := by
  have h32 : (32 : BitVec 32).toNat = 32 := rfl
  rw [toNat_sub, h32]
  omega

omit hshift in
lemma complement_toNat (hshort : shift.toNat < 32) : (32 - shift).toNat = 32 - shift.toNat := by
  have h32 : (32 : BitVec 32).toNat = 32 := rfl
  rw [toNat_sub, h32]
  omega

/-- No shift, a long and a short one; in each case the operations that are selected are defined. -/
lemma shiftLeftLogical64To32_unpack (a : BitVec 64) :
    shiftLeftLogical64To32 u (unpack a) shift = unpack (a <<< shift.toNat) := by
  rw [shiftLeftLogical64To32, select_eq hshift]
  split_ifs with hzero hlong
  · rw [hzero, shiftLeft_zero]
  · refine eq_unpack (fun i hi => ?_) fun i hi => ?_
    · simp
      grind
    · rw [shift32, invShift_toNat hlong, if_pos (by omega)]
      simp [unpack]
      grind
  · refine eq_unpack (fun i hi => ?_) fun i hi => ?_
    · simp [unpack, shift32]
      grind
    · rw [bitFieldExtract, complement_toNat (not_le.1 hlong), if_pos (by omega)]
      simp [unpack, shift32, getLsbD_extractField hi]
      grind

/-- Both right shifts differ in the bit that enters at the top. -/
lemma shiftRight64To32_unpack {op : BitVec 32 → Nat → BitVec 32} {longRetHi : BitVec 32}
    {a result : BitVec 64} {fill : Bool}
    (hop : ∀ n < 32, ∀ i < 32, (op (unpack a).2 n).getLsbD i =
      if i + n < 32 then a.getLsbD (32 + (i + n)) else fill)
    (hlongRetHi : ∀ i < 32, longRetHi.getLsbD i = fill)
    (hresult : ∀ i < 64, result.getLsbD i =
      if i + shift.toNat < 64 then a.getLsbD (i + shift.toNat) else fill) :
    shiftRight64To32 u op longRetHi (unpack a) shift = unpack result := by
  rw [shiftRight64To32, select_eq hshift]
  split_ifs with hzero hlong
  · have hsame : a = result := eq_of_getLsbD_eq fun i hi => by
      rw [hresult i hi, hzero, add_zero, if_pos hi]
    rw [hsame]
  · refine eq_unpack (fun i hi => ?_) fun i hi => ?_
    · rw [shift32, invShift_toNat hlong, if_pos (by omega), hop _ (by omega) i hi,
        hresult i (by omega)]
      exact if_congr (by omega) (congrArg _ (by omega)) rfl
    · rw [hlongRetHi i hi, hresult _ (by omega), if_neg (by omega)]
  · have hshort := not_le.1 hlong
    have hextract : bitFieldExtract (u 3) (unpack a).2 0 shift =
        extractField (unpack a).2 0 shift.toNat := if_pos (by simpa using hshort.le)
    refine eq_unpack (fun i hi => ?_) fun i hi => ?_
    · rw [hextract, bitFieldInsert, complement_toNat hshort, if_pos (by omega),
        getLsbD_insertField hi, shift32, if_pos hshort, getLsbD_ushiftRight,
        hresult i (by omega), if_pos (by omega : i + shift.toNat < 64)]
      split_ifs with hfield
      · have hpos : 32 + (i - (32 - shift.toNat)) = i + shift.toNat := by omega
        rw [getLsbD_extractField (by omega)]
        simp [unpack, hpos, (by omega : i - (32 - shift.toNat) < shift.toNat),
          (by omega : i - (32 - shift.toNat) < 32)]
      · simp [unpack, add_comm]
        omega
    · rw [shift32, if_pos hshort, hop _ hshort i hi, hresult _ (by omega)]
      exact if_congr (by omega) (congrArg _ (by omega)) rfl

lemma shiftRightLogical64To32_unpack (a : BitVec 64) :
    shiftRightLogical64To32 u (unpack a) shift = unpack (a >>> shift.toNat) := by
  refine shiftRight64To32_unpack u hshift (fun n hn i hi => ?_)
    (fun i hi => getLsbD_zero) fun i hi => ?_
  · simp [unpack]
    grind
  · simp
    grind

lemma shiftRightArithmetic64To32_unpack (a : BitVec 64) :
    shiftRightArithmetic64To32 u (unpack a) shift = unpack (a.sshiftRight shift.toNat) := by
  have hop : ∀ n < 32, ∀ i < 32, ((unpack a).2.sshiftRight n).getLsbD i =
      if i + n < 32 then a.getLsbD (32 + (i + n)) else a.msb := fun n hn i hi => by
    simp [unpack, getLsbD_sshiftRight, msb_eq_getLsbD_last]
    grind
  refine shiftRight64To32_unpack u hshift hop (fun i hi => ?_) fun i hi => ?_
  · exact (hop 31 (by decide) i hi).trans (by simp [msb_eq_getLsbD_last]; grind)
  · simp [getLsbD_sshiftRight]
    grind

theorem lower_exact (a b : BitVec 64) :
    iAdd64To32 (unpack a) (unpack b) = unpack (a + b) ∧
      iSub64To32 (unpack a) (unpack b) = unpack (a - b) ∧
      iNeg64To32 (unpack a) = unpack (-a) ∧
      shiftLeftLogical64To32 u (unpack a) shift = unpack (a <<< shift.toNat) ∧
      shiftRightLogical64To32 u (unpack a) shift = unpack (a >>> shift.toNat) ∧
      shiftRightArithmetic64To32 u (unpack a) shift = unpack (a.sshiftRight shift.toNat) :=
  ⟨iAdd64To32_unpack a b, iSub64To32_unpack a b, iNeg64To32_unpack a,
    shiftLeftLogical64To32_unpack u hshift a, shiftRightLogical64To32_unpack u hshift a,
    shiftRightArithmetic64To32_unpack u hshift a⟩

end

theorem lower_exact_forty :
    (40 : BitVec 32).toNat < 64 ∧
      shiftLeftLogical64To32 (fun _ => 7) (unpack 5) 40 = unpack (5 <<< (40 : BitVec 32).toNat) :=
  ⟨by decide, (lower_exact (fun _ => 7) (by decide) 5 0).2.2.2.1⟩

end Drippu.ShaderRecompiler
