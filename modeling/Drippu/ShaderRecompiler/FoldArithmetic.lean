import Mathlib.Data.BitVec
import Mathlib.Tactic

/-!
# Shader recompiler - Folding of additions and subtractions

The constant propagation pass folds additions of immediates, the products that XMAD
instructions build from 16-bit halves, and differences of constant buffer reads.  A value is an
immediate or an instruction with its operands; the number of an instruction stands for its
address, so that equal values are the same instruction.  Instructions that the folding does not
look into have no operands here and any result.

Main results:

- Theorem `foldAdd_sound`: the additions.
- Theorem `foldISub32_sound_iff`: the differences, except that of a read and a sum.
-/

namespace Drippu.ShaderRecompiler

open BitVec Option

/-- `IR::Value`, for one width of its operations. -/
inductive Value (w : Nat) where
  | imm (n : BitVec w)
  | identity (id : Nat) (arg : Value w)
  | iAdd (id : Nat) (a b : Value w)
  | iMul (id : Nat) (a b : Value w)
  | shiftLeftLogical (id : Nat) (base shift : Value w)
  | bitFieldUExtract (id : Nat) (base offset count : Value w)
  | bitFieldInsert (id : Nat) (base insert offset count : Value w)
  | getCbuf (id : Nat) (binding offset : Value w)
  | other (id : Nat)
  deriving DecidableEq

/-- What the constant buffers hold and the other instructions return. -/
structure Machine (w : Nat) where
  cbuf : BitVec w → BitVec w → BitVec w
  other : Nat → BitVec w

variable {w : Nat}

/-- The lowest bits. -/
def lowMask (count : BitVec w) : BitVec w := (1#w <<< count) - 1#w

def Machine.eval (m : Machine w) : Value w → BitVec w
  | .imm n => n
  | .identity _ a => m.eval a
  | .iAdd _ a b => m.eval a + m.eval b
  | .iMul _ a b => m.eval a * m.eval b
  | .shiftLeftLogical _ base shift => m.eval base <<< m.eval shift
  | .bitFieldUExtract _ base offset count =>
    (m.eval base >>> m.eval offset) &&& lowMask (m.eval count)
  | .bitFieldInsert _ base insert offset count =>
    let mask := lowMask (m.eval count) <<< m.eval offset
    (m.eval base &&& ~~~mask) ||| ((m.eval insert <<< m.eval offset) &&& mask)
  | .getCbuf _ binding offset => m.cbuf (m.eval binding) (m.eval offset)
  | .other id => m.other id

namespace Value

/-- `Resolve`, which is also what `InstRecursive` leads to. -/
def resolve : Value w → Value w
  | identity _ arg => arg.resolve
  | v => v

variable (fresh : Nat) (v : Value w)

/-- `IsImmediate`, with the immediate. -/
def immediate : Option (BitVec w) :=
  match v.resolve with
  | imm n => some n
  | _ => none

/-- The operands of an instruction with the opcode `IAdd32` or `IAdd64`. -/
def asAdd : Option (Value w × Value w) :=
  match v.resolve with
  | iAdd _ a b => some (a, b)
  | _ => none

def asMul : Option (Value w × Value w) :=
  match v.resolve with
  | iMul _ a b => some (a, b)
  | _ => none

/-- The operand that is shifted to the left by 16. -/
def asShift : Option (Value w) :=
  match v.resolve with
  | shiftLeftLogical _ base shift => if shift = imm 16 then some base else none
  | _ => none

/-- The operand of which 16 bits are extracted. -/
def asExtract (bit : BitVec w) (v : Value w) : Option (Value w) :=
  match v.resolve with
  | bitFieldUExtract _ base offset count =>
    if offset = imm bit ∧ count = imm 16 then some base else none
  | _ => none

/-- The operands of an insertion into the upper half. -/
def asInsert : Option (Value w × Value w) :=
  match v.resolve with
  | bitFieldInsert _ base insert offset count =>
    if offset = imm 16 ∧ count = imm 16 then some (base, insert) else none
  | _ => none

def equalCbuf : Value w → Value w → Bool
  | getCbuf _ binding offset, getCbuf _ binding' offset' => binding = binding' ∧ offset = offset'
  | _, _ => false

/-- The comparison of `AreEqual`. -/
def areEqual (a b : Value w) : Bool := a.resolve = b.resolve || a.resolve.equalCbuf b.resolve

/-- `FoldCommutative` for additions: the replacement, or the operands it leaves. -/
def foldCommutative (lhs rhs : Value w) : Value w ⊕ Value w × Value w :=
  match lhs.immediate, rhs.immediate with
  | some a, some b => .inl (imm (a + b))
  | some a, none =>
    match rhs.asAdd with
    | some (x, y) =>
      match y.immediate with
      | some c => .inr (x, imm (a + c))
      | none => .inr (rhs, lhs)
    | none => .inr (rhs, lhs)
  | none, some b =>
    match lhs.asAdd with
    | some (x, y) =>
      match y.immediate with
      | some c => .inr (x, imm (b + c))
      | none => .inr (lhs, rhs)
    | none => .inr (lhs, rhs)
  | none, none => .inr (lhs, rhs)

/-- `FoldXmadMultiply`; `fresh` numbers the new instructions. -/
def foldXmadMultiply (lhs rhs : Value w) : Option (Value w) := do
  let lhsMul ← lhs.asShift
  let (lhsBfe, factorB) ← lhsMul.asMul
  let (rhsBfe, factorB') ← rhs.asMul
  guard (factorB.resolve = factorB'.resolve)
  let factorA ← lhsBfe.asExtract 16
  let factorA' ← rhsBfe.asExtract 0
  guard (factorA.resolve = factorA'.resolve)
  some (iMul fresh factorA factorB)

/-- The words of which an `IMul32` multiplies halves. -/
def asHalves (bit bit' : BitVec w) (v : Value w) : Option (Value w × Value w) := do
  let (bfe, bfe') ← v.asMul
  let x ← bfe.asExtract bit
  let y ← bfe'.asExtract bit'
  some (x, y)

/-- `FoldXmadMultiplyAdd`, with the numbers of its pattern. -/
def foldXmadMultiplyAdd (v25 v27 : Value w) : Option (Value w) := do
  let (v26, v18) ← v27.asAdd
  let v24 ← v25.asShift
  let (b22, v11) ← v24.asHalves 16 16
  let (v8, v10) ← v11.asInsert
  let (b6, a7) ← v8.asHalves 0 16
  let v11' ← v26.asShift
  let (v17, opC) ← v18.asAdd
  let (b15, a16) ← v17.asHalves 0 0
  let a10 ← v10.asExtract 0
  guard (v11'.resolve = v11.resolve)
  guard (a7.areEqual a16 ∧ a16.areEqual a10)
  guard (b22.areEqual b6 ∧ b6.areEqual b15)
  some (iAdd fresh (iMul (fresh + 1) a7.resolve b6.resolve) opC)

/-- `FoldAdd`: what the uses of the instruction get.  The products are folded in 32 bits only. -/
def foldAdd (pseudoOperation : Bool) (fresh id : Nat) (lhs rhs : Value w) : Value w :=
  if pseudoOperation then iAdd id lhs rhs
  else
    match foldCommutative lhs rhs with
    | .inl v => v
    | .inr (lhs, rhs) =>
      if rhs.immediate = some 0 then lhs
      else if w = 32 then
        match foldXmadMultiply fresh lhs rhs with
        | some v => v
        | none => (foldXmadMultiplyAdd fresh lhs rhs).getD (iAdd id lhs rhs)
      else iAdd id lhs rhs

/-- The end of `FoldISub32`: what a sum adds to a constant buffer read. -/
def cancelCbuf (opA instCbuf : Value w) : Option (Value w) := do
  let (addOpA, addOpB) ← opA.asAdd
  let (addOpA, addOpB) := if addOpB.immediate.isSome then (addOpB, addOpA) else (addOpA, addOpB)
  guard (addOpB.immediate = none ∧ addOpB.resolve.equalCbuf instCbuf.resolve)
  some addOpA

/-- `FoldISub32`: the replacement, if there is one.  The operands are swapped to have the sum
first. -/
def foldISub32 (pseudoOperation : Bool) (lhs rhs : Value w) : Option (Value w) :=
  match lhs.immediate, rhs.immediate with
  | some a, some b => if pseudoOperation then none else some (imm (a - b))
  | none, none =>
    if lhs.resolve.equalCbuf rhs.resolve then some (imm 0)
    else if rhs.asAdd.isSome then cancelCbuf rhs lhs
    else cancelCbuf lhs rhs
  | _, _ => none

end Value

/-! ## Values -/

namespace Machine

open Value

variable (m : Machine w) {v u x y : Value w}

lemma eval_resolve (v : Value w) : m.eval v.resolve = m.eval v := by
  induction v with
  | identity id arg ih => exact ih
  | _ => rfl

variable {m}

lemma eval_congr (h : v.resolve = u.resolve) : m.eval v = m.eval u := by
  rw [← m.eval_resolve v, h, m.eval_resolve]

lemma eval_immediate {n : BitVec w} (h : v.immediate = some n) : m.eval v = n := by
  rw [← m.eval_resolve]
  -- No other kind of value resolves to an immediate; the same argument opens the operands below.
  cases hv : v.resolve <;> rw [immediate, hv] at h <;> cases h
  rfl

lemma eval_asAdd (h : v.asAdd = some (x, y)) : m.eval v = m.eval x + m.eval y := by
  rw [← m.eval_resolve]
  cases hv : v.resolve <;> rw [asAdd, hv] at h <;> cases h
  rfl

lemma eval_asMul (h : v.asMul = some (x, y)) : m.eval v = m.eval x * m.eval y := by
  rw [← m.eval_resolve]
  cases hv : v.resolve <;> rw [asMul, hv] at h <;> cases h
  rfl

lemma eval_equalCbuf (h : v.equalCbuf u = true) : m.eval v = m.eval u := by
  unfold equalCbuf at h
  split at h
  · obtain ⟨rfl, rfl⟩ := of_decide_eq_true h
    rfl
  · cases h

lemma eval_areEqual (h : v.areEqual u = true) : m.eval v = m.eval u := by
  simp only [areEqual, Bool.or_eq_true, decide_eq_true_eq] at h
  rw [← m.eval_resolve v, ← m.eval_resolve u]
  rcases h with h | h
  · rw [h]
  · exact eval_equalCbuf h

/-- The operands that are left have the same sum, and so has the replacement. -/
lemma eval_foldCommutative (lhs rhs : Value w) :
    (foldCommutative lhs rhs).elim m.eval (fun p => m.eval p.1 + m.eval p.2) =
      m.eval lhs + m.eval rhs := by
  unfold foldCommutative
  split
  · rename_i ha hb
    rw [eval_immediate ha, eval_immediate hb]
    rfl
  · rename_i ha hb
    split
    · rename_i hadd
      split
      · rename_i hc
        rw [eval_immediate ha, eval_asAdd hadd, eval_immediate hc]
        exact add_left_comm _ _ _
      · exact BitVec.add_comm _ _
    · exact BitVec.add_comm _ _
  · rename_i ha hb
    split
    · rename_i hadd
      split
      · rename_i hc
        rw [eval_immediate hb, eval_asAdd hadd, eval_immediate hc, add_assoc]
        exact congrArg (m.eval _ + ·) (add_comm _ _)
      · rfl
    · rfl
  · rfl

end Machine

/-! ## Products from halves -/

section

open Machine Value

variable {m : Machine 32} {v x y lhs rhs : Value 32} {fresh : Nat}

/-- The half of a word that starts at a bit. -/
def half (n x : BitVec 32) : BitVec 32 := (x >>> n) &&& 0xffff#32

/-- `BitFieldInsert` of the second word into the upper half of the first. -/
def withUpper (x y : BitVec 32) : BitVec 32 :=
  (x &&& ~~~(0xffff#32 <<< 16)) ||| ((y <<< 16) &&& (0xffff#32 <<< 16))

lemma eval_asShift (h : v.asShift = some x) : m.eval v = m.eval x <<< 16 := by
  rw [← m.eval_resolve]
  cases hv : v.resolve <;> rw [asShift, hv] at h <;> try cases h
  obtain ⟨rfl, ⟨⟩⟩ := ite_none_right_eq_some.1 h
  rfl

lemma lowMask_sixteen : lowMask 16#32 = 0xffff#32 := by
  decide

lemma eval_asExtract {n : BitVec 32} (h : v.asExtract n = some x) :
    m.eval v = half n (m.eval x) := by
  rw [← m.eval_resolve]
  cases hv : v.resolve <;> rw [asExtract, hv] at h <;> try cases h
  obtain ⟨⟨rfl, rfl⟩, ⟨⟩⟩ := ite_none_right_eq_some.1 h
  rw [half, ← lowMask_sixteen]
  rfl

lemma eval_asInsert (h : v.asInsert = some (x, y)) :
    m.eval v = withUpper (m.eval x) (m.eval y) := by
  rw [← m.eval_resolve]
  cases hv : v.resolve <;> rw [asInsert, hv] at h <;> try cases h
  obtain ⟨⟨rfl, rfl⟩, ⟨⟩⟩ := ite_none_right_eq_some.1 h
  rw [withUpper, ← lowMask_sixteen]
  rfl

lemma getLsbD_mask (i : Nat) : (0xffff#32).getLsbD i = decide (i < 16) := by
  have h : (65535).testBit i = decide (i < 16) := Nat.testBit_two_pow_sub_one 16 i
  simp only [getLsbD_ofNat, h]
  grind

lemma half_withUpper (x y : BitVec 32) : half 16 (withUpper x y) = half 0 y := by
  apply eq_of_getLsbD_eq
  intro i hi
  simp only [half, withUpper, getLsbD_and, getLsbD_or, ushiftRight_eq',
    getLsbD_ushiftRight, getLsbD_not, getLsbD_shiftLeft, getLsbD_mask]
  grind

lemma withUpper_shiftLeft (x y : BitVec 32) : withUpper x y <<< 16 = x <<< 16 := by
  apply eq_of_getLsbD_eq
  intro i hi
  simp only [withUpper, getLsbD_and, getLsbD_or, getLsbD_not, getLsbD_shiftLeft, getLsbD_mask]
  grind

lemma half_half (x : BitVec 32) : half 0 (half 0 x) = half 0 x := by
  simp [half, BitVec.and_assoc]

lemma shiftLeft_sixteen (x : BitVec 32) : x <<< 16 = x * 65536#32 :=
  shiftLeft_eq_mul_twoPow x 16

lemma toNat_half (n x : BitVec 32) : (half n x).toNat = x.toNat / 2 ^ n.toNat % 2 ^ 16 := by
  rw [half, toNat_and, ushiftRight_eq', toNat_ushiftRight, Nat.shiftRight_eq_div_pow]
  exact Nat.and_two_pow_sub_one_eq_mod _ 16

lemma eq_halves (x : BitVec 32) : x = half 16 x * 65536#32 + half 0 x := by
  apply eq_of_toNat_eq
  rw [toNat_add, toNat_mul, toNat_half, toNat_half, toNat_ofNat]
  change x.toNat = (x.toNat / 2 ^ 16 % 2 ^ 16 * _ % _ + x.toNat / 2 ^ 0 % 2 ^ 16) % 2 ^ 32
  omega

lemma eval_asHalves {n n' : BitVec 32} (h : v.asHalves n n' = some (x, y)) :
    m.eval v = half n (m.eval x) * half n' (m.eval y) := by
  simp only [asHalves, bind_eq_bind, bind_eq_some_iff] at h
  obtain ⟨⟨_, _⟩, hmul, _, hx, _, hy, h⟩ := h
  cases h
  rw [eval_asMul hmul, eval_asExtract hx, eval_asExtract hy]

lemma eval_foldXmadMultiply (h : foldXmadMultiply fresh lhs rhs = some v) :
    m.eval v = m.eval lhs + m.eval rhs := by
  simp only [foldXmadMultiply, bind_eq_bind, bind_eq_some_iff,
    guard_eq_some'] at h
  obtain ⟨_, hshift, ⟨_, b⟩, hmul, ⟨_, _⟩, hmul', _, hb, a, hhi, _, hlo, _, ha, hv⟩ := h
  cases hv
  rw [eval_asShift hshift, eval_asMul hmul, eval_asMul hmul', eval_asExtract hhi,
    eval_asExtract hlo, ← eval_congr hb, ← eval_congr ha, shiftLeft_sixteen]
  simp only [eval]
  linear_combination m.eval b * eq_halves (m.eval a)

/-- The product of the upper halves is a multiple of `2 ^ 32`. -/
lemma eval_foldXmadMultiplyAdd (h : foldXmadMultiplyAdd fresh lhs rhs = some v) :
    m.eval v = m.eval lhs + m.eval rhs := by
  simp only [foldXmadMultiplyAdd, bind_eq_bind, bind_eq_some_iff,
    guard_eq_some'] at h
  obtain ⟨⟨_, _⟩, h27, _, h25, ⟨_, v11⟩, h24, ⟨_, _⟩, h11, ⟨b, a⟩, h8, _, h26, ⟨_, c⟩, h18,
    ⟨_, _⟩, h17, _, h10, _, h11', _, ⟨ha, ha'⟩, _, ⟨hb, hb'⟩, hv⟩ := h
  cases hv
  have hzero : 65536#32 * 65536#32 = 0 := by decide
  rw [eval_asAdd h27, eval_asShift h25, eval_asShift h26, eval_asAdd h18, eval_asHalves h24,
    eval_asHalves h17, eval_congr h11', eval_asInsert h11, half_withUpper, withUpper_shiftLeft,
    eval_asHalves h8, eval_asExtract h10, half_half, ← eval_areEqual ha', ← eval_areEqual ha,
    eval_areEqual hb, ← eval_areEqual hb', shiftLeft_sixteen, shiftLeft_sixteen]
  simp only [eval, eval_resolve]
  linear_combination m.eval b * eq_halves (m.eval a) +
    (half 16 (m.eval a) * 65536#32 + half 0 (m.eval a)) * eq_halves (m.eval b) +
    half 16 (m.eval a) * half 16 (m.eval b) * hzero

end

/-! ## The folding -/

section

open Machine Value

variable (m : Machine w)

/-- The value that takes the place of an addition is the sum. -/
theorem foldAdd_sound (pseudoOperation : Bool) (fresh id : Nat) (lhs rhs : Value w) :
    m.eval (foldAdd pseudoOperation fresh id lhs rhs) = m.eval lhs + m.eval rhs := by
  have hcomm := eval_foldCommutative (m := m) lhs rhs
  unfold foldAdd
  split
  · rfl
  split
  · rename_i hfold
    rw [hfold] at hcomm
    exact hcomm
  rename_i lhs' rhs' hfold
  rw [hfold] at hcomm
  rw [← hcomm]
  change _ = m.eval lhs' + m.eval rhs'
  split
  · rename_i hz
    rw [eval_immediate hz]
    exact (add_zero _).symm
  split
  · rename_i hw
    subst hw
    split
    · rename_i hv
      exact eval_foldXmadMultiply hv
    · cases hv : foldXmadMultiplyAdd fresh lhs' rhs' with
      | none => rfl
      | some v => exact eval_foldXmadMultiplyAdd hv
  · rfl

variable {m}

lemma eval_cancelCbuf {opA instCbuf v : Value w} (h : cancelCbuf opA instCbuf = some v) :
    m.eval opA = m.eval v + m.eval instCbuf := by
  simp only [cancelCbuf, bind_eq_bind, bind_eq_some_iff, guard_eq_some'] at h
  obtain ⟨⟨x, y⟩, hadd, _, ⟨_, hcbuf⟩, hv⟩ := h
  cases hv
  have hread := eval_equalCbuf (m := m) hcbuf
  rw [eval_resolve, eval_resolve] at hread
  rw [eval_asAdd hadd, ← hread]
  split
  · exact add_comm _ _
  · rfl

lemma asAdd_eq_none {n : BitVec w} {v : Value w} (h : v.immediate = some n) : v.asAdd = none := by
  cases hv : v.resolve <;> rw [immediate, hv] at h <;> cases h
  rw [asAdd, hv]

/-- The value that takes the place of a difference is the difference, except when a sum is
subtracted from the constant buffer read that it contains: then its sign is the other one. -/
theorem foldISub32_sound_iff {pseudoOperation : Bool} {lhs rhs v : Value w}
    (h : foldISub32 pseudoOperation lhs rhs = some v) :
    m.eval v = m.eval lhs - m.eval rhs ↔ (rhs.asAdd.isSome → m.eval v + m.eval v = 0) := by
  unfold foldISub32 at h
  split at h
  · rename_i ha hb
    split at h
    · cases h
    cases h
    rw [eval_immediate ha, eval_immediate hb, asAdd_eq_none hb]
    simp [eval]
  · split at h
    · rename_i hread
      cases h
      have heval := eval_equalCbuf (m := m) hread
      rw [eval_resolve, eval_resolve] at heval
      simp [eval, heval]
    split at h
    · rename_i hsum
      have heval := eval_cancelCbuf (m := m) h
      rw [heval, sub_add_cancel_right, eq_neg_iff_add_eq_zero]
      simp [hsum]
    · rename_i hsum
      rw [eval_cancelCbuf h, add_sub_cancel_right]
      simp [hsum]
  · cases h

/-- A sum from which its constant buffer read is subtracted. -/
theorem foldISub32_sum_minus_read :
    let m : Machine 32 := ⟨fun _ _ => 5, fun _ => 1⟩
    let read : Value 32 := .getCbuf 0 (.imm 0) (.imm 0)
    m.eval (.other 2) = m.eval (.iAdd 1 (.other 2) read) - m.eval read := by
  have h : foldISub32 false (Value.iAdd 1 (.other 2) (.getCbuf 0 (.imm 0) (.imm 0)))
      (.getCbuf 0 (.imm 0) (.imm 0)) = some (.other 2 : Value 32) := by decide
  exact (foldISub32_sound_iff h).2 (by decide)

/-- The sum, subtracted from the read: the replacement is 1 and the difference is -1. -/
theorem foldISub32_read_minus_sum :
    let m : Machine 32 := ⟨fun _ _ => 5, fun _ => 1⟩
    let read : Value 32 := .getCbuf 0 (.imm 0) (.imm 0)
    let sum : Value 32 := .iAdd 1 (.other 2) read
    foldISub32 false read sum = some (.other 2) ∧
      m.eval (.other 2) = 1 ∧ m.eval read - m.eval sum = -1 := by
  decide

end
end Drippu.ShaderRecompiler
