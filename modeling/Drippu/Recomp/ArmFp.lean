import Drippu.Library.FloatRound

/-!
# Recomp - The floating-point operations of the architecture

What the architecture says of the operations that the emitter translates, for the modes
without trapped exceptions.  An operand is unpacked to its class, its sign and its exact
value; not-a-numbers, infinities and zeros have rules of their own; every other result is the
exact result of the operation, rounded once.

An operation returns the bits of its result and the cumulative exception bits that it sets in
FPSR.
-/

namespace Drippu.ArmFp

open Library

/-! ## Control and exceptions -/

/-- The fields of FPCR that the operations read. -/
structure Control where
  dn : Bool
  fz : Bool
  rounding : Rounding
  deriving DecidableEq, Repr

def decodeRounding (rmode : Nat) : Rounding :=
  match rmode with
  | 0 => .tieEven
  | 1 => .posInf
  | 2 => .negInf
  | _ => .zero

def control (fpcr : Nat) : Control where
  dn := fpcr.testBit 25
  fz := fpcr.testBit 24
  rounding := decodeRounding (fpcr / 2 ^ 22 % 4)

/-- Invalid operation. -/
def ioc : Nat := 1

/-- Division by zero. -/
def dzc : Nat := 2

/-- Overflow. -/
def ofc : Nat := 4

/-- Underflow. -/
def ufc : Nat := 8

/-- Inexact. -/
def ixc : Nat := 16

/-- Input denormal. -/
def idc : Nat := 128

/-- Exceptions that were raised before. -/
def raise (flags : Nat) (r : Nat × Nat) : Nat × Nat := (r.1, flags ||| r.2)

/-! ## Operands -/

inductive FPType where
  | nonzero
  | zero
  | infinity
  | qnan
  | snan
  deriving DecidableEq, Repr

section
variable (t : FloatFormat)

def fpType (x : Nat) : FPType :=
  if t.biased x = 0 then
    if t.fraction x = 0 then .zero else .nonzero
  else if t.biased x = 2 ^ t.w - 1 then
    if t.fraction x = 0 then .infinity else if x.testBit (t.f - 1) then .qnan else .snan
  else .nonzero

def fpZero (sign : Bool) : Nat := if sign then t.sign else 0

def fpInfinity (sign : Bool) : Nat := t.exp + fpZero t sign

def fpDefaultNaN : Nat := t.exp + t.quiet

end

/-- An operand of an operation over the field `K`. -/
structure Unpacked (K : Type*) where
  fptype : FPType
  sign : Bool
  value : K
  flags : Nat

namespace Unpacked

variable {K : Type*}

abbrev isZero (u : Unpacked K) : Prop := u.fptype = .zero

abbrev isInf (u : Unpacked K) : Prop := u.fptype = .infinity

end Unpacked

section
variable (K : Type*) [Field K]

/-- A subnormal operand is a zero when FZ is set. -/
def fpUnpack (t : FloatFormat) (c : Control) (x : Nat) : Unpacked K :=
  if c.fz ∧ t.biased x = 0 ∧ t.fraction x ≠ 0 then ⟨.zero, t.negative x, 0, idc⟩
  else ⟨fpType t x, t.negative x, t.value K x, 0⟩

end

/-! ## Not-a-numbers -/

section
variable (t : FloatFormat) (c : Control)

/-- A not-a-number is made quiet, or replaced by the default one. -/
def fpProcessNaN (fptype : FPType) (op : Nat) : Nat × Nat :=
  (if c.dn then fpDefaultNaN t else op ||| t.quiet, if fptype = .snan then ioc else 0)

/-- The first signalling operand, or else the first quiet one. -/
def fpProcessNaNs : List (FPType × Nat) → Option (Nat × Nat) := fun ops =>
  match ops.find? (fun p => p.1 = .snan) with
  | some p => some (fpProcessNaN t c p.1 p.2)
  | none => (ops.find? (fun p => p.1 = .qnan)).map fun p => fpProcessNaN t c p.1 p.2

end

/-! ## Rounding -/

section
variable {K : Type*} [Field K] [LinearOrder K] [IsStrictOrderedRing K] [FloorSemiring K]

/-- The exact number `x`, which is not zero, rounded once. -/
def fpRound (t : FloatFormat) (c : Control) (x : K) : Nat × Nat :=
  let negative := decide (x < 0)
  if c.fz ∧ Int.log 2 |x| < t.emin then (fpZero t negative, ufc)
  else
    let r := t.round c.rounding negative |x|
    (r.bits + fpZero t negative,
      (if r.overflow then ofc else 0) ||| (if r.underflow then ufc else 0) |||
        (if r.inexact then ixc else 0))

/-- The exact result `x` of an operation.  An exact zero of operands that do not agree
in sign is negative only when rounding towards minus infinity. -/
def fpRoundOrZero (t : FloatFormat) (c : Control) (x : K) : Nat × Nat :=
  if x = 0 then (fpZero t (c.rounding = .negInf), 0) else fpRound t c x

end

/-! ## Operations -/

section
variable (t : FloatFormat) (c : Control)

/-- The sum, or the difference, of two operands. -/
def fpAddSub (subtract : Bool) (op1 op2 : Nat) : Nat × Nat :=
  let u1 := fpUnpack ℚ t c op1
  let u2 := fpUnpack ℚ t c op2
  raise (u1.flags ||| u2.flags) <|
  match fpProcessNaNs t c [(u1.fptype, op1), (u2.fptype, op2)] with
  | some r => r
  | none =>
    let sign2 := u2.sign ^^ subtract
    let value2 := if subtract then -u2.value else u2.value
    if u1.isInf ∧ u2.isInf ∧ u1.sign ≠ sign2 then (fpDefaultNaN t, ioc)
    else if u1.isInf then (fpInfinity t u1.sign, 0)
    else if u2.isInf then (fpInfinity t sign2, 0)
    else if u1.isZero ∧ u2.isZero ∧ u1.sign = sign2 then (fpZero t u1.sign, 0)
    else fpRoundOrZero t c (u1.value + value2)

def fpDiv (op1 op2 : Nat) : Nat × Nat :=
  let u1 := fpUnpack ℚ t c op1
  let u2 := fpUnpack ℚ t c op2
  raise (u1.flags ||| u2.flags) <|
  match fpProcessNaNs t c [(u1.fptype, op1), (u2.fptype, op2)] with
  | some r => r
  | none =>
    let sign := u1.sign ^^ u2.sign
    if (u1.isInf ∧ u2.isInf) ∨ (u1.isZero ∧ u2.isZero) then (fpDefaultNaN t, ioc)
    else if u1.isInf ∨ u2.isZero then (fpInfinity t sign, if u1.isInf then 0 else dzc)
    else if u1.isZero ∨ u2.isInf then (fpZero t sign, 0)
    else fpRound t c (u1.value / u2.value)

/-- The addend and the product of two operands, rounded once. -/
def fpMulAdd (addend op1 op2 : Nat) : Nat × Nat :=
  let ua := fpUnpack ℚ t c addend
  let u1 := fpUnpack ℚ t c op1
  let u2 := fpUnpack ℚ t c op2
  raise (ua.flags ||| u1.flags ||| u2.flags) <|
  let bad := (u1.isInf ∧ u2.isZero) ∨ (u1.isZero ∧ u2.isInf)
  if ua.fptype = .qnan ∧ bad then (fpDefaultNaN t, ioc)
  else
  match fpProcessNaNs t c [(ua.fptype, addend), (u1.fptype, op1), (u2.fptype, op2)] with
  | some r => r
  | none =>
    let signP := u1.sign ^^ u2.sign
    let infP := u1.isInf ∨ u2.isInf
    let zeroP := u1.isZero ∨ u2.isZero
    if bad ∨ (ua.isInf ∧ infP ∧ ua.sign ≠ signP) then (fpDefaultNaN t, ioc)
    else if ua.isInf then (fpInfinity t ua.sign, 0)
    else if infP then (fpInfinity t signP, 0)
    else if ua.isZero ∧ zeroP ∧ ua.sign = signP then (fpZero t ua.sign, 0)
    else fpRoundOrZero t c (ua.value + u1.value * u2.value)

/-- The steps of the reciprocal, `2 - op1 * op2`, and of the reciprocal square root,
`(3 - op1 * op2) / 2`.  The first operand is negated before anything else. -/
def fpStepFused (half : Bool) (op1 op2 : Nat) : Nat × Nat :=
  let op1 := op1 ^^^ t.sign
  let u1 := fpUnpack ℚ t c op1
  let u2 := fpUnpack ℚ t c op2
  raise (u1.flags ||| u2.flags) <|
  match fpProcessNaNs t c [(u1.fptype, op1), (u2.fptype, op2)] with
  | some r => r
  | none =>
    if (u1.isInf ∧ u2.isZero) ∨ (u1.isZero ∧ u2.isInf) then
      (if half then (t.bias <<< t.f) + t.quiet else (t.bias + 1) <<< t.f, 0)
    else if u1.isInf ∨ u2.isInf then (fpInfinity t (u1.sign ^^ u2.sign), 0)
    else
      fpRoundOrZero t c (if half then (3 + u1.value * u2.value) / 2 else 2 + u1.value * u2.value)

end

/-! ## Conversions -/

/-- Whether the integer `n` below a number is left for the next one. -/
def roundUp (r : Rounding) (n : Int) (error : ℚ) : Bool :=
  match r with
  | .tieEven => decide (1 / 2 < error) || (decide (error = 1 / 2) && n % 2 == 1)
  | .posInf => decide (error ≠ 0)
  | .negInf => false
  | .zero => decide (error ≠ 0) && decide (n < 0)
  | .tieAway => decide (1 / 2 < error) || (decide (error = 1 / 2) && decide (0 ≤ n))

/-- The number `v` rounded to an integer. -/
def roundToInt (r : Rounding) (v : ℚ) : Int :=
  if roundUp r ⌊v⌋ (v - ⌊v⌋) then ⌊v⌋ + 1 else ⌊v⌋

/-- The least and the greatest integer of `n` bits. -/
def intMin (n : Nat) (unsigned : Bool) : Int := if unsigned then 0 else -2 ^ (n - 1)

def intMax (n : Nat) (unsigned : Bool) : Int := if unsigned then 2 ^ n - 1 else 2 ^ (n - 1) - 1

/-- An integer in `n` bits. -/
def toBits (n : Nat) (i : Int) : Nat := (i % 2 ^ n).toNat

/-- The number `v` as an integer of `n` bits: rounded first and saturated then. -/
def roundSat (r : Rounding) (n : Nat) (unsigned : Bool) (v : ℚ) : Nat × Nat :=
  let i := roundToInt r v
  if i < intMin n unsigned then (toBits n (intMin n unsigned), ioc)
  else if intMax n unsigned < i then (toBits n (intMax n unsigned), ioc)
  else (toBits n i, if v - ⌊v⌋ ≠ 0 then ixc else 0)

/-- An operand, scaled by `2^fbits`, as an integer of `n` bits.  Not-a-numbers give
zero. -/
def fpToFixed (t : FloatFormat) (c : Control) (r : Rounding) (fbits n : Nat) (unsigned : Bool)
    (op : Nat) : Nat × Nat :=
  let u := fpUnpack ℚ t c op
  raise u.flags <|
  match u.fptype with
  | .qnan | .snan => (0, ioc)
  | .infinity => (toBits n (if u.sign then intMin n unsigned else intMax n unsigned), ioc)
  | .zero | .nonzero => roundSat r n unsigned (u.value * 2 ^ fbits)

/-- The integer of `n` bits. -/
def intOperand (n : Nat) (unsigned : Bool) (op : Nat) : Int :=
  if unsigned then (op % 2 ^ n : Nat) else (BitVec.ofNat n op).toInt

/-- An integer of `n` bits, divided by `2^fbits`. -/
def fixedToFp (t : FloatFormat) (c : Control) (fbits n : Nat) (unsigned : Bool) (op : Nat) :
    Nat × Nat :=
  let v : ℚ := intOperand n unsigned op / 2 ^ fbits
  if v = 0 then (fpZero t false, 0) else fpRound t c v

end Drippu.ArmFp
