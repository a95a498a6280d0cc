import Drippu.Library.AddWithCarry

/-!
# Recomp - Translated additions and subtractions

The C code that the recompiler emits for the add and subtract instructions computes on
64-bit temporaries.  The 32-bit forms mask the result, and the flags are taken from the
operands cast down to the width of the operation.  The first part is the emitted code, the
second part is what the architecture says: every form adds two operands of the operation
width and a carry.

The context is the part of the guest context that these instructions use.  The flags are
bytes in the source and every store to them is a zero or a one.

Main results:

- Theorem `translate_of_execute`: the code emitted for an instruction does what the
  instruction does.
-/

namespace Drippu.RecompTranslate

open Library BitVec Function

/-- The general registers and the flags.  Register 31 holds the stack pointer. -/
structure Context where
  x : BitVec 32 → BitVec 64
  flags : Nzcv

/-! ## Fields of an instruction -/

def bit (i : BitVec 32) (k : Nat) : Bool :=
  ((i >>> k) &&& 1#32) == 1#32

def rd (i : BitVec 32) : BitVec 32 := i &&& 31
def rn (i : BitVec 32) : BitVec 32 := (i >>> 5) &&& 31
def rm (i : BitVec 32) : BitVec 32 := (i >>> 16) &&& 31
def imm12 (i : BitVec 32) : BitVec 32 := (i >>> 10) &&& 0xFFF
def imm6 (i : BitVec 32) : Nat := ((i >>> 10) &&& 0x3F).toNat
def imm3 (i : BitVec 32) : Nat := ((i >>> 10) &&& 7).toNat
def shiftType (i : BitVec 32) : Nat := ((i >>> 22) &&& 3).toNat
def option (i : BitVec 32) : Nat := ((i >>> 13) &&& 7).toNat
def condition (i : BitVec 32) : Nat := ((i >>> 12) &&& 15).toNat

/-! ## The emitted code -/

section

def xz (c : Context) (r : BitVec 32) : BitVec 64 :=
  if r = 31#32 then 0#64 else c.x r

def wz (c : Context) (r : BitVec 32) : BitVec 32 :=
  if r = 31#32 then 0#32 else (c.x r).setWidth 32

/-- Register 31 as the stack pointer. -/
def xsp (c : Context) (r : BitVec 32) : BitVec 64 :=
  c.x r

def cond (f : Nzcv) : Nat → Bool
  | 0 => f.z
  | 1 => !f.z
  | 2 => f.c
  | 3 => !f.c
  | 4 => f.n
  | 5 => !f.n
  | 6 => f.v
  | 7 => !f.v
  | 8 => f.c && !f.z
  | 9 => !(f.c && !f.z)
  | 10 => f.n == f.v
  | 11 => f.n != f.v
  | 12 => (f.n == f.v) && !f.z
  | 13 => !((f.n == f.v) && !f.z)
  | _ => true

/-- The flag code at one width. -/
def setFlagsAt {w : Nat} (isSub : Bool) (fa fb fr : BitVec w) : Nzcv :=
  let top := w - 1
  { n := ((fr >>> top) &&& 1#w) != 0#w
    z := fr == 0#w
    c := if isSub then decide (fb ≤ fa) else decide (fr < fa)
    v :=
      if isSub then ((((fa ^^^ fb) &&& (fa ^^^ fr)) >>> top) &&& 1#w) != 0#w
      else (((~~~(fa ^^^ fb) &&& (fa ^^^ fr)) >>> top) &&& 1#w) != 0#w }

def setFlags (isSub : Bool) (a b r : BitVec 64) (is64 : Bool) : Nzcv :=
  if is64 then setFlagsAt isSub a b r
  else setFlagsAt isSub (a.setWidth 32) (b.setWidth 32) (r.setWidth 32)

/-- The 32-bit forms mask the result. -/
def narrow (sf : Bool) (r : BitVec 64) : BitVec 64 :=
  if sf then r else r &&& 0xFFFFFFFF#64

/-- The block that the immediate and the two register forms share: they differ in the
operands and in when the result is stored. -/
def addSub (sf op s : Bool) (a b : BitVec 64) (rd : BitVec 32) (stores : Bool) (c : Context) :
    Context :=
  let r := narrow sf (if op then a - b else a + b)
  { x := if stores then update c.x rd r else c.x
    flags := if s then setFlags op a b r sf else c.flags }

def addSubImmediate (i : BitVec 32) (c : Context) : Context :=
  let imm := if bit i 22 then (imm12 i).setWidth 64 <<< 12 else (imm12 i).setWidth 64
  addSub (bit i 31) (bit i 30) (bit i 29) (c.x (rn i)) imm (rd i) (!(rd i == 31#32 && bit i 29)) c

/-- The shifted register operand of the logical and of the add and subtract forms. -/
def shiftedOperand (v : BitVec 64) (shift imm6 : Nat) (sf : Bool) : BitVec 64 :=
  if sf then
    match shift with
    | 0 => v <<< imm6
    | 1 => v >>> imm6
    | 2 => v.sshiftRight imm6
    | _ => if imm6 = 0 then v else (v >>> imm6) ||| (v <<< (64 - imm6))
  else
    let w := v.setWidth 32
    match shift with
    | 0 => (w <<< imm6).setWidth 64
    | 1 => (w >>> imm6).setWidth 64
    | 2 => (w.sshiftRight imm6).setWidth 64
    | _ => if imm6 = 0 then w.setWidth 64 else ((w >>> imm6) ||| (w <<< (32 - imm6))).setWidth 64

/-- The encodings with ROR or a wide shift of a 32-bit operand are not translated. -/
def addSubShifted (i : BitVec 32) (c : Context) : Option Context :=
  if shiftType i = 3 ∨ (bit i 31 = false ∧ 32 ≤ imm6 i) then none
  else
    some (addSub (bit i 31) (bit i 30) (bit i 29) (xz c (rn i))
      (shiftedOperand (xz c (rm i)) (shiftType i) (imm6 i) (bit i 31)) (rd i) (rd i != 31#32) c)

/-- Conditional compare of a register or a five-bit immediate. -/
def condCompare (i : BitVec 32) (c : Context) : Context :=
  let sf := bit i 31
  let op := bit i 30
  let b := if bit i 11 then (rm i).setWidth 64 else xz c (rm i)
  if cond c.flags (condition i) then
    let a := xz c (rn i)
    { c with flags := setFlags op a b (narrow sf (if op then a - b else a + b)) sf }
  else { c with flags := ⟨bit i 3, bit i 2, bit i 1, bit i 0⟩ }

/-- The extension of the extended register form. -/
def extended (v : BitVec 64) : Nat → BitVec 64
  | 0 => (v.setWidth 8).setWidth 64
  | 1 => (v.setWidth 16).setWidth 64
  | 2 => (v.setWidth 32).setWidth 64
  | 3 => v
  | 4 => (v.setWidth 8).signExtend 64
  | 5 => (v.setWidth 16).signExtend 64
  | 6 => (v.setWidth 32).signExtend 64
  | _ => v

def addSubExtended (i : BitVec 32) (c : Context) : Option Context :=
  if imm3 i ≤ 4 then
    let ext := extended (xz c (rm i)) (option i)
    some (addSub (bit i 31) (bit i 30) (bit i 29) (xsp c (rn i))
      (if imm3 i ≠ 0 then ext <<< imm3 i else ext) (rd i) (rd i != 31#32 || !bit i 29) c)
  else none

/-- ADC and SBC, which have flag code of their own. -/
def addSubCarry (i : BitVec 32) (c : Context) : Context :=
  let sf := bit i 31
  let sign := if sf then 0x8000000000000000#64 else 0x80000000#64
  let a := if sf then xz c (rn i) else (wz c (rn i)).setWidth 64
  let m := if sf then xz c (rm i) else (wz c (rm i)).setWidth 64
  let ci := BitVec.ofNat 64 c.flags.c.toNat
  let b := if bit i 30 then (if sf then ~~~m else ~~~m &&& 0xFFFFFFFF#64) else m
  let r := narrow sf (a + b + ci)
  { x := if rd i ≠ 31#32 then update c.x (rd i) r else c.x
    flags :=
      if bit i 29 then
        { n := (r &&& sign) != 0#64
          z := r == 0#64
          c :=
            if sf then decide (r < a) || (ci != 0#64 && r == a)
            else decide (0xFFFFFFFF#64 < a + b + ci)
          v := ((~~~(a ^^^ b) &&& (a ^^^ r)) &&& sign) != 0#64 }
      else c.flags }

/-- The code emitted for the add and subtract forms, in the order in which they are
decoded. -/
def translate (i : BitVec 32) (c : Context) : Option Context :=
  if (i &&& 0x1F000000#32) = 0x11000000#32 then some (addSubImmediate i c)
  else if (i &&& 0x1F200000#32) = 0x0B000000#32 then addSubShifted i c
  else if (i &&& 0x1FE00000#32) = 0x1A400000#32 ∧ bit i 29 = true ∧ bit i 10 = false ∧
      bit i 4 = false then
    some (condCompare i c)
  else if (i &&& 0x1F200000#32) = 0x0B200000#32 then addSubExtended i c
  else if (i &&& 0x1FE0FC00#32) = 0x1A000000#32 then some (addSubCarry i c)
  else none

end

/-! ## The architecture -/

namespace Arm

variable (N : Nat)

/-- Register 31 reads as zero. -/
def reg (c : Context) (r : BitVec 32) : BitVec N :=
  if r = 31#32 then 0#N else (c.x r).setWidth N

/-- Register 31 is the stack pointer. -/
def regOrSP (c : Context) (r : BitVec 32) : BitVec N :=
  (c.x r).setWidth N

def shiftReg (value : BitVec N) (shift amount : Nat) : BitVec N :=
  match shift with
  | 0 => value <<< amount
  | 1 => value >>> amount
  | _ => value.sshiftRight amount

/-- The low bits of the value, shifted left and then extended from their new top. -/
def extend (value : BitVec N) (signed : Bool) (len shift : Nat) : BitVec N :=
  let bits := min len (N - shift)
  let shifted : BitVec (bits + shift) := value.setWidth bits ++ BitVec.ofNat shift 0
  if signed then shifted.signExtend N else shifted.setWidth N

/-- The eight extensions: the second bit pair is the width, the top bit the signedness. -/
def extendReg (value : BitVec N) (option shift : Nat) : BitVec N :=
  extend N value (decide (4 ≤ option)) (8 * 2 ^ (option % 4)) shift

/-- The operands of a subtraction are added with the second one inverted and a carry. -/
def addOrSub (sub : Bool) (operand1 operand2 : BitVec N) : BitVec N × Nzcv :=
  if sub then addWithCarry operand1 (~~~operand2) true
  else addWithCarry operand1 operand2 false

/-- The result goes to a general register; register 31 is the stack pointer when the form
allows it, and is dropped otherwise. -/
def store (d : BitVec 32) (isSP : Bool) (result : BitVec N) (c : Context) : BitVec 32 → BitVec 64 :=
  if d = 31#32 ∧ isSP = false then c.x else update c.x d (result.setWidth 64)

def finish (d : BitVec 32) (isSP setflags : Bool) (outcome : BitVec N × Nzcv) (c : Context) :
    Context where
  x := store N d isSP outcome.1 c
  flags := if setflags then outcome.2 else c.flags

def conditionHolds (f : Nzcv) (cond : Nat) : Bool :=
  let result :=
    match cond / 2 with
    | 0 => f.z
    | 1 => f.c
    | 2 => f.n
    | 3 => f.v
    | 4 => f.c && !f.z
    | 5 => f.n == f.v
    | 6 => (f.n == f.v) && !f.z
    | _ => true
  if cond % 2 = 1 ∧ cond ≠ 15 then !result else result

/-- The allocated add and subtract instructions on operands of one width. -/
def executeAt (i : BitVec 32) (c : Context) : Option Context :=
  let setflags := bit i 29
  if (i &&& 0x1F800000#32) = 0x11000000#32 then -- immediate
    let imm := if bit i 22 then (imm12 i).setWidth N <<< 12 else (imm12 i).setWidth N
    some (finish N (rd i) (!setflags) setflags (addOrSub N (bit i 30) (regOrSP N c (rn i)) imm) c)
  else if (i &&& 0x1F200000#32) = 0x0B000000#32 then -- shifted register
    if shiftType i = 3 ∨ N ≤ imm6 i then none
    else
      let operand2 := shiftReg N (reg N c (rm i)) (shiftType i) (imm6 i)
      some (finish N (rd i) false setflags (addOrSub N (bit i 30) (reg N c (rn i)) operand2) c)
  else if (i &&& 0x1FE00000#32) = 0x0B200000#32 then -- extended register
    if 4 < imm3 i then none
    else
      let operand2 := extendReg N (reg N c (rm i)) (option i) (imm3 i)
      some (finish N (rd i) (!setflags) setflags
        (addOrSub N (bit i 30) (regOrSP N c (rn i)) operand2) c)
  else if (i &&& 0x3FE00410#32) = 0x3A400000#32 then -- conditional compare
    let operand2 := if bit i 11 then (rm i).setWidth N else reg N c (rm i)
    if conditionHolds c.flags (condition i) then
      some { c with flags := (addOrSub N (bit i 30) (reg N c (rn i)) operand2).2 }
    else some { c with flags := ⟨bit i 3, bit i 2, bit i 1, bit i 0⟩ }
  else if (i &&& 0x1FE0FC00#32) = 0x1A000000#32 then -- with carry
    let operand2 := if bit i 30 then ~~~reg N c (rm i) else reg N c (rm i)
    some (finish N (rd i) false setflags (addWithCarry (reg N c (rn i)) operand2 c.flags.c) c)
  else none

/-- The width is the top bit of the instruction. -/
def execute (i : BitVec 32) (c : Context) : Option Context :=
  if bit i 31 then executeAt 64 i c else executeAt 32 i c

end Arm

/-! ## Masks and widths -/

variable {i : BitVec 32}

lemma and_eq_iff_of_and {mask value : BitVec 32} (h : (i &&& mask) = value)
    (mask' value' : BitVec 32) (hsub : mask &&& mask' = mask') :
    (i &&& mask') = value' ↔ value &&& mask' = value' := by
  rw [← h, BitVec.and_assoc, hsub]

/-- An instruction of one class is not of another one. -/
lemma ne_of_and {mask value mask' value' : BitVec 32} (h : (i &&& mask) = value)
    (hsub : mask &&& mask' = mask') (hne : value &&& mask' ≠ value') : (i &&& mask') ≠ value' :=
  fun h' => hne ((and_eq_iff_of_and h _ _ hsub).1 h')

variable {N shift w : Nat}

lemma shiftRight_and_one (hw : 0 < w) (v : BitVec w) :
    (((v >>> (w - 1)) &&& 1#w) != 0#w) = v.msb := by
  have hbit : (v >>> (w - 1)).getLsbD 0 = v.msb := by
    rw [getLsbD_ushiftRight, add_zero, msb_eq_getLsbD_last]
  rw [and_one_eq_setWidth_ofBool_getLsbD, hbit]
  cases v.msb
  · simp
  · rw [bne_iff_ne]
    intro hzero
    have hlow := congrArg (fun u => u.getLsbD 0) hzero
    simp [hw] at hlow

/-- The width of the operation. -/
def width (sf : Bool) : Nat :=
  if sf then 64 else 32

variable (isSub : Bool) (v : BitVec 64) (sf : Bool) (r : BitVec 64)

lemma width_pos : 0 < width sf := by
  cases sf <;> decide

lemma width_le : width sf ≤ 64 := by
  cases sf <;> decide

lemma narrow_eq : narrow sf r = (r.setWidth (width sf)).setWidth 64 := by
  cases sf with
  | true =>
    change r = (r.setWidth 64).setWidth 64
    rw [setWidth_eq, setWidth_eq]
  | false =>
    change r &&& 0xFFFFFFFF#64 = (r.setWidth 32).setWidth 64
    ext j hj
    have hmask : (0xFFFFFFFF#64)[j] = decide (j < 32) := by
      revert j
      decide
    rw [getElem_and, hmask, getElem_setWidth, getLsbD_setWidth,
      Bool.and_comm, getLsbD_eq_getElem hj]

lemma setWidth_narrow : (narrow sf r).setWidth (width sf) = r.setWidth (width sf) := by
  rw [narrow_eq, setWidth_setWidth_of_le _ (width_le sf), setWidth_eq]

/-! ## Flags -/

/-- The emitted flag code computes the flags of addition with carry. -/
lemma setFlagsAt_eq (hw : 0 < w) (isSub : Bool) (a b : BitVec w) :
    setFlagsAt isSub a b (if isSub then a - b else a + b) = (Arm.addOrSub w isSub a b).2 := by
  cases isSub with
  | true =>
    have hr : BitVec.ofNat w (a.toNat + (~~~b).toNat + true.toNat) = a - b :=
      addWithCarry_not a b
    simp only [setFlagsAt, Arm.addOrSub, if_true, shiftRight_and_one hw]
    rw [← addWithCarry_not_carry a b, ← addWithCarry_not_overflow a b hw]
    simp only [addWithCarry, hr]
  | false =>
    have hr : (addWithCarry a b false).1 = a + b := by
      rw [addWithCarry_result]
      exact BitVec.add_zero _
    have hr' : BitVec.ofNat w (a.toNat + b.toNat + false.toNat) = a + b := hr
    have hc := addWithCarry_carry a b false
    have hv := addWithCarry_overflow a b false hw
    rw [hr, Bool.false_and, Bool.or_false] at hc
    rw [hr] at hv
    simp only [setFlagsAt, Arm.addOrSub, Bool.false_eq_true, if_false, shiftRight_and_one hw]
    rw [← hc, ← hv]
    simp only [addWithCarry, hr']

lemma addOrSub_result (a b : BitVec w) :
    (Arm.addOrSub w isSub a b).1 = if isSub then a - b else a + b := by
  cases isSub with
  | true => exact addWithCarry_not a b
  | false =>
    refine (addWithCarry_result a b false).trans ?_
    exact BitVec.add_zero _

lemma setWidth_addSub (a b : BitVec 64) (hN : N ≤ 64) :
    (if isSub then a - b else a + b).setWidth N =
      if isSub then a.setWidth N - b.setWidth N else a.setWidth N + b.setWidth N := by
  cases isSub with
  | true =>
    simp only [if_true]
    rw [sub_eq_add_neg, sub_eq_add_neg, setWidth_add _ _ hN, setWidth_neg_of_le hN]
  | false =>
    exact setWidth_add _ _ hN

lemma setFlags_eq (a b r : BitVec 64) (sf : Bool) :
    setFlags isSub a b r sf =
      setFlagsAt isSub (a.setWidth (width sf)) (b.setWidth (width sf)) (r.setWidth (width sf)) := by
  cases sf with
  | true =>
    change setFlagsAt isSub a b r = setFlagsAt isSub (a.setWidth 64) (b.setWidth 64) (r.setWidth 64)
    rw [setWidth_eq, setWidth_eq, setWidth_eq]
  | false => rfl

lemma setFlags_narrow (op sf : Bool) (a b : BitVec 64) :
    setFlags op a b (narrow sf (if op then a - b else a + b)) sf =
      (Arm.addOrSub (width sf) op (a.setWidth (width sf)) (b.setWidth (width sf))).2 := by
  rw [setFlags_eq, setWidth_narrow, setWidth_addSub op a b (width_le sf),
    setFlagsAt_eq (width_pos sf)]

/-- The emitted block is the architectural operation on the truncated operands. -/
lemma addSub_eq (op s : Bool) (a b : BitVec 64) (rd : BitVec 32) (stores isSP : Bool)
    (c : Context) (hstores : stores = false ↔ rd = 31#32 ∧ isSP = false) :
    addSub sf op s a b rd stores c =
      Arm.finish (width sf) rd isSP s
        (Arm.addOrSub (width sf) op (a.setWidth (width sf)) (b.setWidth (width sf))) c := by
  have hx : (if stores = true then
        update c.x rd (narrow sf (if op then a - b else a + b)) else c.x) =
      Arm.store (width sf) rd isSP
        (Arm.addOrSub (width sf) op (a.setWidth (width sf)) (b.setWidth (width sf))).1 c := by
    rw [Arm.store, addOrSub_result, narrow_eq, setWidth_addSub op a b (width_le sf)]
    cases stores with
    | true => rw [if_pos rfl, if_neg fun h => absurd (hstores.2 h) (by decide)]
    | false => rw [if_neg (by decide), if_pos (hstores.1 rfl)]
  rw [addSub, Arm.finish]
  simp [hx, setFlags_narrow]

/-! ## Operands -/

variable (c : Context)

lemma setWidth_xz (r : BitVec 32) (N : Nat) : (xz c r).setWidth N = Arm.reg N c r := by
  rw [xz, Arm.reg]
  split
  · exact setWidth_zero ..
  · rfl

lemma setWidth_imm (i : BitVec 32) (hN : N ≤ 64) :
    (if bit i 22 = true then (imm12 i).setWidth 64 <<< 12 else (imm12 i).setWidth 64).setWidth N =
      if bit i 22 = true then (imm12 i).setWidth N <<< 12 else (imm12 i).setWidth N := by
  split
  · ext j hj
    simp [lt_of_lt_of_le hj hN]
  · exact setWidth_setWidth_of_le _ hN

lemma setWidth_shiftedOperand {amount : Nat} (hshift : shift < 3) :
    (shiftedOperand v shift amount sf).setWidth (width sf) =
      Arm.shiftReg (width sf) (v.setWidth (width sf)) shift amount := by
  cases sf with
  | true =>
    match shift, hshift with
    | 0, _ | 1, _ | 2, _ => rfl
  | false =>
    match shift, hshift with
    | 0, _ | 1, _ | 2, _ => exact (setWidth_setWidth_of_le _ (by decide)).trans (setWidth_eq _)

/-- An extension followed by a shift is a shift of the low bits followed by an extension
from their new top, as far as the operation reads it. -/
lemma setWidth_extend (signed : Bool) {len : Nat} (hlen : 0 < len) (hshift : shift < N)
    (hN : N ≤ 64) :
    ((if signed then (v.setWidth len).signExtend 64 else (v.setWidth len).setWidth 64) <<<
      shift).setWidth N = Arm.extend N (v.setWidth N) signed len shift := by
  -- bit by bit: below the shift, in the low bits, above them
  ext j hj
  have hj64 : j < 64 := lt_of_lt_of_le hj hN
  rcases lt_or_ge j shift with hlow | hge
  · cases signed <;> simp [Arm.extend, getElem_signExtend, getElem_append, hlow,
      Nat.lt_add_left _ hlow]
  obtain ⟨k, rfl⟩ := Nat.exists_eq_add_of_le' hge
  have hk : k < N - shift := by omega
  rcases lt_or_ge k len with hin | hout
  · have hmin : k < min len (N - shift) := by omega
    cases signed <;> simp [Arm.extend, getElem_signExtend, getElem_append,
      hj64, hin, hmin, show k < 64 by omega]
  have hmin : min len (N - shift) = len := by omega
  cases signed <;> simp [Arm.extend, getElem_signExtend, msb_append,
    getLsbD_append, hj64, hmin, Nat.not_lt_of_le hout,
    show k < 64 by omega, msb_setWidth, hlen, show len ≠ 0 by omega,
      show len - 1 < N by omega, show ¬ k + shift < shift by omega]

lemma extended_eq {option : Nat} (hoption : option < 8) :
    extended v option =
      if decide (4 ≤ option) = true then (v.setWidth (8 * 2 ^ (option % 4))).signExtend 64
      else (v.setWidth (8 * 2 ^ (option % 4))).setWidth 64 := by
  match option, hoption with
  | 0, _ | 1, _ | 2, _ | 4, _ | 5, _ | 6, _ => rfl
  | 3, _ => exact ((setWidth_eq _).trans (setWidth_eq _)).symm
  | 7, _ => exact ((signExtend_eq _).trans (setWidth_eq _)).symm

lemma setWidth_extended {option : Nat} (hoption : option < 8) (hshift : shift < N) (hN : N ≤ 64) :
    (if shift ≠ 0 then extended v option <<< shift else extended v option).setWidth N =
      Arm.extendReg N (v.setWidth N) option shift := by
  have hnone : (if shift ≠ 0 then extended v option <<< shift else extended v option) =
      extended v option <<< shift := by
    split <;> rename_i h
    · rfl
    · rw [of_not_not h]
      exact (shiftLeft_zero _).symm
  rw [hnone, extended_eq v hoption, Arm.extendReg]
  exact setWidth_extend v _ (mul_pos (by decide) (Nat.two_pow_pos _)) hshift hN

/-! ## The forms -/

lemma toNat_and_lt (k : Nat) {v mask : BitVec 32} (hmask : mask.toNat < 2 ^ k) :
    (v &&& mask).toNat < 2 ^ k := by
  rw [toNat_and]
  exact Nat.and_lt_two_pow _ hmask

lemma option_lt (i : BitVec 32) : option i < 8 := toNat_and_lt 3 (by decide)

lemma shiftType_lt (i : BitVec 32) : shiftType i < 4 := toNat_and_lt 2 (by decide)

lemma condition_lt (i : BitVec 32) : condition i < 16 := toNat_and_lt 4 (by decide)

lemma addSubImmediate_eq (i : BitVec 32) (c : Context) :
    addSubImmediate i c =
      Arm.finish (width (bit i 31)) (rd i) (!bit i 29) (bit i 29)
        (Arm.addOrSub _ (bit i 30) (Arm.regOrSP _ c (rn i))
          (if bit i 22 then (imm12 i).setWidth _ <<< 12 else (imm12 i).setWidth _)) c := by
  rw [addSubImmediate, addSub_eq _ _ _ _ _ _ _ (!bit i 29) c (by simp), setWidth_imm i (width_le _)]
  rfl

lemma addSubShifted_eq (halloc : ¬ (shiftType i = 3 ∨ width (bit i 31) ≤ imm6 i)) :
    addSubShifted i c =
      some (Arm.finish (width (bit i 31)) (rd i) false (bit i 29)
        (Arm.addOrSub _ (bit i 30) (Arm.reg _ c (rn i))
          (Arm.shiftReg _ (Arm.reg _ c (rm i)) (shiftType i) (imm6 i))) c) := by
  have hshift : shiftType i < 3 := by
    have := shiftType_lt i
    omega
  have htranslated : ¬ (shiftType i = 3 ∨ (bit i 31 = false ∧ 32 ≤ imm6 i)) := by
    rintro (h | ⟨hsf, himm⟩)
    · exact halloc (.inl h)
    · exact halloc (.inr (by rw [hsf]; exact himm))
  rw [addSubShifted, if_neg htranslated, addSub_eq _ _ _ _ _ _ _ false c (by simp), setWidth_xz,
    setWidth_shiftedOperand _ _ hshift, setWidth_xz]

lemma addSubExtended_eq (halloc : ¬ 4 < imm3 i) :
    addSubExtended i c =
      some (Arm.finish (width (bit i 31)) (rd i) (!bit i 29) (bit i 29)
        (Arm.addOrSub _ (bit i 30) (Arm.regOrSP _ c (rn i))
          (Arm.extendReg _ (Arm.reg _ c (rm i)) (option i) (imm3 i))) c) := by
  have hwidth : imm3 i < width (bit i 31) := by
    have : 32 ≤ width (bit i 31) := by cases bit i 31 <;> decide
    omega
  rw [addSubExtended, if_pos (by omega)]
  dsimp only
  rw [addSub_eq _ _ _ _ _ _ _ (!bit i 29) c (by simp),
    setWidth_extended _ (option_lt i) hwidth (width_le _), setWidth_xz]
  rfl

lemma cond_eq (f : Nzcv) {k : Nat} (hk : k < 16) : cond f k = Arm.conditionHolds f k := by
  obtain ⟨n, z, c, v⟩ := f
  revert n z c v k
  decide

lemma condCompare_eq (i : BitVec 32) (c : Context) :
    condCompare i c =
      if Arm.conditionHolds c.flags (condition i) then
        { c with
          flags := (Arm.addOrSub (width (bit i 31)) (bit i 30) (Arm.reg _ c (rn i))
            (if bit i 11 then (rm i).setWidth _ else Arm.reg _ c (rm i))).2 }
      else { c with flags := ⟨bit i 3, bit i 2, bit i 1, bit i 0⟩ } := by
  have hb : (if bit i 11 = true then (rm i).setWidth 64 else xz c (rm i)).setWidth
      (width (bit i 31)) =
        if bit i 11 = true then (rm i).setWidth _ else Arm.reg (width (bit i 31)) c (rm i) := by
    split
    · exact setWidth_setWidth_of_le _ (width_le _)
    · exact setWidth_xz ..
  rw [condCompare, cond_eq _ (condition_lt i)]
  simp [setFlags_narrow, hb, setWidth_xz]

lemma and_twoPow_ne_zero {k : Nat} (hk : k < 64) : ((v &&& twoPow 64 k) != 0#64) = v.getLsbD k := by
  rw [and_twoPow]
  have hne : twoPow 64 k ≠ 0#64 := by
    intro h
    have := congrArg (fun u => u.getLsbD k) h
    simp [hk] at this
  cases v.getLsbD k <;> simp [hne]

lemma addSubCarry_eq_of_sf (hsf : bit i 31 = true) :
    addSubCarry i c =
      Arm.finish 64 (rd i) false (bit i 29)
        (addWithCarry (Arm.reg 64 c (rn i))
          (if bit i 30 then ~~~Arm.reg 64 c (rm i) else Arm.reg 64 c (rm i)) c.flags.c) c := by
  have hreg : ∀ r, xz c r = Arm.reg 64 c r := fun r => by rw [← setWidth_xz, setWidth_eq]
  simp only [addSubCarry, hsf, if_true, hreg]
  generalize Arm.reg 64 c (rn i) = a
  generalize (if bit i 30 = true then ~~~Arm.reg 64 c (rm i) else Arm.reg 64 c (rm i)) = b
  have hr : narrow true (a + b + BitVec.ofNat 64 c.flags.c.toNat) =
      (addWithCarry a b c.flags.c).1 := (addWithCarry_result a b c.flags.c).symm
  have hci : (BitVec.ofNat 64 c.flags.c.toNat != 0#64) = c.flags.c := by
    cases c.flags.c <;> rfl
  have hsign : 0x8000000000000000#64 = twoPow 64 63 := by decide
  rw [hr, hci, hsign, and_twoPow_ne_zero _ (by decide), and_twoPow_ne_zero _ (by decide)]
  have hcarry := addWithCarry_carry a b c.flags.c
  have hover := addWithCarry_overflow a b c.flags.c (by decide)
  rw [msb_eq_getLsbD_last] at hover
  rw [← hcarry, ← hover, ← msb_eq_getLsbD_last (addWithCarry a b c.flags.c).1]
  simp only [Arm.finish, Arm.store, setWidth_eq, and_true, ite_not, ne_eq]
  rfl

/-- The 32-bit forms with carry: the operands are cast up and the sum cannot wrap. -/
lemma addSubCarry_eq_of_not_sf (hsf : bit i 31 = false) :
    addSubCarry i c =
      Arm.finish 32 (rd i) false (bit i 29)
        (addWithCarry (Arm.reg 32 c (rn i))
          (if bit i 30 then ~~~Arm.reg 32 c (rm i) else Arm.reg 32 c (rm i)) c.flags.c) c := by
  have hreg : ∀ r, wz c r = Arm.reg 32 c r := fun r => rfl
  have hmask : ∀ m : BitVec 32, ~~~(m.setWidth 64) &&& 0xFFFFFFFF#64 = (~~~m).setWidth 64 := by
    intro m
    change narrow false (~~~(m.setWidth 64)) = _
    rw [narrow_eq, setWidth_not (width_le false)]
    congr 2
    exact (setWidth_setWidth_of_le _ (by decide)).trans (setWidth_eq m)
  have hb : (if bit i 30 = true then ~~~((Arm.reg 32 c (rm i)).setWidth 64) &&& 0xFFFFFFFF#64
        else (Arm.reg 32 c (rm i)).setWidth 64) =
      (if bit i 30 = true then ~~~Arm.reg 32 c (rm i) else Arm.reg 32 c (rm i)).setWidth 64 := by
    split
    · exact hmask _
    · rfl
  simp only [addSubCarry, hsf, Bool.false_eq_true, if_false, hreg, hb]
  generalize Arm.reg 32 c (rn i) = a
  generalize (if bit i 30 = true then ~~~Arm.reg 32 c (rm i) else Arm.reg 32 c (rm i)) = b
  have hr : narrow false (a.setWidth 64 + b.setWidth 64 + BitVec.ofNat 64 c.flags.c.toNat) =
      (addWithCarry a b c.flags.c).1.setWidth 64 := by
    have hle : 32 ≤ 64 := by decide
    rw [narrow_eq, addWithCarry_result]
    refine congrArg (setWidth 64) (?_ : setWidth 32 _ = _)
    rw [setWidth_add _ _ hle, setWidth_add _ _ hle,
      setWidth_setWidth_of_le _ hle, setWidth_setWidth_of_le _ hle,
      setWidth_eq, setWidth_eq, setWidth_ofNat_of_le hle]
  have hsign : 0x80000000#64 = twoPow 64 31 := by decide
  rw [hr, hsign, and_twoPow_ne_zero _ (by decide), and_twoPow_ne_zero _ (by decide)]
  have hover := addWithCarry_overflow a b c.flags.c (by decide)
  rw [msb_eq_getLsbD_last] at hover
  have hn : ((addWithCarry a b c.flags.c).1.setWidth 64).getLsbD 31 =
      (addWithCarry a b c.flags.c).1.msb := by
    rfl
  have hz : ((addWithCarry a b c.flags.c).1.setWidth 64 == 0#64) =
      ((addWithCarry a b c.flags.c).1 == 0#32) := by
    rw [Bool.eq_iff_iff, beq_iff_eq, beq_iff_eq, ← toNat_inj, ← toNat_inj, toNat_setWidth]
    simp only [toNat_ofNat]
    omega
  have hcarry : decide (0xFFFFFFFF#64 <
      a.setWidth 64 + b.setWidth 64 + BitVec.ofNat 64 c.flags.c.toNat) =
      (addWithCarry a b c.flags.c).2.c := by
    have hsum := addWithCarry_toNat a b c.flags.c
    change _ = ((addWithCarry a b c.flags.c).1.toNat != a.toNat + b.toNat + c.flags.c.toNat)
    rw [Bool.eq_iff_iff, decide_eq_true_eq, bne_iff_ne, lt_def, toNat_add,
      toNat_add, toNat_setWidth, toNat_setWidth, toNat_ofNat,
      toNat_ofNat]
    omega
  have hv : (~~~(a.setWidth 64 ^^^ b.setWidth 64) &&&
      (a.setWidth 64 ^^^ (addWithCarry a b c.flags.c).1.setWidth 64)).getLsbD 31 =
      (addWithCarry a b c.flags.c).2.v := by
    rw [hover]
    simp only [getLsbD_and, getLsbD_not, getLsbD_xor, getLsbD_setWidth]
    rfl
  rw [hn, hz, hcarry, hv]
  simp only [Arm.finish, Arm.store, and_true, ite_not, ne_eq]
  rfl

lemma addSubCarry_eq (i : BitVec 32) (c : Context) :
    addSubCarry i c =
      Arm.finish (width (bit i 31)) (rd i) false (bit i 29)
        (addWithCarry (Arm.reg _ c (rn i))
          (if bit i 30 then ~~~Arm.reg _ c (rm i) else Arm.reg _ c (rm i)) c.flags.c) c := by
  cases hsf : bit i 31 with
  | true => exact addSubCarry_eq_of_sf c hsf
  | false => exact addSubCarry_eq_of_not_sf c hsf

/-! ## Decoding -/

lemma execute_eq (i : BitVec 32) (c : Context) :
    Arm.execute i c = Arm.executeAt (width (bit i 31)) i c := by
  rw [Arm.execute]
  cases bit i 31 <;> rfl

lemma bit_of_and {mask value : BitVec 32} (k : Nat) (h : (i &&& mask) = value)
    (hmask : (mask >>> k) &&& 1#32 = 1#32) : bit i k = bit value k := by
  have hbits : (i >>> k) &&& 1#32 = (value >>> k) &&& 1#32 := by
    rw [← h, ushiftRight_and_distrib, BitVec.and_assoc, hmask]
  rw [bit, bit, hbits]

section
variable {i : BitVec 32} (c : Context)

lemma translate_immediate (h : (i &&& 0x1F800000#32) = 0x11000000#32) :
    translate i c = some (addSubImmediate i c) :=
  if_pos ((and_eq_iff_of_and h _ _ (by decide)).2 (by decide))

lemma translate_shifted (h : (i &&& 0x1F200000#32) = 0x0B000000#32) :
    translate i c = addSubShifted i c := by
  have himm : ¬ (i &&& 0x1F000000#32) = 0x11000000#32 := ne_of_and h (by decide) (by decide)
  rw [translate, if_neg himm, if_pos h]

lemma translate_extended (h : (i &&& 0x1FE00000#32) = 0x0B200000#32) :
    translate i c = addSubExtended i c := by
  have himm : ¬ (i &&& 0x1F000000#32) = 0x11000000#32 := ne_of_and h (by decide) (by decide)
  have hshifted : ¬ (i &&& 0x1F200000#32) = 0x0B000000#32 := ne_of_and h (by decide) (by decide)
  have hcompare : ¬ (i &&& 0x1FE00000#32) = 0x1A400000#32 :=
    fun h' => absurd (h.symm.trans h') (by decide)
  have hextended : (i &&& 0x1F200000#32) = 0x0B200000#32 :=
    (and_eq_iff_of_and h _ _ (by decide)).2 (by decide)
  rw [translate, if_neg himm, if_neg hshifted, if_neg fun h' => hcompare h'.1, if_pos hextended]

lemma translate_condCompare (h : (i &&& 0x3FE00410#32) = 0x3A400000#32) :
    translate i c = some (condCompare i c) := by
  have himm : ¬ (i &&& 0x1F000000#32) = 0x11000000#32 := ne_of_and h (by decide) (by decide)
  have hshifted : ¬ (i &&& 0x1F200000#32) = 0x0B000000#32 := ne_of_and h (by decide) (by decide)
  have hcompare : (i &&& 0x1FE00000#32) = 0x1A400000#32 ∧ bit i 29 = true ∧
      bit i 10 = false ∧ bit i 4 = false :=
    ⟨(and_eq_iff_of_and h _ _ (by decide)).2 (by decide), bit_of_and 29 h (by decide),
      bit_of_and 10 h (by decide), bit_of_and 4 h (by decide)⟩
  rw [translate, if_neg himm, if_neg hshifted, if_pos hcompare]

lemma translate_carry (h : (i &&& 0x1FE0FC00#32) = 0x1A000000#32) :
    translate i c = some (addSubCarry i c) := by
  have himm : ¬ (i &&& 0x1F000000#32) = 0x11000000#32 := ne_of_and h (by decide) (by decide)
  have hshifted : ¬ (i &&& 0x1F200000#32) = 0x0B000000#32 := ne_of_and h (by decide) (by decide)
  have hcompare : ¬ (i &&& 0x1FE00000#32) = 0x1A400000#32 := ne_of_and h (by decide) (by decide)
  have hextended : ¬ (i &&& 0x1F200000#32) = 0x0B200000#32 := ne_of_and h (by decide) (by decide)
  rw [translate, if_neg himm, if_neg hshifted, if_neg fun h' => hcompare h'.1, if_neg hextended,
    if_pos h]

end

/-- What the emitted code leaves in the registers and the flags is what the architecture
says: the result and the flags of addition with carry, on the operands truncated to the
width of the operation, for every form, every register content and every instruction word
that the architecture allocates. -/
theorem translate_of_execute (i : BitVec 32) (c c' : Context) (h : Arm.execute i c = some c') :
    translate i c = some c' := by
  rw [execute_eq, Arm.executeAt] at h
  split at h
  · rename_i himm
    rw [translate_immediate c himm, addSubImmediate_eq]
    exact h
  split at h
  · rename_i hshifted
    split at h
    · cases h
    · rename_i halloc
      rw [translate_shifted c hshifted, addSubShifted_eq c halloc]
      exact h
  split at h
  · rename_i hextended
    split at h
    · cases h
    · rename_i halloc
      rw [translate_extended c hextended, addSubExtended_eq c halloc]
      exact h
  split at h
  · rename_i hcompare
    rw [translate_condCompare c hcompare, condCompare_eq, ← h]
    split <;> rfl
  split at h
  · rename_i hcarry
    rw [translate_carry c hcarry, addSubCarry_eq]
    exact h
  · cases h

/-- A context whose registers hold ones in the upper halves. -/
def highOnes : Context where
  x r := 0xFFFFFFFF00000000#64 ||| r.setWidth 64
  flags := ⟨false, false, false, false⟩

/-- SUBS W0, W1, W2 reads the low halves. -/
theorem translate_subs :
    ((translate 0x6B020020#32 highOnes).map fun c => (c.x 0, c.flags)) =
      some (0xFFFFFFFF#64, ⟨true, false, false, false⟩) := by
  have h : Arm.execute 0x6B020020#32 highOnes = some _ := rfl
  rw [translate_of_execute _ _ _ h]
  decide

end Drippu.RecompTranslate
