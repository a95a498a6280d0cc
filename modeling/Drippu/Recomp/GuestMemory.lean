import Mathlib.Tactic

/-!
# Recomp - Guest memory helpers

The memory helpers of recompiled code.  The helpers of ABI 5 walk the page table of the host
and call the host for what they cannot serve.  The helpers of ABI 6 (FM1) first try one read
of the page table with its layout folded in as constants, and otherwise run the ABI 5 helper.

The host is a machine with 64-bit addresses.  The page table and the counters are in its
memory; what the two callbacks do to the memory and to the emulator is arbitrary.  The calls
are recorded in the order in which they are made.
-/

namespace Drippu.RecompMemory

/-! ## The host -/

/-- The bytes of the host. -/
abbrev Memory := BitVec 64 → BitVec 8

/-- `memcpy` from an address, as a little-endian number. -/
def Memory.read (m : Memory) (p : BitVec 64) : (bytes : Nat) → Nat
  | 0 => 0
  | bytes + 1 => (m p).toNat + 256 * Memory.read m (p + 1) bytes

/-- `memcpy` to an address; what does not fit is dropped. -/
def Memory.write (m : Memory) (p : BitVec 64) : (bytes value : Nat) → Memory
  | 0, _ => m
  | bytes + 1, value =>
    Memory.write (Function.update m p (BitVec.ofNat 8 value)) (p + 1) bytes (value / 256)

def Memory.readWord (m : Memory) (p : BitVec 64) : BitVec 64 := BitVec.ofNat 64 (m.read p 8)

/-- A call of the host. -/
inductive HostCall
  | load (va : BitVec 64) (size : Nat)
  | store (va : BitVec 64) (size : Nat) (value : BitVec 64)
  deriving DecidableEq, Repr

/-- The memory of the host, the state of the emulator and the calls so far. -/
structure World (σ : Type) where
  memory : Memory
  host : σ
  calls : List HostCall

variable {σ : Type}

/-- The host bridge. -/
structure RecompHostMem (σ : Type) where
  load : BitVec 64 → Nat → Memory × σ → BitVec 64 × (Memory × σ)
  store : BitVec 64 → Nat → BitVec 64 → Memory × σ → Memory × σ
  pageEntries : BitVec 64
  pageEntryStride : BitVec 64
  pageBits : BitVec 64
  pointerMask : BitVec 64
  addressSpaceMax : BitVec 64
  pageTypeMask : BitVec 64
  pageTypeMemory : BitVec 64
  pageTypeDebug : BitVec 64
  pageTypeRasterizerCached : BitVec 64
  counters : BitVec 64

structure GuestContext (σ : Type) where
  mem : BitVec 64
  memSize : BitVec 64
  memBaseVaddr : BitVec 64
  hostMem : Option (RecompHostMem σ)
  fmTable : BitVec 64
  fmLimit : BitVec 64

/-! ## The callbacks -/

def memptr (c : GuestContext σ) (va : BitVec 64) (sz : Nat) : BitVec 64 :=
  let off := va - c.memBaseVaddr
  if c.memSize < off + BitVec.ofNat 64 sz then 0 else c.mem + off

def memload (c : GuestContext σ) (a : BitVec 64) (sz : Nat) (w : World σ) : BitVec 64 × World σ :=
  match c.hostMem with
  | some hm =>
    let (v, memory, host) := hm.load a sz (w.memory, w.host)
    (v, ⟨memory, host, w.calls ++ [.load a sz]⟩)
  | none =>
    let p := memptr c a sz
    (if p ≠ 0 then BitVec.ofNat 64 (w.memory.read p sz) else 0, w)

def memstore (c : GuestContext σ) (a : BitVec 64) (sz : Nat) (v : BitVec 64) (w : World σ) :
    World σ :=
  match c.hostMem with
  | some hm =>
    let (memory, host) := hm.store a sz v (w.memory, w.host)
    ⟨memory, host, w.calls ++ [.store a sz v]⟩
  | none =>
    let p := memptr c a sz
    if p ≠ 0 then { w with memory := w.memory.write p sz v.toNat } else w

/-! ## The walk -/

inductive RecompGuestMemCounter
  | fastPathHits
  | gpuTracked
  | debug
  | other
  deriving DecidableEq, Repr

def RecompGuestMemCounter.slot : RecompGuestMemCounter → BitVec 64
  | .fastPathHits => 0
  | .gpuTracked => 1
  | .debug => 2
  | .other => 3

/-- Increments a counter, if there are any. -/
def recompBump (c : GuestContext σ) (counter : RecompGuestMemCounter) (w : World σ) : World σ :=
  match c.hostMem with
  | none => w
  | some hm =>
    if hm.counters = 0 then w
    else
      let p := hm.counters + counter.slot * 8
      { w with memory := w.memory.write p 8 (w.memory.read p 8 + 1) }

/-- The entry of the page of an address. -/
def RecompHostMem.entry (hm : RecompHostMem σ) (memory : Memory) (va : BitVec 64) : BitVec 64 :=
  memory.readWord (hm.pageEntries + (va >>> hm.pageBits.toNat) * hm.pageEntryStride)

/-- The walk ignores the top 16 bits of an address. -/
def vaMask : BitVec 64 := 0xffffffffffff#64

/-- The host address behind a guest address; null when the host has to be called. -/
def recompHostPtr (c : GuestContext σ) (va : BitVec 64) (w : World σ) : BitVec 64 × World σ :=
  match c.hostMem with
  | none => (0, w)
  | some hm =>
    if hm.pageEntries = 0 ∨ 64 ≤ hm.pageBits then (0, w)
    else
      let va := va &&& vaMask
      if hm.addressSpaceMax ≤ va then (0, w)
      else
        let raw := hm.entry w.memory va
        let tag := raw &&& hm.pageTypeMask
        if tag ≠ hm.pageTypeMemory then
          let reason : RecompGuestMemCounter :=
            if tag = hm.pageTypeRasterizerCached then .gpuTracked
            else if tag = hm.pageTypeDebug then .debug
            else .other
          (0, recompBump c reason w)
        else
          let p := raw &&& hm.pointerMask
          if p = 0 then (0, recompBump c .other w)
          else (p + va, recompBump c .fastPathHits w)

/-- The span leaves the address space. -/
def RecompHostMem.outside (hm : RecompHostMem σ) (va bytes : BitVec 64) : Prop :=
  hm.addressSpaceMax ≤ va ∨ hm.addressSpaceMax - va < bytes ∨ 0x1000000000000#64 - va < bytes

instance (hm : RecompHostMem σ) (va bytes : BitVec 64) : Decidable (hm.outside va bytes) :=
  inferInstanceAs (Decidable (_ ∨ _))

/-- The bytes from an address to the end of its page. -/
def RecompHostMem.room (hm : RecompHostMem σ) (va : BitVec 64) : BitVec 64 :=
  let psz := 1#64 <<< hm.pageBits.toNat
  psz - (va &&& (psz - 1))

/-- The host address behind a span inside one page. -/
def recompHostPtrN (c : GuestContext σ) (va bytes : BitVec 64) (w : World σ) :
    BitVec 64 × World σ :=
  match c.hostMem with
  | none => (0, w)
  | some hm =>
    if hm.pageEntries = 0 ∨ 64 ≤ hm.pageBits ∨ bytes = 0 then (0, w)
    else
      let va := va &&& vaMask
      if hm.outside va bytes then (0, recompBump c .other w)
      else if hm.room va < bytes then (0, recompBump c .other w)
      else recompHostPtr c va w

def recompPairSamePage (hm : Option (RecompHostMem σ)) (a bytes : BitVec 64) : Bool :=
  match hm with
  | none => false
  | some hm =>
    if hm.pageEntries = 0 ∨ 64 ≤ hm.pageBits ∨ bytes = 0 then false
    else
      let a := a &&& vaMask
      if hm.outside a bytes then false
      else bytes ≤ hm.room a

/-! ## ABI 5 -/

/-- What a helper does to the world, with what it returns. -/
abbrev Load (σ : Type) := GuestContext σ → BitVec 64 → World σ → BitVec 64 × World σ

abbrev Store (σ : Type) := GuestContext σ → BitVec 64 → BitVec 64 → World σ → World σ

abbrev LoadPair (σ : Type) :=
  GuestContext σ → BitVec 64 → World σ → (BitVec 64 × BitVec 64) × World σ

abbrev StorePair (σ : Type) :=
  GuestContext σ → BitVec 64 → BitVec 64 → BitVec 64 → World σ → World σ

/-- The value at a host address. -/
def World.get (w : World σ) (p : BitVec 64) (bytes : Nat) : BitVec 64 :=
  BitVec.ofNat 64 (w.memory.read p bytes)

def World.set (w : World σ) (p : BitVec 64) (bytes : Nat) (v : BitVec 64) : World σ :=
  { w with memory := w.memory.write p bytes v.toNat }

namespace Abi5

def recompLoad8 : Load σ := fun c a w =>
  let (p, w) := recompHostPtr c a w
  if p ≠ 0 then (w.get p 1, w) else memload c a 1 w

variable (bytes : Nat)

/-- A load of several bytes. -/
def recompLoad : Load σ := fun c a w =>
  let (p, w) := recompHostPtrN c a (BitVec.ofNat 64 bytes) w
  if p ≠ 0 then (w.get p bytes, w) else memload c a bytes w

def recompLoad16 : Load σ := recompLoad 2

def recompLoad32 : Load σ := recompLoad 4

def recompLoad64 : Load σ := recompLoad 8

def recompStore8 : Store σ := fun c a v w =>
  let (p, w) := recompHostPtr c a w
  if p ≠ 0 then w.set p 1 v else memstore c a 1 v w

/-- A store of several bytes. -/
def recompStore : Store σ := fun c a v w =>
  let (p, w) := recompHostPtrN c a (BitVec.ofNat 64 bytes) w
  if p ≠ 0 then w.set p bytes v else memstore c a bytes v w

def recompStore16 : Store σ := recompStore 2

def recompStore32 : Store σ := recompStore 4

def recompStore64 : Store σ := recompStore 8

/-- The walk of the pair helpers: null when the single helpers have to answer. -/
def pairPtr (c : GuestContext σ) (a bytes : BitVec 64) (w : World σ) : BitVec 64 × World σ :=
  if recompPairSamePage c.hostMem a bytes then recompHostPtr c a w else (0, w)

/-- A load of two registers. -/
def recompLdp : LoadPair σ := fun c a w =>
  let (p, w) := pairPtr c a (BitVec.ofNat 64 (2 * bytes)) w
  if p ≠ 0 then ((w.get p bytes, w.get (p + BitVec.ofNat 64 bytes) bytes), w)
  else
    let (lo, w) := recompLoad bytes c a w
    let (hi, w) := recompLoad bytes c (a + BitVec.ofNat 64 bytes) w
    ((lo, hi), w)

def recompLdp64 : LoadPair σ := recompLdp 8

def recompLdp32 : LoadPair σ := recompLdp 4

/-- A store of two registers. -/
def recompStp : StorePair σ := fun c a v₀ v₁ w =>
  let (p, w) := pairPtr c a (BitVec.ofNat 64 (2 * bytes)) w
  if p ≠ 0 then (w.set p bytes v₀).set (p + BitVec.ofNat 64 bytes) bytes v₁
  else recompStore bytes c (a + BitVec.ofNat 64 bytes) v₁ (recompStore bytes c a v₀ w)

def recompStp64 : StorePair σ := recompStp 8

def recompStp32 : StorePair σ := recompStp 4

end Abi5

/-! ## ABI 6 -/

def fmPageBits : Nat := 12

def fmStrideLog2 : Nat := 5

def fmPtrMask : BitVec 64 := ~~~3#64

/-- The pointer part of the entry of an address, null to decline. -/
def recompFmEntry (c : GuestContext σ) (va bytes : BitVec 64) (w : World σ) : BitVec 64 × World σ :=
  if c.fmLimit ≤ va then (0, w)
  else if 0x1000#64 - bytes < va &&& 0xfff#64 then (0, w)
  else
    let e := w.memory.readWord (c.fmTable + (va >>> fmPageBits <<< fmStrideLog2)) &&& fmPtrMask
    if e ≠ 0 then (e, recompBump c .fastPathHits w) else (e, w)

namespace Fm1

variable (bytes : Nat)

/-- A load with the fast path in front of the helper of ABI 5. -/
def load (slow : Load σ) : Load σ := fun c a w =>
  let (e, w) := recompFmEntry c a (BitVec.ofNat 64 bytes) w
  if e ≠ 0 then (w.get (e + a) bytes, w) else slow c a w

def recompLoad8 : Load σ := load 1 Abi5.recompLoad8

def recompLoad16 : Load σ := load 2 Abi5.recompLoad16

def recompLoad32 : Load σ := load 4 Abi5.recompLoad32

def recompLoad64 : Load σ := load 8 Abi5.recompLoad64

/-- A store with the fast path in front of the helper of ABI 5. -/
def store (slow : Store σ) : Store σ := fun c a v w =>
  let (e, w) := recompFmEntry c a (BitVec.ofNat 64 bytes) w
  if e ≠ 0 then w.set (e + a) bytes v else slow c a v w

def recompStore8 : Store σ := store 1 Abi5.recompStore8

def recompStore16 : Store σ := store 2 Abi5.recompStore16

def recompStore32 : Store σ := store 4 Abi5.recompStore32

def recompStore64 : Store σ := store 8 Abi5.recompStore64

/-- A load of two registers with the fast path in front of the helper of ABI 5. -/
def ldp (slow : LoadPair σ) : LoadPair σ := fun c a w =>
  let (e, w) := recompFmEntry c a (BitVec.ofNat 64 (2 * bytes)) w
  if e ≠ 0 then ((w.get (e + a) bytes, w.get (e + a + BitVec.ofNat 64 bytes) bytes), w)
  else slow c a w

def recompLdp64 : LoadPair σ := ldp 8 Abi5.recompLdp64

def recompLdp32 : LoadPair σ := ldp 4 Abi5.recompLdp32

/-- A store of two registers with the fast path in front of the helper of ABI 5. -/
def stp (slow : StorePair σ) : StorePair σ := fun c a v₀ v₁ w =>
  let (e, w) := recompFmEntry c a (BitVec.ofNat 64 (2 * bytes)) w
  if e ≠ 0 then (w.set (e + a) bytes v₀).set (e + a + BitVec.ofNat 64 bytes) bytes v₁
  else slow c a v₀ v₁ w

def recompStp64 : StorePair σ := stp 8 Abi5.recompStp64

def recompStp32 : StorePair σ := stp 4 Abi5.recompStp32

end Fm1

/-! ## Accesses -/

/-- A call of one of the helpers. -/
inductive Access
  | load8 (a : BitVec 64)
  | load16 (a : BitVec 64)
  | load32 (a : BitVec 64)
  | load64 (a : BitVec 64)
  | store8 (a v : BitVec 64)
  | store16 (a v : BitVec 64)
  | store32 (a v : BitVec 64)
  | store64 (a v : BitVec 64)
  | ldp64 (a : BitVec 64)
  | stp64 (a v₀ v₁ : BitVec 64)
  | ldp32 (a : BitVec 64)
  | stp32 (a v₀ v₁ : BitVec 64)
  deriving DecidableEq, Repr

/-- The value of a load as the values of an access. -/
def oneValue (r : BitVec 64 × World σ) : List (BitVec 64) × World σ := ([r.1], r.2)

def twoValues (r : (BitVec 64 × BitVec 64) × World σ) : List (BitVec 64) × World σ :=
  ([r.1.1, r.1.2], r.2)

/-- The values that an access returns and the world after it. -/
def Abi5.run (c : GuestContext σ) (w : World σ) : Access → List (BitVec 64) × World σ
  | .load8 a => oneValue (Abi5.recompLoad8 c a w)
  | .load16 a => oneValue (Abi5.recompLoad16 c a w)
  | .load32 a => oneValue (Abi5.recompLoad32 c a w)
  | .load64 a => oneValue (Abi5.recompLoad64 c a w)
  | .store8 a v => ([], Abi5.recompStore8 c a v w)
  | .store16 a v => ([], Abi5.recompStore16 c a v w)
  | .store32 a v => ([], Abi5.recompStore32 c a v w)
  | .store64 a v => ([], Abi5.recompStore64 c a v w)
  | .ldp64 a => twoValues (Abi5.recompLdp64 c a w)
  | .stp64 a v₀ v₁ => ([], Abi5.recompStp64 c a v₀ v₁ w)
  | .ldp32 a => twoValues (Abi5.recompLdp32 c a w)
  | .stp32 a v₀ v₁ => ([], Abi5.recompStp32 c a v₀ v₁ w)

/-- The same with the fast path. -/
def Fm1.run (c : GuestContext σ) (w : World σ) : Access → List (BitVec 64) × World σ
  | .load8 a => oneValue (Fm1.recompLoad8 c a w)
  | .load16 a => oneValue (Fm1.recompLoad16 c a w)
  | .load32 a => oneValue (Fm1.recompLoad32 c a w)
  | .load64 a => oneValue (Fm1.recompLoad64 c a w)
  | .store8 a v => ([], Fm1.recompStore8 c a v w)
  | .store16 a v => ([], Fm1.recompStore16 c a v w)
  | .store32 a v => ([], Fm1.recompStore32 c a v w)
  | .store64 a v => ([], Fm1.recompStore64 c a v w)
  | .ldp64 a => twoValues (Fm1.recompLdp64 c a w)
  | .stp64 a v₀ v₁ => ([], Fm1.recompStp64 c a v₀ v₁ w)
  | .ldp32 a => twoValues (Fm1.recompLdp32 c a w)
  | .stp32 a v₀ v₁ => ([], Fm1.recompStp32 c a v₀ v₁ w)

/-! ## Setting up a context -/

inductive PageType
  | unmapped
  | memory
  | debugMemory
  | rasterizerCachedMemory
  deriving DecidableEq, Repr

def PageType.value : PageType → BitVec 64
  | .unmapped => 0
  | .memory => 1
  | .debugMemory => 2
  | .rasterizerCachedMemory => 3

def PageInfo.store (pointer : BitVec 64) (type : PageType) : BitVec 64 := pointer ||| type.value

end Drippu.RecompMemory
