import Drippu.Kernel.MemoryTypes
import Drippu.Library.BitWords
import Drippu.Library.Transition
import Drippu.Library.Tiling

/-!
# Kernel - Memory blocks

One `KMemoryBlock` describes a run of pages that share their state,
permissions, attributes and lock counts.  The operations below follow
`k_memory_block.h`: a failed `ASSERT` of a block operation is the
corresponding `Fault`, and everything else is computed on the fields.
-/

namespace Drippu.Kernel

open Library

/-- `KMemoryState`, a 32-bit flag word. -/
abbrev KMemoryState := BitVec 32
/-- `KMemoryPermission`, an 8-bit flag word. -/
abbrev KMemoryPermission := BitVec 8
/-- `KMemoryAttribute`, an 8-bit flag word. -/
abbrev KMemoryAttribute := BitVec 8
/-- `KMemoryBlockDisableMergeAttribute`, an 8-bit flag word. -/
abbrev KMemoryBlockDisableMergeAttribute := BitVec 8

namespace KMemoryState
abbrev free : KMemoryState := 0#32
end KMemoryState

namespace KMemoryPermission
abbrev none : KMemoryPermission := 0#8
/-- `UserRead`: the user read bit together with `KernelRead`. -/
abbrev userRead : KMemoryPermission := 0x09#8
abbrev userExecute : KMemoryPermission := 0x04#8
abbrev notMapped : KMemoryPermission := 0x40#8
/-- `NotMapped | UserReadWrite`. -/
abbrev ipcLockChangeMask : KMemoryPermission := 0x5B#8
end KMemoryPermission

namespace KMemoryAttribute
abbrev none : KMemoryAttribute := 0#8
abbrev ipcLocked : KMemoryAttribute := 2#8
abbrev deviceShared : KMemoryAttribute := 4#8
/-- The bits `HasProperties` ignores and `Update` leaves to the block. -/
abbrev lockBits : KMemoryAttribute := 6#8
end KMemoryAttribute

namespace KMemoryBlockDisableMergeAttribute
abbrev none : KMemoryBlockDisableMergeAttribute := 0#8
abbrev deviceLeft : KMemoryBlockDisableMergeAttribute := 2#8
abbrev ipcLeft : KMemoryBlockDisableMergeAttribute := 4#8
abbrev deviceRight : KMemoryBlockDisableMergeAttribute := 16#8
/-- `Normal | DeviceLeft | IpcLeft | Locked`. -/
abbrev allLeft : KMemoryBlockDisableMergeAttribute := 15#8
abbrev allRight : KMemoryBlockDisableMergeAttribute := 16#8
end KMemoryBlockDisableMergeAttribute

open KMemoryAttribute (ipcLocked deviceShared lockBits)
open KMemoryBlockDisableMergeAttribute (deviceLeft ipcLeft deviceRight allLeft allRight)

/-- What can stop a call: an assertion of a block operation or of the manager,
an exhausted update allocator, or an iterator moved outside the tree. -/
inductive Fault where
  | blockAssertion
  | splitAssertion
  | addAssertion
  | managerAssertion
  | allocatorExhausted
  | endIterator
  | beginIterator
deriving DecidableEq, Repr

/-- `KMemoryBlock`.  The counters are 16-bit and wrap as in the source. -/
structure KMemoryBlock where
  deviceDisableMergeLeftCount : BitVec 16 := 0
  deviceDisableMergeRightCount : BitVec 16 := 0
  address : Nat
  numPages : Nat
  memoryState : KMemoryState
  ipcLockCount : BitVec 16 := 0
  deviceUseCount : BitVec 16 := 0
  ipcDisableMergeCount : BitVec 16 := 0
  permission : KMemoryPermission
  originalPermission : KMemoryPermission := KMemoryPermission.none
  memoryAttribute : KMemoryAttribute
  disableMergeAttribute : KMemoryBlockDisableMergeAttribute :=
    KMemoryBlockDisableMergeAttribute.none
deriving DecidableEq, Repr

/-- What a block says about each of its pages. -/
structure PageView where
  memoryState : KMemoryState
  permission : KMemoryPermission
  originalPermission : KMemoryPermission
  memoryAttribute : KMemoryAttribute
  ipcLockCount : BitVec 16
  deviceUseCount : BitVec 16
deriving DecidableEq, Repr

namespace PageView

/-- Whether a page has the state, the permission and, up to the lock bits, the
attribute of a triple. -/
def hasProperties (v : PageView) (s : KMemoryState) (p : KMemoryPermission)
    (a : KMemoryAttribute) : Bool :=
  v.memoryState == s && v.permission == p && (v.memoryAttribute ||| lockBits) == (a ||| lockBits)

end PageView

namespace KMemoryBlock

variable (b : KMemoryBlock)

/-- `GetSize`. -/
def size : Nat :=
  b.numPages * pageSize

/-- `GetEndAddress`. -/
def endAddress : Nat :=
  b.address + b.size

/-- The page view of a block. -/
def view : PageView where
  memoryState := b.memoryState
  permission := b.permission
  originalPermission := b.originalPermission
  memoryAttribute := b.memoryAttribute
  ipcLockCount := b.ipcLockCount
  deviceUseCount := b.deviceUseCount

/-- `HasProperties`: the attribute is compared up to the lock bits. -/
def hasProperties (s : KMemoryState) (p : KMemoryPermission) (a : KMemoryAttribute) : Bool :=
  b.memoryState == s && b.permission == p && (b.memoryAttribute ||| lockBits) == (a ||| lockBits)

def hasSameProperties (rhs : KMemoryBlock) : Bool :=
  b.memoryState == rhs.memoryState && b.permission == rhs.permission &&
    b.originalPermission == rhs.originalPermission && b.memoryAttribute == rhs.memoryAttribute &&
    b.ipcLockCount == rhs.ipcLockCount && b.deviceUseCount == rhs.deviceUseCount

def canMergeWith (rhs : KMemoryBlock) : Bool :=
  b.hasSameProperties rhs &&
    (b.disableMergeAttribute &&& allRight) == KMemoryBlockDisableMergeAttribute.none &&
    (rhs.disableMergeAttribute &&& allLeft) == KMemoryBlockDisableMergeAttribute.none

/-- `Contains`, whose upper bound is inclusive in the source. -/
def contains (addr : Nat) : Bool :=
  decide (b.address ≤ addr) && decide (addr ≤ b.endAddress)

/-! ## Operations -/

/-- The block `Add` leaves when it absorbs the block that follows. -/
def merged (added : KMemoryBlock) : KMemoryBlock :=
  { b with
    numPages := b.numPages + added.numPages
    disableMergeAttribute := b.disableMergeAttribute ||| added.disableMergeAttribute
    deviceDisableMergeRightCount := added.deviceDisableMergeRightCount }

def add (added : KMemoryBlock) : Except Fault KMemoryBlock :=
  if 0 < added.numPages ∧
      b.address + added.size - 1 < b.endAddress + added.size - 1 then
    .ok (b.merged added)
  else .error .addAssertion

/-- The new block `Split` fills in front of an address. -/
def splitFront (addr : Nat) : KMemoryBlock :=
  { b with
    numPages := (addr - b.address) / pageSize
    disableMergeAttribute :=
      b.disableMergeAttribute &&& allLeft
    deviceDisableMergeRightCount := 0 }

/-- What `Split` leaves of the old block from the address on. -/
def splitBack (addr : Nat) : KMemoryBlock :=
  { b with
    address := addr
    numPages := b.numPages - (addr - b.address) / pageSize
    ipcDisableMergeCount := 0
    deviceDisableMergeLeftCount := 0
    disableMergeAttribute :=
      b.disableMergeAttribute &&& allRight }

/-- `Split`: the new block in front of the address, and the old block. -/
def split (addr : Nat) : Except Fault (KMemoryBlock × KMemoryBlock) :=
  if b.address < addr ∧ b.contains addr = true ∧ addr % pageSize = 0 then
    .ok (b.splitFront addr, b.splitBack addr)
  else .error .splitAssertion

/-- The disable-merge bits `Update` leaves behind. -/
def updateDisableMerge (d : KMemoryBlockDisableMergeAttribute) (setDisableMergeAttr : Bool)
    (setMask clearMask : BitVec 8) : KMemoryBlockDisableMergeAttribute :=
  let d := if setDisableMergeAttr && setMask != 0#8 then d ||| setMask else d
  if clearMask != 0#8 then d &&& ~~~clearMask else d

def update (s : KMemoryState) (p : KMemoryPermission) (a : KMemoryAttribute)
    (setDisableMergeAttr : Bool) (setMask clearMask : BitVec 8) : Except Fault KMemoryBlock :=
  if b.originalPermission = KMemoryPermission.none ∧
      b.memoryAttribute &&& ipcLocked = KMemoryAttribute.none then
    .ok { b with
      memoryState := s
      permission := p
      memoryAttribute := a ||| (b.memoryAttribute &&& lockBits)
      disableMergeAttribute :=
        updateDisableMerge b.disableMergeAttribute setDisableMergeAttr setMask clearMask }
  else .error .blockAssertion

def updateAttribute (mask attr : KMemoryAttribute) : Except Fault KMemoryBlock :=
  if mask &&& ipcLocked = KMemoryAttribute.none ∧
      mask &&& deviceShared = KMemoryAttribute.none then
    .ok { b with memoryAttribute := (b.memoryAttribute &&& ~~~mask) ||| attr }
  else .error .blockAssertion

/-! ## Lock callbacks -/

def updateDeviceDisableMergeStateForShareLeft (left : Bool) : Except Fault KMemoryBlock :=
  if left then
    let newCount := b.deviceDisableMergeLeftCount + 1
    if newCount ≠ 0 then
      .ok { b with
        disableMergeAttribute := b.disableMergeAttribute ||| deviceLeft
        deviceDisableMergeLeftCount := newCount }
    else .error .blockAssertion
  else .ok b

def updateDeviceDisableMergeStateForShareRight (right : Bool) : Except Fault KMemoryBlock :=
  if right then
    let newCount := b.deviceDisableMergeRightCount + 1
    if newCount ≠ 0 then
      .ok { b with
        disableMergeAttribute := b.disableMergeAttribute ||| deviceRight
        deviceDisableMergeRightCount := newCount }
    else .error .blockAssertion
  else .ok b

def updateDeviceDisableMergeStateForShare (left right : Bool) : Except Fault KMemoryBlock := do
  let b ← b.updateDeviceDisableMergeStateForShareLeft left
  b.updateDeviceDisableMergeStateForShareRight right

def shareToDevice (left right : Bool) : Except Fault KMemoryBlock :=
  let newCount := b.deviceUseCount + 1
  if (b.memoryAttribute &&& deviceShared = deviceShared ∨
      b.deviceUseCount = 0) ∧ newCount ≠ 0 then
    { b with
      deviceUseCount := newCount
      memoryAttribute := b.memoryAttribute ||| deviceShared
    }.updateDeviceDisableMergeStateForShare left right
  else .error .blockAssertion

/-- `UpdateDeviceDisableMergeStateForUnshareLeft`.  On the left end of the
range a zero count returns before anything changes. -/
def updateDeviceDisableMergeStateForUnshareLeft (left : Bool) : KMemoryBlock :=
  if left && b.deviceDisableMergeLeftCount == 0 then b
  else
    let count :=
      if left then b.deviceDisableMergeLeftCount - 1 else b.deviceDisableMergeLeftCount
    let count := if b.deviceUseCount < count then b.deviceUseCount else count
    { b with
      deviceDisableMergeLeftCount := count
      disableMergeAttribute :=
        if count = 0 then
          b.disableMergeAttribute &&& ~~~deviceLeft
        else b.disableMergeAttribute }

def updateDeviceDisableMergeStateForUnshareRight (right : Bool) : Except Fault KMemoryBlock :=
  if right then
    if b.deviceDisableMergeRightCount ≠ 0 then
      .ok { b with
        deviceDisableMergeRightCount := b.deviceDisableMergeRightCount - 1
        disableMergeAttribute :=
          if b.deviceDisableMergeRightCount = 1 then
            b.disableMergeAttribute &&& ~~~deviceRight
          else b.disableMergeAttribute }
    else .error .blockAssertion
  else .ok b

def updateDeviceDisableMergeStateForUnshare (left right : Bool) : Except Fault KMemoryBlock :=
  (b.updateDeviceDisableMergeStateForUnshareLeft left
    ).updateDeviceDisableMergeStateForUnshareRight right

/-- The part `UnshareToDevice` and `UnshareToDeviceRight` share: drop one
device use, and the attribute with the last one. -/
def dropDeviceUse : Except Fault KMemoryBlock :=
  if b.memoryAttribute &&& deviceShared = deviceShared ∧
      b.deviceUseCount ≠ 0 then
    .ok { b with
      deviceUseCount := b.deviceUseCount - 1
      memoryAttribute :=
        if b.deviceUseCount = 1 then b.memoryAttribute &&& ~~~deviceShared
        else b.memoryAttribute }
  else .error .blockAssertion

def unshareToDevice (left right : Bool) : Except Fault KMemoryBlock := do
  let b ← b.dropDeviceUse
  b.updateDeviceDisableMergeStateForUnshare left right

def unshareToDeviceRight (right : Bool) : Except Fault KMemoryBlock := do
  let b ← b.dropDeviceUse
  b.updateDeviceDisableMergeStateForUnshareRight right

/-- The part of `LockForIpc` before the merge bits: count the lock, and save
and restrict the permission on the first one. -/
def countIpcLock (newPerm : KMemoryPermission) : Except Fault KMemoryBlock :=
  let newLockCount := b.ipcLockCount + 1
  let locked := { b with
    ipcLockCount := newLockCount
    memoryAttribute := b.memoryAttribute ||| ipcLocked }
  if (b.memoryAttribute &&& ipcLocked = ipcLocked ∨
      b.ipcLockCount = 0) ∧ newLockCount ≠ 0 then
    if newLockCount = 1 then
      if b.originalPermission = KMemoryPermission.none ∧
          (b.permission ||| newPerm ||| KMemoryPermission.notMapped) =
            (b.permission ||| KMemoryPermission.notMapped) ∧
          (b.permission &&& KMemoryPermission.userExecute ≠ KMemoryPermission.userExecute ∨
            newPerm = KMemoryPermission.userRead) then
        .ok { locked with
          originalPermission := b.permission
          permission := (newPerm &&& KMemoryPermission.ipcLockChangeMask) |||
            (b.permission &&& ~~~KMemoryPermission.ipcLockChangeMask) }
      else .error .blockAssertion
    else .ok locked
  else .error .blockAssertion

/-- The merge bits `LockForIpc` sets on the left end of the range. -/
def disableMergeForIpcLock (left : Bool) : Except Fault KMemoryBlock :=
  if left then
    let newCount := b.ipcDisableMergeCount + 1
    if newCount ≠ 0 then
      .ok { b with
        disableMergeAttribute := b.disableMergeAttribute ||| ipcLeft
        ipcDisableMergeCount := newCount }
    else .error .blockAssertion
  else .ok b

def lockForIpc (newPerm : KMemoryPermission) (left : Bool) : Except Fault KMemoryBlock := do
  let b ← b.countIpcLock newPerm
  b.disableMergeForIpcLock left

/-- The part of `UnlockForIpc` before the merge bits: drop one lock, and
restore the permission with the last one. -/
def dropIpcLock : Except Fault KMemoryBlock :=
  if b.memoryAttribute &&& ipcLocked = ipcLocked ∧
      b.ipcLockCount ≠ 0 then
    if b.ipcLockCount = 1 then
      if b.originalPermission ≠ KMemoryPermission.none then
        .ok { b with
          ipcLockCount := b.ipcLockCount - 1
          permission := b.originalPermission
          originalPermission := KMemoryPermission.none
          memoryAttribute := b.memoryAttribute &&& ~~~ipcLocked }
      else .error .blockAssertion
    else .ok { b with ipcLockCount := b.ipcLockCount - 1 }
  else .error .blockAssertion

/-- The merge bits `UnlockForIpc` clears on the left end of the range. -/
def enableMergeForIpcUnlock (left : Bool) : Except Fault KMemoryBlock :=
  if left then
    if b.ipcDisableMergeCount ≠ 0 then
      .ok { b with
        ipcDisableMergeCount := b.ipcDisableMergeCount - 1
        disableMergeAttribute :=
          if b.ipcDisableMergeCount = 1 then
            b.disableMergeAttribute &&& ~~~ipcLeft
          else b.disableMergeAttribute }
    else .error .blockAssertion
  else .ok b

def unlockForIpc (left : Bool) : Except Fault KMemoryBlock := do
  let b ← b.dropIpcLock
  b.enableMergeForIpcUnlock left

end KMemoryBlock

/-- The member functions of `KMemoryBlock` that have the type
`MemoryBlockLockFunction`. -/
inductive LockFunction where
  | updateDeviceDisableMergeStateForShareLeft
  | updateDeviceDisableMergeStateForShareRight
  | updateDeviceDisableMergeStateForShare
  | shareToDevice
  | updateDeviceDisableMergeStateForUnshareLeft
  | updateDeviceDisableMergeStateForUnshareRight
  | updateDeviceDisableMergeStateForUnshare
  | unshareToDevice
  | unshareToDeviceRight
  | lockForIpc
  | unlockForIpc
deriving DecidableEq, Repr

/-- Call a lock function through its pointer. -/
def LockFunction.apply (f : LockFunction) (b : KMemoryBlock) (newPerm : KMemoryPermission)
    (left right : Bool) : Except Fault KMemoryBlock :=
  match f with
  | .updateDeviceDisableMergeStateForShareLeft =>
    b.updateDeviceDisableMergeStateForShareLeft left
  | .updateDeviceDisableMergeStateForShareRight =>
    b.updateDeviceDisableMergeStateForShareRight right
  | .updateDeviceDisableMergeStateForShare =>
    b.updateDeviceDisableMergeStateForShare left right
  | .shareToDevice => b.shareToDevice left right
  | .updateDeviceDisableMergeStateForUnshareLeft =>
    .ok (b.updateDeviceDisableMergeStateForUnshareLeft left)
  | .updateDeviceDisableMergeStateForUnshareRight =>
    b.updateDeviceDisableMergeStateForUnshareRight right
  | .updateDeviceDisableMergeStateForUnshare =>
    b.updateDeviceDisableMergeStateForUnshare left right
  | .unshareToDevice => b.unshareToDevice left right
  | .unshareToDeviceRight => b.unshareToDeviceRight right
  | .lockForIpc => b.lockForIpc newPerm left
  | .unlockForIpc => b.unlockForIpc left

/-! ## Ranges, views and merging -/

namespace KMemoryBlock

lemma hasProperties_eq_view (b : KMemoryBlock) (s : KMemoryState)
    (p : KMemoryPermission) (a : KMemoryAttribute) :
    b.hasProperties s p a = b.view.hasProperties s p a :=
  rfl

/-- Two blocks agree on their mergeable properties exactly when they say the same
about a page. -/
lemma hasSameProperties_iff (b c : KMemoryBlock) :
    b.hasSameProperties c = true ↔ b.view = c.view := by
  simp only [hasSameProperties, view, Bool.and_eq_true, beq_iff_eq, PageView.mk.injEq]
  tauto

lemma canMergeWith_iff (b c : KMemoryBlock) :
    b.canMergeWith c = true ↔
      b.view = c.view ∧
        b.disableMergeAttribute &&& allRight = 0#8 ∧
        c.disableMergeAttribute &&& allLeft = 0#8 := by
  simp [canMergeWith, hasSameProperties_iff, and_assoc]

@[simp]
lemma merged_view (b c : KMemoryBlock) : (b.merged c).view = b.view :=
  rfl

@[simp]
lemma merged_address (b c : KMemoryBlock) : (b.merged c).address = b.address :=
  rfl

variable {b c : KMemoryBlock} {addr : Nat}

/-- The front piece of a split at a page boundary stops at the split. -/
lemma splitFront_endAddress (halign : b.address % pageSize = 0) (haddr : addr % pageSize = 0)
    (h : b.address ≤ addr) : (b.splitFront addr).endAddress = addr := by
  simp only [endAddress, size, splitFront, pageSize] at halign haddr ⊢
  omega

/-- The back piece of a split at a page boundary stops where the block did. -/
lemma splitBack_endAddress (halign : b.address % pageSize = 0) (haddr : addr % pageSize = 0)
    (h1 : b.address ≤ addr) (h2 : addr ≤ b.endAddress) :
    (b.splitBack addr).endAddress = b.endAddress := by
  simp only [endAddress, size, splitBack, pageSize] at halign haddr h2 ⊢
  omega

lemma merged_endAddress (hadj : b.endAddress = c.address) :
    (b.merged c).endAddress = c.endAddress := by
  simp only [endAddress, size, merged] at hadj ⊢
  rw [← hadj, add_mul, add_assoc]

/-- A split strictly inside a block at a page boundary does not assert. -/
lemma split_eq_ok (haddr : addr % pageSize = 0) (h1 : b.address < addr)
    (h2 : addr < b.endAddress) : b.split addr = .ok (b.splitFront addr, b.splitBack addr) := by
  have hcontains : b.contains addr = true := by
    simp only [contains, Bool.and_eq_true, decide_eq_true_eq]
    omega
  rw [split, if_pos ⟨h1, hcontains, haddr⟩]

/-- Merging a non-empty block with a non-empty block does not assert. -/
lemma add_eq_ok (hb : b.address < b.endAddress) (hc : c.address < c.endAddress) :
    b.add c = .ok (b.merged c) := by
  have hpages : 0 < c.numPages := by
    simp only [endAddress, size, pageSize] at hc
    omega
  have hgrow : b.address + c.size - 1 < b.endAddress + c.size - 1 := by
    simp only [size, pageSize]
    omega
  rw [add, if_pos ⟨hpages, hgrow⟩]

/-- The range of a block is what its address and page count say. -/
structure SameRange (b c : KMemoryBlock) : Prop where
  address_eq : c.address = b.address
  numPages_eq : c.numPages = b.numPages

lemma SameRange.endAddress_eq (h : SameRange b c) : c.endAddress = b.endAddress := by
  simp [endAddress, size, h.address_eq, h.numPages_eq]

lemma SameRange.trans {d : KMemoryBlock} (h : SameRange b c) (h' : SameRange c d) : SameRange b d :=
  ⟨h'.address_eq.trans h.address_eq, h'.numPages_eq.trans h.numPages_eq⟩

/-- A set lock bit comes with a non-zero count. -/
structure CountsConsistent (v : PageView) : Prop where
  ipc : v.memoryAttribute &&& ipcLocked ≠ 0#8 → v.ipcLockCount ≠ 0
  device : v.memoryAttribute &&& deviceShared ≠ 0#8 → v.deviceUseCount ≠ 0

/-- The view `Update` gives a page. -/
def updateView (s : KMemoryState) (p : KMemoryPermission) (a : KMemoryAttribute)
    (v : PageView) : PageView :=
  { v with
    memoryState := s
    permission := p
    memoryAttribute := a ||| (v.memoryAttribute &&& lockBits) }

/-- The view `UpdateAttribute` gives a page. -/
def updateAttributeView (mask attr : KMemoryAttribute) (v : PageView) : PageView :=
  { v with memoryAttribute := (v.memoryAttribute &&& ~~~mask) ||| attr }

lemma update_view {s : KMemoryState} {p : KMemoryPermission} {a : KMemoryAttribute} {set : Bool}
    {setMask clearMask : BitVec 8} (h : b.update s p a set setMask clearMask = .ok c) :
    c.view = updateView s p a b.view := by
  unfold update at h
  split at h <;> cases h
  rfl

lemma updateAttribute_view {mask attr : KMemoryAttribute}
    (h : b.updateAttribute mask attr = .ok c) : c.view = updateAttributeView mask attr b.view := by
  unfold updateAttribute at h
  split at h <;> cases h
  rfl

/-! ## Lock counts -/

variable {v : PageView}

lemma CountsConsistent.of_eq {w : PageView} (hv : CountsConsistent v)
    (hipc : w.memoryAttribute &&& ipcLocked = v.memoryAttribute &&& ipcLocked)
    (hdevice : w.memoryAttribute &&& deviceShared = v.memoryAttribute &&& deviceShared)
    (hipcCount : w.ipcLockCount = v.ipcLockCount)
    (hdeviceCount : w.deviceUseCount = v.deviceUseCount) : CountsConsistent w := by
  refine ⟨fun h => ?_, fun h => ?_⟩
  · rw [hipcCount]
    exact hv.ipc (hipc ▸ h)
  · rw [hdeviceCount]
    exact hv.device (hdevice ▸ h)

/-- `Update` keeps the counts consistent when its attribute has no lock bits. -/
lemma updateView_counts {s : KMemoryState} {p : KMemoryPermission} {a : KMemoryAttribute}
    (ha : a &&& lockBits = 0#8) (hv : CountsConsistent v) :
    CountsConsistent (updateView s p a v) := by
  have hread : ∀ n : BitVec 8, 6#8 &&& n = n →
      (a ||| (v.memoryAttribute &&& 6#8)) &&& n = v.memoryAttribute &&& n := by
    intro n hn
    rw [BitVec.or_comm, or_and_of_disjoint (and_eq_zero_of_sub ha hn), and_and_of_sub hn]
  exact hv.of_eq (hread _ (by decide)) (hread _ (by decide)) rfl rfl

/-- `UpdateAttribute` keeps the counts consistent when neither its mask nor its
attribute has a lock bit. -/
lemma updateAttributeView_counts {mask attr : KMemoryAttribute}
    (hm : mask &&& lockBits = 0#8) (ha : attr &&& lockBits = 0#8)
    (hv : CountsConsistent v) : CountsConsistent (updateAttributeView mask attr v) := by
  have hnot : ∀ n : BitVec 8, mask &&& n = 0#8 → ~~~mask &&& n = n := by
    intro n hn
    ext i hi
    have hbit := congrArg (fun x : BitVec 8 => x[i]) hn
    simp only [BitVec.getElem_and, BitVec.getElem_zero, BitVec.getElem_not] at hbit ⊢
    cases hmi : mask[i] <;> simp_all
  have hread : ∀ n : BitVec 8, 6#8 &&& n = n →
      ((v.memoryAttribute &&& ~~~mask) ||| attr) &&& n = v.memoryAttribute &&& n := by
    intro n hn
    rw [or_and_of_disjoint (and_eq_zero_of_sub ha hn),
      andNot_and_of_disjoint (hnot n (and_eq_zero_of_sub hm hn))]
  exact hv.of_eq (hread _ (by decide)) (hread _ (by decide)) rfl rfl

/-- What a block operation leaves as it was: the range stays, and lock bits keep
coming with their counts. -/
structure Preserves (b c : KMemoryBlock) : Prop where
  range : SameRange b c
  counts : CountsConsistent b.view → CountsConsistent c.view

/-! ## What the block operations guarantee -/

/-- The computation stops, if at all, on an assertion of a block operation. -/
abbrev AssertsOnly {α : Type} (x : Except Fault α) : Prop :=
  FailsOnly (· = .blockAssertion) x

/-- What every block operation guarantees: it stops only on an assertion, and what it
returns preserves the block. -/
structure Keeps (b : KMemoryBlock) (x : Except Fault KMemoryBlock) : Prop where
  fails : AssertsOnly x
  preserves : ∀ c, x = .ok c → Preserves b c

section
variable {b c : KMemoryBlock} {x y : Except Fault KMemoryBlock} {p : Prop} [Decidable p]

lemma Keeps.ok (h : Preserves b c) : Keeps b (.ok c) := by
  refine ⟨failsOnly_ok c, ?_⟩
  rintro _ ⟨⟩
  exact h

/-- Operations on the merge bookkeeping alone preserve everything a page shows. -/
lemma Keeps.of_view_eq (hrange : SameRange b c) (hview : c.view = b.view) : Keeps b (.ok c) :=
  .ok ⟨hrange, fun h => hview ▸ h⟩

lemma Keeps.ite (hx : p → Keeps b x) (hy : ¬p → Keeps b y) : Keeps b (if p then x else y) := by
  split
  · exact hx ‹p›
  · exact hy ‹¬p›

lemma Keeps.guard (hx : p → Keeps b x) : Keeps b (if p then x else .error .blockAssertion) :=
  .ite hx fun _ => ⟨failsOnly_error rfl, by rintro _ ⟨⟩⟩

lemma Keeps.after (hx : Keeps c x) (h : Preserves b c) : Keeps b x :=
  ⟨hx.fails, fun d hd => ⟨h.range.trans (hx.preserves d hd).range,
    fun hb => (hx.preserves d hd).counts (h.counts hb)⟩⟩

lemma Keeps.bind {f : KMemoryBlock → Except Fault KMemoryBlock} (hx : Keeps b x)
    (hf : ∀ c, Keeps c (f c)) : Keeps b (x >>= f) := by
  refine ⟨hx.fails.bind fun c => (hf c).fails, fun d h => ?_⟩
  obtain ⟨c, hc, hd⟩ := bind_eq_ok.1 h
  exact ((hf c).after (hx.preserves c hc)).preserves d hd

end

section
variable (b : KMemoryBlock) (left right : Bool)

lemma update_keeps (s : KMemoryState) (p : KMemoryPermission) {a : KMemoryAttribute}
    (ha : a &&& lockBits = 0#8) (set : Bool) (setMask clearMask : BitVec 8) :
    Keeps b (b.update s p a set setMask clearMask) :=
  .guard fun _ => .ok ⟨⟨rfl, rfl⟩, fun hb => updateView_counts ha hb⟩

lemma updateAttribute_keeps {mask attr : KMemoryAttribute} (hattr : mask ||| attr = mask) :
    Keeps b (b.updateAttribute mask attr) := by
  refine .guard fun hguard => .ok ⟨⟨rfl, rfl⟩, fun hb => ?_⟩
  have hmask : mask &&& lockBits = 0#8 := by
    rw [show lockBits = ipcLocked |||
      deviceShared from rfl, BitVec.and_or_distrib_left, hguard.1, hguard.2,
      BitVec.or_zero]
  exact updateAttributeView_counts hmask (and_eq_zero_of_or_eq hmask hattr) hb

lemma shareLeft_keeps : Keeps b (b.updateDeviceDisableMergeStateForShareLeft left) :=
  .ite (fun _ => .guard fun _ => .of_view_eq ⟨rfl, rfl⟩ rfl) fun _ => .of_view_eq ⟨rfl, rfl⟩ rfl

lemma shareRight_keeps : Keeps b (b.updateDeviceDisableMergeStateForShareRight right) :=
  .ite (fun _ => .guard fun _ => .of_view_eq ⟨rfl, rfl⟩ rfl) fun _ => .of_view_eq ⟨rfl, rfl⟩ rfl

lemma share_keeps : Keeps b (b.updateDeviceDisableMergeStateForShare left right) :=
  (shareLeft_keeps b left).bind fun c => shareRight_keeps c right

lemma shareToDevice_keeps : Keeps b (b.shareToDevice left right) := by
  refine .guard fun hguard => (share_keeps _ left right).after ⟨⟨rfl, rfl⟩, fun hb => ?_⟩
  refine ⟨fun hbit => hb.ipc ?_, fun _ => hguard.2⟩
  simpa only [view, or_and_of_disjoint (y := 4#8) (m := 2#8) (by decide)] using hbit

lemma unshareLeft_keeps : Keeps b (.ok (b.updateDeviceDisableMergeStateForUnshareLeft left)) := by
  unfold updateDeviceDisableMergeStateForUnshareLeft
  split
  · exact .of_view_eq ⟨rfl, rfl⟩ rfl
  · exact .of_view_eq ⟨rfl, rfl⟩ rfl

lemma unshareRight_keeps : Keeps b (b.updateDeviceDisableMergeStateForUnshareRight right) :=
  .ite (fun _ => .guard fun _ => .of_view_eq ⟨rfl, rfl⟩ rfl) fun _ => .of_view_eq ⟨rfl, rfl⟩ rfl

lemma unshare_keeps : Keeps b (b.updateDeviceDisableMergeStateForUnshare left right) :=
  (unshareLeft_keeps b left).bind fun c => unshareRight_keeps c right

/-- Dropping a use that is not the last one leaves a non-zero count. -/
lemma sub_one_ne_zero {n : BitVec 16} (h : n ≠ 1) : n - 1 ≠ 0 := by
  intro h'
  exact h (by rw [← BitVec.sub_add_cancel n 1, h']; rfl)

lemma dropDeviceUse_keeps : Keeps b b.dropDeviceUse := by
  refine .guard fun _ => .ok ⟨⟨rfl, rfl⟩, fun hb => ?_⟩
  simp only [view]
  by_cases hlast : b.deviceUseCount = 1
  · rw [if_pos hlast]
    refine ⟨fun hbit => hb.ipc ?_, fun hbit => absurd ?_ hbit⟩
    · simpa only [view, andNot_and_of_disjoint (m := 4#8) (n := 2#8) (by decide)] using hbit
    · rw [BitVec.and_assoc]
      exact BitVec.and_zero
  · rw [if_neg hlast]
    exact ⟨hb.ipc, fun _ => sub_one_ne_zero hlast⟩

lemma countIpcLock_keeps (newPerm : KMemoryPermission) : Keeps b (b.countIpcLock newPerm) := by
  refine .guard fun hguard => ?_
  have hcounts : CountsConsistent b.view → ∀ v : PageView,
      v.memoryAttribute = b.memoryAttribute ||| 2#8 → v.ipcLockCount = b.ipcLockCount + 1 →
      v.deviceUseCount = b.deviceUseCount → CountsConsistent v := by
    intro hb v hattr hipc hdevice
    refine ⟨fun _ => hipc ▸ hguard.2, fun hbit => hdevice ▸ hb.device ?_⟩
    rw [hattr, or_and_of_disjoint (y := 2#8) (m := 4#8) (by decide)] at hbit
    exact hbit
  exact .ite (fun _ => .guard fun _ => .ok ⟨⟨rfl, rfl⟩, fun hb => hcounts hb _ rfl rfl rfl⟩)
    fun _ => .ok ⟨⟨rfl, rfl⟩, fun hb => hcounts hb _ rfl rfl rfl⟩

lemma disableMergeForIpcLock_keeps : Keeps b (b.disableMergeForIpcLock left) :=
  .ite (fun _ => .guard fun _ => .of_view_eq ⟨rfl, rfl⟩ rfl) fun _ => .of_view_eq ⟨rfl, rfl⟩ rfl

lemma dropIpcLock_keeps : Keeps b b.dropIpcLock := by
  refine .guard fun _ => .ite (fun _ => .guard fun _ => .ok ⟨⟨rfl, rfl⟩, fun hb =>
    ⟨fun hbit => absurd ?_ hbit, fun hbit => hb.device ?_⟩⟩) fun hlast => .ok ⟨⟨rfl, rfl⟩, fun hb =>
      ⟨fun _ => sub_one_ne_zero hlast, hb.device⟩⟩
  · simp only [view]
    rw [BitVec.and_assoc]
    exact BitVec.and_zero
  · simpa only [view, andNot_and_of_disjoint (m := 2#8) (n := 4#8) (by decide)] using hbit

lemma enableMergeForIpcUnlock_keeps : Keeps b (b.enableMergeForIpcUnlock left) :=
  .ite (fun _ => .guard fun _ => .of_view_eq ⟨rfl, rfl⟩ rfl) fun _ => .of_view_eq ⟨rfl, rfl⟩ rfl

end
end KMemoryBlock

open KMemoryBlock in
/-- Every lock callback keeps its block's range and the consistency of its counts, and stops
only on an assertion of the block. -/
lemma LockFunction.apply_keeps (f : LockFunction) (b : KMemoryBlock)
    (newPerm : KMemoryPermission) (left right : Bool) :
    Keeps b (f.apply b newPerm left right) := by
  cases f with
  | updateDeviceDisableMergeStateForShareLeft => exact shareLeft_keeps b left
  | updateDeviceDisableMergeStateForShareRight => exact shareRight_keeps b right
  | updateDeviceDisableMergeStateForShare => exact share_keeps b left right
  | shareToDevice => exact shareToDevice_keeps b left right
  | updateDeviceDisableMergeStateForUnshareLeft => exact unshareLeft_keeps b left
  | updateDeviceDisableMergeStateForUnshareRight => exact unshareRight_keeps b right
  | updateDeviceDisableMergeStateForUnshare => exact unshare_keeps b left right
  | unshareToDevice => exact (dropDeviceUse_keeps b).bind fun c => unshare_keeps c left right
  | unshareToDeviceRight => exact (dropDeviceUse_keeps b).bind fun c => unshareRight_keeps c right
  | lockForIpc =>
    exact (countIpcLock_keeps b newPerm).bind fun c => disableMergeForIpcLock_keeps c left
  | unlockForIpc =>
    exact (dropIpcLock_keeps b).bind fun c => enableMergeForIpcUnlock_keeps c left

end Drippu.Kernel
