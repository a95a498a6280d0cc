import Drippu.Kernel.MemoryBlock

/-!
# Kernel - The memory block manager

`KMemoryBlockManager` keeps the blocks of an address space in a tree ordered
by address.  The tree is modelled by the list of its blocks in that order, and an
iterator by the list from its block on.  The four update functions of
`k_memory_block_manager.cpp` run one loop shape: walk the blocks of the
range, pass over the blocks that need no change, split the blocks that stick out
of the range and change the rest.  `updateLoop` is that shape with the test
and the change as parameters; each update function supplies its own.

Moving an iterator outside the tree is a fault: `RB_PREV` of the first block
is the null node, and the increment that follows in `CoalesceForUpdate`
dereferences it.
-/

namespace Drippu.Kernel

open KMemoryAttribute hiding none

/-! ## The update allocator -/

/-- `KMemoryBlockManagerUpdateAllocator`, reduced to `m_index`: the blocks
at the indices from there up to `MaxBlocks` are available. -/
structure UpdateAllocator where
  index : Nat
deriving DecidableEq, Repr

namespace UpdateAllocator

abbrev maxBlocks : Nat := 2

/-- `Initialize` with the default number of blocks. -/
def initialized : UpdateAllocator where
  index := 0

def allocate (a : UpdateAllocator) : Except Fault UpdateAllocator :=
  if a.index < maxBlocks then .ok { index := a.index + 1 } else .error .allocatorExhausted

/-- `Free`: with a full allocator the block goes back to the slab. -/
def free (a : UpdateAllocator) : UpdateAllocator where
  index := a.index - 1

end UpdateAllocator

/-! ## The update loop -/

/-- The block in front of the range that the loop splits off, if the range starts
inside the current block. -/
def splitBefore (it : KMemoryBlock) (curAddress : Nat) (allocator : UpdateAllocator) :
    Except Fault (List KMemoryBlock × KMemoryBlock × UpdateAllocator) :=
  if it.address ≠ curAddress then do
    let allocator ← allocator.allocate
    let (newBlock, it) ← it.split curAddress
    .ok ([newBlock], it, allocator)
  else .ok ([], it, allocator)

/-- The block behind the range that the loop splits off, if the range stops inside
the current block. -/
def splitAfter (it : KMemoryBlock) (remainingSize : Nat) (allocator : UpdateAllocator) :
    Except Fault (KMemoryBlock × List KMemoryBlock × UpdateAllocator) :=
  if it.size > remainingSize then do
    let allocator ← allocator.allocate
    let (newBlock, it) ← it.split (it.address + remainingSize)
    .ok (newBlock, [it], allocator)
  else .ok (it, [], allocator)

/-- The loop of the update functions from the block under the iterator on.
`skip` says whether a block already is as requested, `act` changes one
that is not.  A block split off behind the range leaves no pages remaining, so the
loop stops in front of it. -/
def updateLoop (skip : KMemoryBlock → Bool) (act : KMemoryBlock → Except Fault KMemoryBlock) :
    List KMemoryBlock → Nat → Nat → UpdateAllocator →
      Except Fault (List KMemoryBlock × UpdateAllocator)
  | blocks, _, 0, allocator => .ok (blocks, allocator)
  | [], _, _ + 1, _ => .error .endIterator
  | it :: rest, curAddress, remainingPages + 1, allocator =>
    let remainingSize := (remainingPages + 1) * pageSize
    if skip it then
      if curAddress + remainingSize < it.endAddress then .ok (it :: rest, allocator)
      else do
        let (blocks, allocator) ← updateLoop skip act rest it.endAddress
          ((curAddress + remainingSize - it.endAddress) / pageSize) allocator
        .ok (it :: blocks, allocator)
    else do
      let (before, it, allocator) ← splitBefore it curAddress allocator
      let (it, after, allocator) ← splitAfter it remainingSize allocator
      let updated ← act it
      let (blocks, allocator) ← updateLoop skip act rest (it.address + it.size)
        (remainingPages + 1 - it.numPages) allocator
      .ok (before ++ updated :: (after ++ blocks), allocator)

/-- The loop of `CoalesceForUpdate` with `prev` under the iterator and the
blocks behind it.  `endAddress` is the end of the updated range. -/
def coalesceLoop (endAddress : Nat) :
    KMemoryBlock → List KMemoryBlock → UpdateAllocator →
      Except Fault (List KMemoryBlock × UpdateAllocator)
  | prev, [], allocator => .ok ([prev], allocator)
  | prev, it :: rest, allocator =>
    if prev.canMergeWith it then do
      let merged ← prev.add it
      let allocator := allocator.free
      if endAddress < merged.endAddress then .ok (merged :: rest, allocator)
      else coalesceLoop endAddress merged rest allocator
    else if endAddress < it.endAddress then .ok (prev :: it :: rest, allocator)
    else do
      let (blocks, allocator) ← coalesceLoop endAddress it rest allocator
      .ok (prev :: blocks, allocator)

/-! ## The manager -/

structure KMemoryBlockManager where
  memoryBlockTree : List KMemoryBlock
  startAddress : Nat
  endAddress : Nat
deriving DecidableEq, Repr

namespace KMemoryBlockManager

/-- `Initialize`: one free block. -/
def initialized (st nd : Nat) : KMemoryBlockManager where
  memoryBlockTree := [{
    address := st
    numPages := (nd - st) / pageSize
    memoryState := KMemoryState.free
    permission := KMemoryPermission.none
    memoryAttribute := KMemoryAttribute.none }]
  startAddress := st
  endAddress := nd

/-- `FindIterator`: the blocks in front of the block that covers the address,
and the blocks from there on. -/
def findIterator (blocks : List KMemoryBlock) (address : Nat) :
    List KMemoryBlock × List KMemoryBlock :=
  blocks.span fun b => !(decide (b.address ≤ address) && decide (address < b.endAddress))

/-- The blocks in front of the last block of a list, and that block. -/
def splitLast : List KMemoryBlock → Option (List KMemoryBlock × KMemoryBlock)
  | [] => none
  | b :: bs =>
    match splitLast bs with
    | none => some ([], b)
    | some (front, last) => some (b :: front, last)

variable (m : KMemoryBlockManager) (address numPages : Nat)

def coalesceForUpdate (allocator : UpdateAllocator) : Except Fault KMemoryBlockManager := do
  let endAddress := address + numPages * pageSize
  match findIterator m.memoryBlockTree address with
  | (_, []) => .error .endIterator
  | (front, it :: rest) =>
    if address ≠ m.startAddress then
      match splitLast front with
      -- decrementing the iterator of the first block
      | none => .error .beginIterator
      | some (front, prev) =>
        let (blocks, _) ← coalesceLoop endAddress prev (it :: rest) allocator
        .ok { m with memoryBlockTree := front ++ blocks }
    else
      let (blocks, _) ← coalesceLoop endAddress it rest allocator
      .ok { m with memoryBlockTree := front ++ blocks }

/-- The body shared by the update functions: find the first block, run the loop
and coalesce. -/
def updateRange (skip : KMemoryBlock → Bool) (act : KMemoryBlock → Except Fault KMemoryBlock) :
    Except Fault KMemoryBlockManager :=
  if address % pageSize = 0 then do
    let (front, found) := findIterator m.memoryBlockTree address
    let (blocks, allocator) ← updateLoop skip act found address numPages UpdateAllocator.initialized
    coalesceForUpdate { m with memoryBlockTree := front ++ blocks } address numPages allocator
  else .error .managerAssertion

def update (m : KMemoryBlockManager) (address numPages : Nat) (state : KMemoryState)
    (perm : KMemoryPermission) (attr : KMemoryAttribute)
    (setDisableAttr clearDisableAttr : KMemoryBlockDisableMergeAttribute) :
    Except Fault KMemoryBlockManager :=
  if attr &&& lockBits = KMemoryAttribute.none then
    m.updateRange address numPages (fun it => it.hasProperties state perm attr)
      (fun it => it.update state perm attr (it.address == address) setDisableAttr clearDisableAttr)
  else .error .managerAssertion

def updateIfMatch (testState : KMemoryState) (testPerm : KMemoryPermission)
    (testAttr : KMemoryAttribute) (state : KMemoryState) (perm : KMemoryPermission)
    (attr : KMemoryAttribute)
    (setDisableAttr clearDisableAttr : KMemoryBlockDisableMergeAttribute) :
    Except Fault KMemoryBlockManager :=
  if attr &&& lockBits = KMemoryAttribute.none then
    m.updateRange address numPages
      (fun it => !(it.hasProperties testState testPerm testAttr &&
        !it.hasProperties state perm attr))
      (fun it => it.update state perm attr false setDisableAttr clearDisableAttr)
  else .error .managerAssertion

/-- `UpdateLock`: no block is passed over. -/
def updateLock (lockFunc : LockFunction) (perm : KMemoryPermission) :
    Except Fault KMemoryBlockManager :=
  let endAddress := address + numPages * pageSize
  m.updateRange address numPages (fun _ => false)
    (fun it => lockFunc.apply it perm (it.address == address) (it.endAddress == endAddress))

def updateAttribute (m : KMemoryBlockManager) (address numPages : Nat)
    (mask attr : KMemoryAttribute) : Except Fault KMemoryBlockManager :=
  m.updateRange address numPages (fun it => it.memoryAttribute &&& mask == attr)
    (fun it => it.updateAttribute mask attr)

/-! ## CheckState -/

/-- The lock-count test `CheckState` makes on one block. -/
def checkCounts (b : KMemoryBlock) : Bool :=
  !(b.memoryAttribute &&& ipcLocked != KMemoryAttribute.none &&
    b.ipcLockCount == 0) &&
  !(b.memoryAttribute &&& deviceShared != KMemoryAttribute.none &&
    b.deviceUseCount == 0)

/-- The loop of `CheckState` behind `prev`.  The counts of the first block
are tested only when it is the last one. -/
def checkStateLoop : KMemoryBlock → List KMemoryBlock → Bool
  | prev, [] => checkCounts prev
  | prev, it :: rest =>
    !prev.canMergeWith it && prev.endAddress == it.address && checkCounts it &&
      checkStateLoop it rest

def checkState : Bool :=
  match m.memoryBlockTree with
  | [] => true
  | prev :: rest => checkStateLoop prev rest

end KMemoryBlockManager
end Drippu.Kernel
