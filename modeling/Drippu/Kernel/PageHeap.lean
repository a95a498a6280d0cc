import Drippu.Kernel.MemoryTypes
import Drippu.Kernel.PageBitmap

/-!
# Kernel - The page heap

`KPageHeap` keeps the free pages of a physical range in blocks of seven sizes,
with one `KPageBitmap` per size.  Freeing a block merges it with its neighbours
into the next size as long as they are free; allocating takes a block and frees what
it does not need.  Addresses are byte addresses, and the address zero stands for no
block, as in the source.
-/

namespace Drippu.Kernel

open Library

namespace KPageHeap

abbrev numMemoryBlockPageShifts : Nat := 7

def memoryBlockPageShifts (index : Nat) : Nat :=
  [0xC, 0x10, 0x15, 0x16, 0x19, 0x1D, 0x1E].getD index 0

def getBlockSize (index : Nat) : Nat :=
  2 ^ memoryBlockPageShifts index

/-- `GetAlignedBlockIndex`: the first size that holds the pages and the
alignment. -/
def getAlignedBlockIndex (numPages alignPages : Nat) : Option Nat :=
  (List.range numMemoryBlockPageShifts).find? fun i =>
    max numPages alignPages ≤ getBlockSize i / pageSize

/-! ## Blocks of one size -/

structure Block (R : Type) where
  bitmap : KPageBitmap R
  heapAddress : Nat
  endOffset : Nat
  blockShift : Nat
  nextBlockShift : Nat

namespace Block

variable {R : Type}

def getSize (b : Block R) : Nat :=
  2 ^ b.blockShift

def getNumPages (b : Block R) : Nat :=
  b.getSize / pageSize

def getNumFreeBlocks (b : Block R) : Nat :=
  b.bitmap.numBits

def getNumFreePages (b : Block R) : Nat :=
  b.getNumFreeBlocks * b.getNumPages

/-- `Initialize`. -/
def initialized (rng : R) (addr size bs nbs : Nat) : Block R :=
  let align := if nbs ≠ 0 then 2 ^ nbs else 2 ^ bs
  let last := alignUp (addr + size) align
  let first := alignDown addr align
  let endOffset := (last - first) / 2 ^ bs
  { bitmap := KPageBitmap.initialized rng endOffset
    heapAddress := first
    endOffset := endOffset
    blockShift := bs
    nextBlockShift := nbs }

/-- Write back the bitmap. -/
def withBitmap (b : Block R) (bitmap : KPageBitmap R) : Block R :=
  { b with bitmap := bitmap }

/-- `PushBlock`: the address is that of the merged block, if there is one. -/
def pushBlock (b : Block R) (address : Nat) : Except PageFault (Nat × Block R) := do
  let offset := (address - b.heapAddress) / 2 ^ b.blockShift
  let bitmap ← b.bitmap.setBit offset
  if b.nextBlockShift ≠ 0 then
    let diff := 2 ^ (b.nextBlockShift - b.blockShift)
    let offset := alignDown offset diff
    let (cleared, bitmap) ← bitmap.clearRange offset diff
    .ok (if cleared then b.heapAddress + offset * 2 ^ b.blockShift else 0, b.withBitmap bitmap)
  else .ok (0, b.withBitmap bitmap)

def popBlock (G : RandomSource R) (b : Block R) (random : Bool) :
    Except PageFault (Nat × Block R) := do
  let (soffset, bitmap) ← b.bitmap.findFreeBlock G random
  match soffset with
  | none => .ok (0, b.withBitmap bitmap)
  | some offset =>
    let bitmap ← bitmap.clearBit offset
    .ok (b.heapAddress + offset * 2 ^ b.blockShift, b.withBitmap bitmap)

end Block
end KPageHeap

/-! ## The heap -/

structure KPageHeap (R : Type) where
  heapAddress : Nat
  heapSize : Nat
  numBlocks : Nat
  blocks : Nat → KPageHeap.Block R
  rng : R

namespace KPageHeap

variable {R : Type}

/-- `Initialize` with the default block shifts, over the generators of the
bitmaps and of the heap. -/
def initialized (rngs : Nat → R) (rng : R) (address size : Nat) : KPageHeap R where
  heapAddress := address
  heapSize := size
  numBlocks := numMemoryBlockPageShifts
  blocks := fun i =>
    Block.initialized (rngs i) address size (memoryBlockPageShifts i)
      (if i ≠ numMemoryBlockPageShifts - 1 then memoryBlockPageShifts (i + 1) else 0)
  rng := rng

def getNumFreePages (h : KPageHeap R) : Nat :=
  ((List.range h.numBlocks).map fun i => (h.blocks i).getNumFreePages).sum

/-- Write back the blocks of one size. -/
def setBlock (h : KPageHeap R) (index : Nat) (b : Block R) : KPageHeap R :=
  { h with blocks := Function.update h.blocks index b }

/-- `FreeBlock` with a number of sizes to go. -/
def freeBlockLoop : Nat → KPageHeap R → Nat → Nat → Except PageFault (KPageHeap R)
  | 0, _, _, _ => .error .blockIndex
  | levels + 1, h, block, index => do
    let (next, b) ← (h.blocks index).pushBlock block
    let h := h.setBlock index b
    if next ≠ 0 then freeBlockLoop levels h next (index + 1) else .ok h

def freeBlock (h : KPageHeap R) (block index : Nat) : Except PageFault (KPageHeap R) :=
  freeBlockLoop (h.numBlocks - index) h block index

/-- Free consecutive blocks of one size upwards from an address. -/
def freeBlocksUp (blockSize index : Nat) :
    Nat → KPageHeap R → Nat → Except PageFault (KPageHeap R)
  | 0, h, _ => .ok h
  | count + 1, h, block => do
    let h ← h.freeBlock block index
    freeBlocksUp blockSize index count h (block + blockSize)

/-- Free consecutive blocks of one size downwards from an address. -/
def freeBlocksDown (blockSize index : Nat) :
    Nat → KPageHeap R → Nat → Except PageFault (KPageHeap R)
  | 0, h, _ => .ok h
  | count + 1, h, block => do
    let h ← h.freeBlock (block - blockSize) index
    freeBlocksDown blockSize index count h (block - blockSize)

/-- The search of `Free` for the largest size of which a whole block lies in the
range, among the sizes below an index: the size and the range of its blocks. -/
def findBigIndex (h : KPageHeap R) (start stop : Nat) : Nat → Option (Nat × Nat × Nat)
  | 0 => none
  | index + 1 =>
    let blockSize := (h.blocks index).getSize
    let bigStart := alignUp start blockSize
    let bigEnd := alignDown stop blockSize
    if bigStart < bigEnd then some (index, bigStart, bigEnd)
    else findBigIndex h start stop index

/-- The loop of `Free` over the space before the big blocks, from the sizes below
an index down.  The inner loop runs while a whole block fits. -/
def freeBefore : Nat → KPageHeap R → Nat → Nat → Except PageFault (KPageHeap R)
  | 0, h, _, _ => .ok h
  | index + 1, h, beforeStart, beforeEnd => do
    let blockSize := (h.blocks index).getSize
    let count := (beforeEnd - beforeStart) / blockSize
    let h ← freeBlocksDown blockSize index count h beforeEnd
    freeBefore index h beforeStart (beforeEnd - count * blockSize)

/-- The loop of `Free` over the space after the big blocks. -/
def freeAfter : Nat → KPageHeap R → Nat → Nat → Except PageFault (KPageHeap R)
  | 0, h, _, _ => .ok h
  | index + 1, h, afterStart, afterEnd => do
    let blockSize := (h.blocks index).getSize
    let count := (afterEnd - afterStart) / blockSize
    let h ← freeBlocksUp blockSize index count h afterStart
    freeAfter index h (afterStart + count * blockSize) afterEnd

def free (h : KPageHeap R) (addr numPages : Nat) : Except PageFault (KPageHeap R) :=
  if numPages = 0 then .ok h
  else
    let start := addr
    let stop := addr + numPages * pageSize
    match h.findBigIndex start stop h.numBlocks with
    | none => .error .freeAssertion
    | some (bigIndex, bigStart, bigEnd) => do
      let blockSize := (h.blocks bigIndex).getSize
      let h ← freeBlocksUp blockSize bigIndex ((bigEnd - bigStart) / blockSize) h bigStart
      let h ← freeBefore bigIndex h start bigStart
      freeAfter bigIndex h bigEnd stop

/-- A call of `Free` under a condition. -/
def freeWhen (h : KPageHeap R) (condition : Bool) (addr numPages : Nat) :
    Except PageFault (KPageHeap R) :=
  if condition then h.free addr numPages else .ok h

/-- `std::countr_zero` of a 64-bit value. -/
def countrZero (value : Nat) : Nat :=
  (BitVec.ofNat 64 value).ctz.toNat

section
variable (G : RandomSource R)

/-- The loop of `AllocateByLinearSearch` with a number of sizes to go. -/
def allocateByLinearSearchLoop (neededSize : Nat) :
    Nat → KPageHeap R → Nat → Except PageFault (Nat × KPageHeap R)
  | 0, h, _ => .ok (0, h)
  | levels + 1, h, i => do
    let (addr, b) ← (h.blocks i).popBlock G false
    let h := h.setBlock i b
    if addr ≠ 0 then
      let allocatedSize := (h.blocks i).getSize
      let h ← h.freeWhen (allocatedSize > neededSize) (addr + neededSize)
        ((allocatedSize - neededSize) / pageSize)
      .ok (addr, h)
    else allocateByLinearSearchLoop neededSize levels h (i + 1)

def allocateByLinearSearch (h : KPageHeap R) (index : Nat) : Except PageFault (Nat × KPageHeap R) :=
  allocateByLinearSearchLoop G (h.blocks index).getSize (h.numBlocks - index) h index

/-- The alignments possible inside the free blocks of one size. -/
def possibleAlignmentsAt (h : KPageHeap R) (neededSize alignShift i : Nat) : Nat :=
  (1 + ((h.blocks i).getSize - neededSize) / 2 ^ alignShift) * (h.blocks i).getNumFreeBlocks

/-- The first loop of `AllocateByRandom`: the possible alignments, and the index
behind the last size to look at. -/
def countAlignments (h : KPageHeap R) (neededSize alignShift : Nat) :
    Nat → Nat → Nat → Nat × Nat
  | 0, i, possibleAlignments => (possibleAlignments, i)
  | levels + 1, i, possibleAlignments =>
    let possibleAlignments :=
      possibleAlignments + h.possibleAlignmentsAt neededSize alignShift i
    if possibleAlignments ≥ 4 then (possibleAlignments, i + 1)
    else countAlignments h neededSize alignShift levels (i + 1) possibleAlignments

/-- The second loop of `AllocateByRandom`: the size that the random choice falls
on, or the index it started with. -/
def selectAlignment (h : KPageHeap R) (neededSize alignShift rnd index : Nat) :
    Nat → Nat → Nat → Nat
  | 0, _, _ => index
  | levels + 1, i, possibleAlignments =>
    let possibleAlignments :=
      possibleAlignments + h.possibleAlignmentsAt neededSize alignShift i
    if rnd < possibleAlignments then i
    else selectAlignment h neededSize alignShift rnd index levels (i + 1) possibleAlignments

/-- The part of `AllocateByRandom` that decides on a size to allocate from. -/
def chooseIndex (h : KPageHeap R) (index neededSize alignShift : Nat) : Nat × KPageHeap R :=
  let (possibleAlignments, maxBlocks) :=
    h.countAlignments neededSize alignShift (h.numBlocks - index) index 0
  if possibleAlignments > 0 ∧ index + 1 < maxBlocks then
    let (rnd, rng) := G.generateRandom h.rng possibleAlignments
    (h.selectAlignment neededSize alignShift rnd index (maxBlocks - index) index 0,
      { h with rng := rng })
  else (index, h)

/-- The part of `AllocateByRandom` that gives back what a block has too much. -/
def freeLeftover (h : KPageHeap R) (addr neededSize leftoverSize alignShift : Nat) :
    Except PageFault (Nat × KPageHeap R) := do
  let possibleAlignments := 1 + leftoverSize / 2 ^ alignShift
  let (rnd, rng) := G.generateRandom h.rng possibleAlignments
  let h := { h with rng := rng }
  let randomOffset := rnd * 2 ^ alignShift
  let h ← h.freeWhen (randomOffset ≠ 0) addr (randomOffset / pageSize)
  let addr := addr + randomOffset
  let h ← h.freeWhen (randomOffset ≠ leftoverSize) (addr + neededSize)
    ((leftoverSize - randomOffset) / pageSize)
  .ok (addr, h)

def allocateByRandom (h : KPageHeap R) (index numPages alignPages : Nat) :
    Except PageFault (Nat × KPageHeap R) := do
  let neededSize := numPages * pageSize
  let alignSize := alignPages * pageSize
  let alignShift := countrZero alignSize
  let (index, h) := h.chooseIndex G index neededSize alignShift
  let (addr, b) ← (h.blocks index).popBlock G true
  let h := h.setBlock index b
  if addr ≠ 0 then
    let leftoverSize := (h.blocks index).getSize - neededSize
    if leftoverSize > 0 then h.freeLeftover G addr neededSize leftoverSize alignShift
    else .ok (addr, h)
  else .ok (0, h)

def allocateBlock (h : KPageHeap R) (index : Nat) (random : Bool) :
    Except PageFault (Nat × KPageHeap R) :=
  if random then
    let blockPages := (h.blocks index).getNumPages
    h.allocateByRandom G index blockPages blockPages
  else h.allocateByLinearSearch G index

def allocateAligned (h : KPageHeap R) (index numPages alignPages : Nat) :
    Except PageFault (Nat × KPageHeap R) :=
  h.allocateByRandom G index numPages alignPages

end
end KPageHeap
end Drippu.Kernel
