import Drippu.Core.DeviceMemoryManager
import Drippu.Library.BitWords

/-!
# Video core - The memory manager of the GPU

The address space of the GPU has two page tables over the device address space, one for big pages
and one for small ones.  An entry of either is free, reserved (sparse) or mapped.  A big page that
is mapped also has a flag for being contiguous in the memory of the host, taken when it was mapped.

Addresses of single bytes are translated through both tables; block accesses walk over the big
pages and, where those are free, over the small pages under them.
-/

namespace Drippu.VideoCore.Gpu

open Library DeviceMemory Function

/-! ## Entries -/

inductive EntryType where
  | free
  | reserved
  | mapped
  deriving DecidableEq, Repr

namespace EntryType

def toBits : EntryType → BitVec 64
  | free => 0
  | reserved => 1
  | mapped => 2

/-- Three is no entry type; comparisons with it fail as for a free entry. -/
def ofBits (bits : BitVec 64) : EntryType :=
  if bits = 2 then mapped else if bits = 1 then reserved else free

end EntryType

variable (s : MemoryManager) (words : Nat → BitVec 64) (bits : Nat)

/-- Entries are two bits, 32 in a word. -/
def entryAt (index : Nat) : EntryType :=
  .ofBits ((words (index / 32) >>> (2 * (index % 32))) &&& 3#64)

def getEntry (position : Nat) : EntryType :=
  entryAt words (position / 2 ^ bits)

def setEntry (position : Nat) (entry : EntryType) : Nat → BitVec 64 :=
  let index := position / 2 ^ bits
  update words (index / 32)
    ((~~~(3#64 <<< (index % 32 * 2)) &&& words (index / 32)) |||
      (entry.toBits <<< (index % 32 * 2)))

/-! ## The state -/

/-- The arguments of the constructor.  Small pages are not larger than the pages of the device,
and big pages not smaller. -/
structure Config where
  addressSpaceBits : Nat
  bigPageBits : Nat
  pageBits : Nat
  pageBits_le : pageBits ≤ 12
  le_bigPageBits : 12 ≤ bigPageBits
  bigPageBits_le : bigPageBits ≤ addressSpaceBits

def cpuPageBits : Nat := 12

structure MemoryManager where
  entries : Nat → BitVec 64
  bigEntries : Nat → BitVec 64
  pageTable : Nat → BitVec 32
  bigPageTableDev : Nat → BitVec 32
  bigPageContinuous : Nat → BitVec 64

namespace MemoryManager

/-- The constructor. -/
def initial : MemoryManager := ⟨fun _ => 0, fun _ => 0, fun _ => 0, fun _ => 0, fun _ => 0⟩

end MemoryManager

variable (c : Config) (host : Host) (dev : Manager)

def pageEntryIndex (bits gpuAddr : Nat) : Nat :=
  gpuAddr / 2 ^ bits % 2 ^ (c.addressSpaceBits - bits)

def isBigPageContinuous (bigPageIndex : Nat) : Bool :=
  (s.bigPageContinuous (bigPageIndex / 64)).getLsbD (bigPageIndex % 64)

def setBigPageContinuous (bigPageIndex : Nat) (value : Bool) : MemoryManager :=
  { s with
    bigPageContinuous := update s.bigPageContinuous (bigPageIndex / 64)
      ((~~~(1#64 <<< (bigPageIndex % 64)) &&& s.bigPageContinuous (bigPageIndex / 64)) |||
        (if value then 1#64 <<< (bigPageIndex % 64) else 0#64)) }

/-! ## Mapping -/

/-- One round of `PageTableOp`. -/
def setPage (entry : EntryType) (gpuAddr devAddr : Nat) (s : MemoryManager) : MemoryManager :=
  { s with
    entries := setEntry s.entries c.pageBits gpuAddr entry
    pageTable :=
      if entry = .mapped then
        update s.pageTable (pageEntryIndex c c.pageBits gpuAddr)
          (BitVec.ofNat 32 (devAddr / 2 ^ cpuPageBits))
      else s.pageTable }

def pageTableLoop (entry : EntryType) :
    (rounds gpuAddr devAddr : Nat) → MemoryManager → MemoryManager
  | 0, _, _, s => s
  | rounds + 1, gpuAddr, devAddr, s =>
    pageTableLoop entry rounds (gpuAddr + 2 ^ c.pageBits) (devAddr + 2 ^ c.pageBits)
      (setPage c entry gpuAddr devAddr s)

/-- The number of rounds of a loop over a range. -/
def rounds (size : Nat) : Nat := (size + 2 ^ bits - 1) / 2 ^ bits

def pageTableOp (entry : EntryType) (gpuAddr devAddr size : Nat) (s : MemoryManager) :
    MemoryManager :=
  pageTableLoop c entry (rounds c.pageBits size) gpuAddr devAddr s

/-- The loop of the check for contiguity. -/
def continuousLoop : (rounds basePtr startCpu : Nat) → Bool
  | 0, _, _ => true
  | rounds + 1, basePtr, startCpu =>
    let basePtr := basePtr + 2 ^ c.pageBits
    let nextPtr := getPointer host dev startCpu
    if nextPtr = 0 ∨ basePtr ≠ nextPtr then false
    else continuousLoop rounds basePtr (startCpu + 2 ^ c.pageBits)

def isContinuous (devAddr : Nat) : Bool :=
  let basePtr := getPointer host dev devAddr
  if basePtr = 0 then false
  else
    continuousLoop c host dev (rounds c.pageBits (2 ^ c.bigPageBits - 2 ^ c.pageBits)) basePtr
      (devAddr + 2 ^ c.pageBits)

/-- One round of `BigPageTableOp`. -/
def setBigPage (entry : EntryType) (gpuAddr devAddr : Nat) (s : MemoryManager) : MemoryManager :=
  let s := { s with bigEntries := setEntry s.bigEntries c.bigPageBits gpuAddr entry }
  if entry = .mapped then
    let index := pageEntryIndex c c.bigPageBits gpuAddr
    setBigPageContinuous
      { s with
        bigPageTableDev := update s.bigPageTableDev index
          (BitVec.ofNat 32 (devAddr / 2 ^ cpuPageBits)) }
      index (isContinuous c host dev devAddr)
  else s

def bigPageTableLoop (entry : EntryType) :
    (rounds gpuAddr devAddr : Nat) → MemoryManager → MemoryManager
  | 0, _, _, s => s
  | rounds + 1, gpuAddr, devAddr, s =>
    bigPageTableLoop entry rounds (gpuAddr + 2 ^ c.bigPageBits) (devAddr + 2 ^ c.bigPageBits)
      (setBigPage c host dev entry gpuAddr devAddr s)

def bigPageTableOp (entry : EntryType) (gpuAddr devAddr size : Nat) (s : MemoryManager) :
    MemoryManager :=
  bigPageTableLoop c host dev entry (rounds c.bigPageBits size) gpuAddr devAddr s

def map (gpuAddr devAddr size : Nat) (isBigPages : Bool) (s : MemoryManager) : MemoryManager :=
  if isBigPages then bigPageTableOp c host dev .mapped gpuAddr devAddr size s
  else pageTableOp c .mapped gpuAddr devAddr size s

def mapSparse (gpuAddr size : Nat) (isBigPages : Bool) (s : MemoryManager) : MemoryManager :=
  if isBigPages then bigPageTableOp c host dev .reserved gpuAddr 0 size s
  else pageTableOp c .reserved gpuAddr 0 size s

def unmap (gpuAddr size : Nat) (s : MemoryManager) : MemoryManager :=
  if size = 0 then s
  else
    pageTableOp c .free gpuAddr 0 size (bigPageTableOp c host dev .free gpuAddr 0 size s)

/-! ## Translation -/

def gpuToCpuAddress (s : MemoryManager) (gpuAddr : Nat) : Option Nat :=
  if ¬ gpuAddr < 2 ^ c.addressSpaceBits then none
  else if getEntry s.bigEntries c.bigPageBits gpuAddr ≠ .mapped then
    if getEntry s.entries c.pageBits gpuAddr ≠ .mapped then none
    else
      some ((s.pageTable (pageEntryIndex c c.pageBits gpuAddr)).toNat * 2 ^ cpuPageBits +
        gpuAddr % 2 ^ c.pageBits)
  else
    some ((s.bigPageTableDev (pageEntryIndex c c.bigPageBits gpuAddr)).toNat * 2 ^ cpuPageBits +
      gpuAddr % 2 ^ c.bigPageBits)

/-! ## Blocks -/

/-- A step of a block access: bytes that are nowhere, bytes at a pointer, or an access of the
device memory. -/
inductive Segment where
  | nowhere (amount : Nat)
  | pointer (amount ptr : Nat)
  | device (amount devAddr : Nat)

/-- `memcpy` from or to a pointer; there is none behind null. -/
def atPointer (amount ptr : Nat) : Option (List Segment) :=
  if ptr = 0 then none else some [.pointer amount ptr]

/-- `MemoryOperation`: the handlers get the index of the page, the offset in it and the number
of bytes. -/
def memoryOperation (words : Nat → BitVec 64) (bits : Nat)
    (mapped reserved unmapped : Nat → Nat → Nat → Option (List Segment))
    (pageIndex : Nat) (pageOffset : Fin (2 ^ bits)) (currentAddress remaining : Nat) :
    Option (List Segment) :=
  if remaining = 0 then some []
  else do
    let amount := min (2 ^ bits - pageOffset.val) remaining
    let segments ←
      match getEntry words bits currentAddress with
      | .mapped => mapped pageIndex pageOffset amount
      | .reserved => reserved pageIndex pageOffset amount
      | .free => unmapped pageIndex pageOffset amount
    let rest ← memoryOperation words bits mapped reserved unmapped (pageIndex + 1)
      ⟨0, Nat.two_pow_pos bits⟩ (currentAddress + amount) (remaining - amount)
    return segments ++ rest
termination_by remaining
decreasing_by omega

def startOperation (mapped reserved unmapped : Nat → Nat → Nat → Option (List Segment))
    (addr size : Nat) : Option (List Segment) :=
  memoryOperation words bits mapped reserved unmapped (addr / 2 ^ bits)
    ⟨addr % 2 ^ bits, Nat.mod_lt _ (Nat.two_pow_pos bits)⟩ addr size

/-- `set_to_zero` and `just_advance`. -/
def skip (_pageIndex _offset amount : Nat) : Option (List Segment) := some [.nowhere amount]

def mappedNormal (s : MemoryManager) (pageIndex offset amount : Nat) : Option (List Segment) :=
  let devAddrBase := (s.pageTable pageIndex).toNat * 2 ^ cpuPageBits + offset
  atPointer amount (getPointer host dev devAddrBase)

def mappedBig (s : MemoryManager) (pageIndex offset amount : Nat) : Option (List Segment) :=
  let devAddrBase := (s.bigPageTableDev pageIndex).toNat * 2 ^ cpuPageBits + offset
  if ¬ isBigPageContinuous s pageIndex then some [.device amount devAddrBase]
  else atPointer amount (getPointer host dev devAddrBase)

/-- `read_short_pages` and `write_short_pages`. -/
def shortPages (s : MemoryManager) (pageIndex offset amount : Nat) : Option (List Segment) :=
  startOperation s.entries c.pageBits (mappedNormal host dev s) skip skip
    (pageIndex * 2 ^ c.bigPageBits + offset) amount

def blockSegments (s : MemoryManager) (addr size : Nat) : Option (List Segment) :=
  startOperation s.bigEntries c.bigPageBits (mappedBig host dev s) skip (shortPages c host dev s)
    addr size

/-- The reads of a block.  Reads of the device memory change its cache. -/
def readSegments (memory : Nat → UInt8) : Manager → List Segment → List UInt8
  | _, [] => []
  | dev, .nowhere amount :: segments => List.replicate amount 0 ++ readSegments memory dev segments
  | dev, .pointer amount ptr :: segments =>
    stretch memory ptr amount ++ readSegments memory dev segments
  | dev, .device amount devAddr :: segments =>
    let read := DeviceMemory.readBlock host memory dev devAddr amount
    read.1 ++ readSegments memory read.2 segments

/-- The writes of a block. -/
def writeSegments : (Nat → UInt8) → List Segment → List UInt8 → Nat → UInt8
  | memory, [], _ => memory
  | memory, .nowhere amount :: segments, src => writeSegments memory segments (src.drop amount)
  | memory, .pointer amount ptr :: segments, src =>
    writeSegments (copyTo memory ptr (src.take amount)) segments (src.drop amount)
  | memory, .device amount devAddr :: segments, src =>
    writeSegments (DeviceMemory.writeBlock host memory dev devAddr (src.take amount)) segments
      (src.drop amount)

def readBlock (s : MemoryManager) (memory : Nat → UInt8) (addr size : Nat) : Option (List UInt8) :=
  (blockSegments c host dev s addr size).map (readSegments host memory dev)

def writeBlock (s : MemoryManager) (memory : Nat → UInt8) (addr : Nat) (src : List UInt8) :
    Option (Nat → UInt8) :=
  (blockSegments c host dev s addr src.length).map fun segments =>
    writeSegments host dev memory segments src

end Drippu.VideoCore.Gpu
