import Drippu.Library.ByteStrings
import Drippu.Recomp.FastmemEquiv

/-!
# Core - Guest memory

The page table of a process and the accesses of the emulator through it.  A page of the table
holds the distance from the guest page to its host page, and a tag: the address at which the
call that mapped the page began.  `GetSpan` hands out a host pointer for a whole range when
the tags of its two end pages are equal.

Guest addresses are numbers; sums that the code forms in 64 bits are reduced.  Host pointers
are 64-bit words, with zero for null.
-/

namespace Drippu.Core

open Library
open RecompMemory (PageType PageInfo.store fmPtrMask)

def pageSize : Nat := 0x1000

/-! ## The page table -/

structure PageEntry where
  ptr : BitVec 64
  block : BitVec 64
  addr : BitVec 64
  deriving DecidableEq, Repr

/-- An entry of a table that has just been allocated. -/
def PageEntry.empty : PageEntry := ⟨0, 0, 0⟩

/-- `PageInfo::ExtractPointer`. -/
def PageEntry.pointer (entry : PageEntry) : BitVec 64 := entry.ptr &&& fmPtrMask

/-- `PageInfo::ExtractType`. -/
def PageEntry.type (entry : PageEntry) : PageType :=
  match (entry.ptr &&& 3#64).toNat with
  | 0 => .unmapped
  | 1 => .memory
  | 2 => .debugMemory
  | _ => .rasterizerCachedMemory

/-- A page table; the entries behind the address space are not used.  The address spaces of
the guest have at most 48 bits. -/
structure PageTable where
  addressSpaceBits : Nat
  entries : Nat → PageEntry
  bits_ge : 12 ≤ addressSpaceBits
  bits_le : addressSpaceBits ≤ 48

namespace PageTable

def pages (table : PageTable) : Nat := 2 ^ (table.addressSpaceBits - 12)

def resize (bits : Nat) (hge : 12 ≤ bits) (hle : bits ≤ 48) : PageTable :=
  ⟨bits, fun _ => .empty, hge, hle⟩

end PageTable

variable (device : DeviceMemory) (table : PageTable)

def addressSpaceContains (addr size : Nat) : Prop :=
  addr ≤ (addr + size) % 2 ^ 64 ∧ (addr + size) % 2 ^ 64 ≤ 2 ^ table.addressSpaceBits

instance (table : PageTable) (addr size : Nat) : Decidable (addressSpaceContains table addr size) :=
  inferInstanceAs (Decidable (_ ∧ _))

/-! ## Mapping -/

/-- The memory of the device, a buffer of the host that begins at a page. -/
structure DeviceMemory where
  backing : BitVec 64
  aligned : backing &&& 0xfff#64 = 0

def dramBase : BitVec 64 := 0x80000000#64

def DeviceMemory.getPointer (target : BitVec 64) : BitVec 64 :=
  device.backing + (target - dramBase)

/-- The address of a page. -/
def pageAddress (page : Nat) : BitVec 64 := BitVec.ofNat 64 (page * pageSize)

/-- The loop over the pages of a mapping. -/
def mapLoop (device : DeviceMemory) (type : PageType) (origBase : Nat) :
    (size base : Nat) → (target : BitVec 64) → (Nat → PageEntry) → Nat → PageEntry
  | 0, _, _, entries => entries
  | size + 1, base, target, entries =>
    let hostPtr := device.getPointer target - pageAddress base
    let backing := target - pageAddress base
    mapLoop device type origBase size (base + 1) (target + 0x1000#64) <|
      Function.update entries base
        { ptr := PageInfo.store hostPtr type, block := pageAddress origBase, addr := backing }

/-- The loop over the pages of a mapping without a target. -/
def unmapLoop (type : PageType) : (size base : Nat) → (Nat → PageEntry) → Nat → PageEntry
  | 0, _, entries => entries
  | size + 1, base, entries =>
    unmapLoop type size (base + 1) <|
      Function.update entries base { ptr := PageInfo.store 0 type, block := 0, addr := 0 }

/-- The base and the size count pages. -/
def mapPages (base size : Nat) (target : BitVec 64) (type : PageType) : PageTable :=
  { table with
    entries :=
      if target = 0 then unmapLoop type size base table.entries
      else mapLoop device type base size base target table.entries }

/-! ## Pointers -/

/-- The backing of a debug page or of a page the rasterizer has cached. -/
def getPointerFromBacking (vaddr : Nat) : BitVec 64 :=
  let paddr := (table.entries (vaddr / pageSize)).addr
  if paddr ≠ 0 then device.getPointer (paddr + BitVec.ofNat 64 vaddr) else 0

def getPointerFromDebugMemory := getPointerFromBacking

def getPointerFromRasterizerCachedMemory := getPointerFromBacking

def getPointerSilent (vaddr : Nat) : BitVec 64 :=
  let vaddr := vaddr % 2 ^ 48
  if addressSpaceContains table vaddr 1 then
    let entry := table.entries (vaddr / pageSize)
    if entry.pointer ≠ 0 then entry.pointer + BitVec.ofNat 64 vaddr
    else
      match entry.type with
      | .memory => 0
      | .debugMemory => getPointerFromDebugMemory device table vaddr
      | .rasterizerCachedMemory => getPointerFromRasterizerCachedMemory device table vaddr
      | .unmapped => 0
  else 0

/-- The end page is the one behind the last byte when the range ends with its page. -/
def getSpan (addr size : Nat) : BitVec 64 :=
  if (table.entries (addr / pageSize)).block =
      (table.entries ((addr + size) % 2 ^ 64 / pageSize)).block then
    getPointerSilent device table addr
  else 0

/-! ## Blocks -/

/-- A call of one of the handlers of a walk. -/
inductive Visit where
  | unmapped (offset amount vaddr : Nat)
  | memory (offset amount : Nat) (ptr : BitVec 64)
  | rasterizer (vaddr offset amount : Nat) (ptr : BitVec 64)
  deriving DecidableEq, Repr

/-- The handler called for one page. -/
def visitPage (offset amount vaddr : Nat) : Visit :=
  let entry := table.entries (vaddr / pageSize)
  match entry.type with
  | .unmapped => .unmapped offset amount vaddr
  | .memory => .memory offset amount (entry.pointer + BitVec.ofNat 64 vaddr)
  | .debugMemory => .memory offset amount (getPointerFromDebugMemory device table vaddr)
  | .rasterizerCachedMemory =>
    .rasterizer vaddr offset amount (getPointerFromRasterizerCachedMemory device table vaddr)

/-- The loop over the pages of a block. -/
def walkPages (device : DeviceMemory) (table : PageTable) (offset pageIndex : Nat)
    (pageOffset : Fin pageSize) (remaining : Nat) : List Visit :=
  if remaining = 0 then []
  else
    let amount := min (pageSize - pageOffset) remaining
    let vaddr := pageIndex * pageSize + pageOffset
    visitPage device table offset amount vaddr ::
      walkPages device table (offset + amount) (pageIndex + 1) ⟨0, by decide⟩ (remaining - amount)
termination_by remaining

/-- The offset of an address in its page. -/
def pageOffset (addr : Nat) : Fin pageSize := ⟨addr % pageSize, Nat.mod_lt _ (by decide)⟩

/-- The calls of the handlers, in order. -/
def walkBlock (addr size : Nat) : List Visit :=
  if addressSpaceContains table addr size then
    walkPages device table 0 (addr / pageSize) (pageOffset addr) size
  else [.unmapped 0 size addr]

/-- What a read puts into the buffer for one call; the offset of the call is the length of what
is there already. -/
def Visit.bytes (host : BitVec 64 → UInt8) : Visit → List UInt8
  | unmapped _ amount _ => List.replicate amount 0
  | memory _ amount ptr => stretch (fun i => host (ptr + BitVec.ofNat 64 i)) 0 amount
  | rasterizer _ _ amount ptr => stretch (fun i => host (ptr + BitVec.ofNat 64 i)) 0 amount

def readBlockImpl (host : BitVec 64 → UInt8) (addr size : Nat) : List UInt8 :=
  (walkBlock device table addr size).flatMap (Visit.bytes host)

end Drippu.Core
