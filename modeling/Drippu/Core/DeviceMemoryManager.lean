import Drippu.Library.Translated

/-!
# Core - The device memory manager

The pages of the device address space are mapped to pages of the memory of the host, taken from
the page table of a process.  Beside the translation a page has a continuity count: how many
pages from it on were contiguous in the memory of the process when the count was written.  Spans
and block accesses use the count to go over several pages at once.

Host pointers are numbers, with zero for null; the memory of the device is one buffer of the
host.  What a process has mapped is seen through `GetPointerSilent`, and can be different at
each call.
-/

namespace Drippu.DeviceMemory

open Library Function

def pageSize : Nat := 0x1000

/-! ## The host -/

/-- Where the buffer of the host begins.  It is not at the ends of the address space. -/
structure Host where
  physicalBase : Nat
  base_gt : pageSize < physicalBase
  base_lt : physicalBase + 2 ^ 33 + pageSize ≤ 2 ^ 64

/-- The pointers a process has for its addresses: null, or into the buffer. -/
structure ProcessMemory (host : Host) where
  getPointerSilent : Nat → Nat
  in_buffer : ∀ vaddr, getPointerSilent vaddr ≠ 0 →
    host.physicalBase ≤ getPointerSilent vaddr ∧ getPointerSilent vaddr < host.physicalBase + 2 ^ 33

/-! ## The state -/

/-- An entry without its back reference to the process. -/
structure TrackedEntry where
  continuityTracker : Nat
  compressedPhysicalPtr : Nat
  tracker_pos : 0 < continuityTracker

/-- A slot of the translation cache; the pointer is null when the slot is not used. -/
structure TranslationEntry where
  guestPage : Nat
  hostPtr : Nat
  deriving DecidableEq, Repr

structure Manager where
  trackedEntries : Nat → TrackedEntry
  tSlot : Fin 4 → TranslationEntry
  cacheCursor : Fin 4

namespace Manager

def noSlots : Fin 4 → TranslationEntry := fun _ => ⟨0, 0⟩

/-- The constructor. -/
def initial : Manager where
  trackedEntries _ := ⟨1, 0, Nat.one_pos⟩
  tSlot := noSlots
  cacheCursor := 0

end Manager

/-- The pages of a range. -/
def startPage (address : Nat) : Nat := address / pageSize

def numPages (size : Nat) : Nat := (size + pageSize - 1) / pageSize

def setPhysical (entries : Nat → TrackedEntry) (page physAddr : Nat) : Nat → TrackedEntry :=
  update entries page { entries page with compressedPhysicalPtr := physAddr }

section
variable {host : Host}

/-! ## Mapping -/

/-- The number of a page of the buffer, from one on; zero for null. -/
def physicalPage (host : Host) (ptr : Nat) : Nat :=
  if ptr = 0 then 0 else (ptr - host.physicalBase) / pageSize % 2 ^ 32 + 1

/-- The loop of `Map` over the pages. -/
def mapLoop (process : ProcessMemory host) :
    (pages page vaddress : Nat) → (Nat → TrackedEntry) → Nat → TrackedEntry
  | 0, _, _, entries => entries
  | pages + 1, page, vaddress, entries =>
    mapLoop process pages (page + 1) (vaddress + pageSize) <|
      setPhysical entries page (physicalPage host (process.getPointerSilent vaddress))

/-- The loop of `TrackContinuityImpl`, from the last page to the first. -/
def trackLoop (process : ProcessMemory host) (startPage virtualAddress : Nat) :
    (pages lastPtr pageCount : Nat) → (Nat → TrackedEntry) → Nat → TrackedEntry
  | 0, _, _, entries => entries
  | index + 1, lastPtr, pageCount, entries =>
    let newPtr := process.getPointerSilent (virtualAddress + index * pageSize)
    let count := if (newPtr + pageSize) % 2 ^ 64 = lastPtr then pageCount + 1 else 1
    have hcount : 0 < count := by
      dsimp only [count]
      split <;> omega
    trackLoop process startPage virtualAddress index newPtr count <|
      update entries (startPage + index)
        { entries (startPage + index) with continuityTracker := count, tracker_pos := hcount }

def trackContinuity (process : ProcessMemory host) (address virtualAddress size : Nat)
    (m : Manager) : Manager :=
  { m with
    trackedEntries :=
      trackLoop process (startPage address) virtualAddress (numPages size) 0 1 m.trackedEntries }

def map (process : ProcessMemory host) (address virtualAddress size : Nat) (track : Bool)
    (m : Manager) : Manager :=
  let mapped : Manager :=
    { m with
      trackedEntries :=
        mapLoop process (numPages size) (startPage address) virtualAddress m.trackedEntries
      tSlot := Manager.noSlots }
  if track then trackContinuity process address virtualAddress size mapped else mapped

def unmapLoop : (pages page : Nat) → (Nat → TrackedEntry) → Nat → TrackedEntry
  | 0, _, entries => entries
  | pages + 1, page, entries => unmapLoop pages (page + 1) (setPhysical entries page 0)

def unmap (address size : Nat) (m : Manager) : Manager :=
  { m with
    trackedEntries := unmapLoop (numPages size) (startPage address) m.trackedEntries
    tSlot := Manager.noSlots }

end

/-! ## Access -/

variable (host : Host)

/-- `GetPointerFromRaw` of an offset in a page. -/
def pagePointer (physAddr offset : Nat) : Nat :=
  host.physicalBase + ((physAddr - 1) * pageSize + offset)

def getPointer (m : Manager) (address : Nat) : Nat :=
  let physAddr := (m.trackedEntries (address / pageSize)).compressedPhysicalPtr
  if physAddr = 0 then 0 else pagePointer host physAddr (address % pageSize)

def getSpan (m : Manager) (srcAddr size : Nat) : Nat :=
  let pageIndex := srcAddr / pageSize
  let subbits := srcAddr % pageSize
  if (m.trackedEntries pageIndex).continuityTracker * pageSize ≥ size + subbits then
    getPointer host m srcAddr
  else 0

/-- The loop over the runs of a block.  A piece is a call of the handler for unmapped pages or
of the one for memory. -/
def walkPages (m : Manager) (pageIndex : Nat) (pageOffset : Fin pageSize) (remaining : Nat) :
    List Piece :=
  if remaining = 0 then []
  else
    let entry := m.trackedEntries pageIndex
    let nextPages := entry.continuityTracker
    let amount := min (nextPages * pageSize - pageOffset) remaining
    let piece : Piece :=
      if entry.compressedPhysicalPtr = 0 then .hole amount
      else .stretch amount (pagePointer host entry.compressedPhysicalPtr pageOffset)
    piece :: walkPages m (pageIndex + nextPages) ⟨0, by decide⟩ (remaining - amount)
termination_by remaining
decreasing_by
  have hpos := (m.trackedEntries pageIndex).tracker_pos
  have hmul : pageSize ≤ (m.trackedEntries pageIndex).continuityTracker * pageSize :=
    Nat.le_mul_of_pos_left _ hpos
  omega

def walkBlock (m : Manager) (addr size : Nat) : List Piece :=
  walkPages host m (addr / pageSize) ⟨addr % pageSize, Nat.mod_lt _ (by decide)⟩ size

/-- The slot that caches a page. -/
def findSlot (m : Manager) (guestPage : Nat) : Option TranslationEntry :=
  (List.finRange 4).findSome? fun i =>
    if (m.tSlot i).guestPage = guestPage ∧ (m.tSlot i).hostPtr ≠ 0 then some (m.tSlot i) else none

/-- A read inside one page goes through the cache and fills it. -/
def readBlock (memory : Nat → UInt8) (m : Manager) (address size : Nat) : List UInt8 × Manager :=
  let pageOffset := address % pageSize
  let guestPage := address / pageSize * pageSize
  let walk := ((walkBlock host m address size).flatMap (Piece.bytes memory), m)
  if size ≤ pageSize - pageOffset then
    match findSlot m guestPage with
    | some slot => (stretch memory (slot.hostPtr + pageOffset) size, m)
    | none =>
      let physAddr := (m.trackedEntries (address / pageSize)).compressedPhysicalPtr
      if physAddr ≠ 0 then
        let memPtr := pagePointer host physAddr 0
        (stretch memory (memPtr + pageOffset) size,
          { m with
            tSlot := update m.tSlot m.cacheCursor ⟨guestPage, memPtr⟩
            cacheCursor := m.cacheCursor + 1 })
      else walk
  else walk

def writeBlock (memory : Nat → UInt8) (m : Manager) (address : Nat) (src : List UInt8) :
    Nat → UInt8 :=
  writePieces memory (walkBlock host m address src.length) src

end Drippu.DeviceMemory
