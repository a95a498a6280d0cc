import Drippu.Library.Transition
import Drippu.VideoCore.WordManagerCounts

/-!
# Video core - The memory tracker

`MemoryTrackerBase` splits the addresses below 2^34 into regions of 4 MiB.  A region
gets a word manager when an operation first needs one.  The operations visit the regions
of a range of bytes in order.
-/

namespace Drippu.VideoCore

open Library

def maxCpuPageBits : Nat := 34

def higherPageBits : Nat := 22

def higherPageSize : Nat := 2 ^ higherPageBits

def numHighPages : Nat := 2 ^ (maxCpuPageBits - higherPageBits)

/-- A stretch of bytes in one region. -/
structure Region where
  index : Nat
  offset : Nat
  size : Nat
  deriving DecidableEq, Repr

/-- `topTier i` is the manager of region `i`, if it was created.  The calls of the
device tracker are recorded in `updates`. -/
structure MemoryTracker where
  topTier : Nat → Option WordManager
  cachedPages : List Nat
  updates : List Batch

namespace MemoryTracker

/-- A new tracker. -/
def empty : MemoryTracker where
  topTier _ := none
  cachedPages := []
  updates := []

/-! ## Regions -/

/-- The loop over the regions for at most `fuel` of them. -/
def regionsFrom : (fuel pageIndex pageOffset remainingSize : Nat) → List Region
  | 0, _, _, _ => []
  | fuel + 1, pageIndex, pageOffset, remainingSize =>
    if remainingSize = 0 then []
    else
      let copyAmount := min (higherPageSize - pageOffset) remainingSize
      ⟨pageIndex, pageOffset, copyAmount⟩ ::
        regionsFrom fuel (pageIndex + 1) 0 (remainingSize - copyAmount)

/-- The regions of a range of bytes.  Every turn takes at least one byte. -/
def regions (cpuAddress size : Nat) : List Region :=
  regionsFrom size (cpuAddress / higherPageSize) (cpuAddress % higherPageSize) size

variable (type : PageType) (create : Bool)

/-- The manager of a region, which is created on demand. -/
def getRegion (pageIndex : Nat) (manager : Option WordManager) : Option WordManager :=
  match manager with
  | some m => some m
  | none => if create then some (WordManager.new (pageIndex * higherPageSize)) else none

def store (t : MemoryTracker) (pageIndex : Nat) (m : WordManager) (batches : List Batch) :
    MemoryTracker :=
  { t with
    topTier := Function.update t.topTier pageIndex (some m)
    updates := t.updates ++ batches }

/-- What a visit of a region does: the manager afterwards, the ranges that are reported to
the caller and the calls of the device tracker. -/
structure Visit where
  manager : WordManager
  ranges : List (Nat × Nat)
  batches : List Batch

/-- One visit. -/
def visitRegion (f : WordManager → Nat → Nat → Visit) (st : MemoryTracker × List (Nat × Nat))
    (r : Region) : MemoryTracker × List (Nat × Nat) :=
  match getRegion create r.index (st.1.topTier r.index) with
  | none => st
  | some m =>
    let v := f m r.offset r.size
    (st.1.store r.index v.manager v.batches, st.2 ++ v.ranges)

/-- `IteratePages` with a function that returns nothing. -/
def iteratePages (f : WordManager → Nat → Nat → Visit) (t : MemoryTracker) (cpuAddress size : Nat) :
    MemoryTracker × List (Nat × Nat) :=
  (regions cpuAddress size).foldl (visitRegion create f) (t, [])

/-- `IteratePages` with a function that stops the loop. -/
def anyRegion (create : Bool) (f : WordManager → Nat → Nat → Bool) (t : MemoryTracker) :
    List Region → Bool × MemoryTracker
  | [] => (false, t)
  | r :: rs =>
    match getRegion create r.index (t.topTier r.index) with
    | none => anyRegion create f t rs
    | some m =>
      if f m r.offset r.size then (true, t.store r.index m [])
      else anyRegion create f (t.store r.index m []) rs

/-- One turn of `IteratePairs`. -/
def pairRegion (f : WordManager → Nat → Nat → Nat × Nat) (st : MemoryTracker × Nat × Nat)
    (r : Region) : MemoryTracker × Nat × Nat :=
  match getRegion create r.index (st.1.topTier r.index) with
  | none => st
  | some m =>
    let new := f m r.offset r.size
    let baseAddress := r.index * higherPageSize
    (st.1.store r.index m [],
      if new.1 ≠ 0 ∨ new.2 ≠ 0 then
        (min (new.1 + baseAddress) st.2.1, max (new.2 + baseAddress) st.2.2)
      else st.2)

def iteratePairs (f : WordManager → Nat → Nat → Nat × Nat) (t : MemoryTracker)
    (cpuAddress size : Nat) : (Nat × Nat) × MemoryTracker :=
  let r := (regions cpuAddress size).foldl (pairRegion create f) (t, 2 ^ 64 - 1, 0)
  (if r.2.1 < r.2.2 then r.2 else (0, 0), r.1)

/-! ## Queries -/

variable (t : MemoryTracker) (queryCpuAddr dirtyCpuAddr querySize : Nat)

def modifiedCpuRegion : (Nat × Nat) × MemoryTracker :=
  iteratePairs true (fun m => m.modifiedRegion .cpu) t queryCpuAddr querySize

def modifiedGpuRegion : (Nat × Nat) × MemoryTracker :=
  iteratePairs false (fun m => m.modifiedRegion .gpu) t queryCpuAddr querySize

def isRegionCpuModified : Bool × MemoryTracker :=
  anyRegion true (fun m => m.isRegionModified .cpu) t (regions queryCpuAddr querySize)

def isRegionGpuModified : Bool × MemoryTracker :=
  anyRegion false (fun m => m.isRegionModified .gpu) t (regions queryCpuAddr querySize)

def isRegionPreflushable : Bool × MemoryTracker :=
  anyRegion false (fun m => m.isRegionModified .preflushable) t (regions queryCpuAddr querySize)

/-! ## Changes -/

/-- A visit that changes the state of a type. -/
def changeVisit (enable : Bool) (m : WordManager) (offset size : Nat) : Visit :=
  let r := m.changeRegionState type enable (m.cpuAddr + offset) size
  ⟨r.1, [], r.2⟩

def changeRegions (type : PageType) (enable : Bool) : MemoryTracker :=
  (iteratePages true (changeVisit type enable) t dirtyCpuAddr querySize).1

def markRegionAsCpuModified : MemoryTracker :=
  t.changeRegions dirtyCpuAddr querySize .cpu true

def unmarkRegionAsCpuModified : MemoryTracker :=
  t.changeRegions dirtyCpuAddr querySize .cpu false

def markRegionAsGpuModified : MemoryTracker :=
  t.changeRegions dirtyCpuAddr querySize .gpu true

def markRegionAsPreflushable : MemoryTracker :=
  t.changeRegions dirtyCpuAddr querySize .preflushable true

def unmarkRegionAsGpuModified : MemoryTracker :=
  t.changeRegions dirtyCpuAddr querySize .gpu false

def unmarkRegionAsPreflushable : MemoryTracker :=
  t.changeRegions dirtyCpuAddr querySize .preflushable false

/-- `CachedCpuWrite` remembers the regions that it visits. -/
def cachedCpuWrite : MemoryTracker :=
  let t' := t.changeRegions dirtyCpuAddr querySize .cachedCpu true
  { t' with
    cachedPages := (regions dirtyCpuAddr querySize).foldl (fun pages r => pages.insert r.index)
      t'.cachedPages }

/-! ## Flushes and ranges -/

def flushVisit (m : WordManager) (_offset _size : Nat) : Visit :=
  let r := m.flushCachedWrites
  ⟨r.1, [], r.2⟩

/-- `FlushCachedWrites` of a range flushes the managers of its regions. -/
def flushCachedWritesIn : MemoryTracker :=
  (iteratePages false flushVisit t queryCpuAddr querySize).1

/-- `FlushCachedWrites` of everything flushes the remembered regions. -/
def flushCachedWrites : MemoryTracker :=
  let st := t.cachedPages.foldl (fun st i => visitRegion false flushVisit st ⟨i, 0, 0⟩) (t, [])
  { st.1 with cachedPages := [] }

def rangesVisit (clear : Bool) (m : WordManager) (offset size : Nat) : Visit :=
  let r := m.forEachModifiedRange type clear (m.cpuAddr + offset) size
  ⟨r.1, r.2.1, r.2.2⟩

/-- The ranges that the function is called with. -/
def forEachUploadRange : MemoryTracker × List (Nat × Nat) :=
  iteratePages true (rangesVisit .cpu true) t queryCpuAddr querySize

def forEachDownloadRange (clear : Bool) : MemoryTracker × List (Nat × Nat) :=
  iteratePages false (rangesVisit .gpu clear) t queryCpuAddr querySize

def forEachDownloadRangeAndClear : MemoryTracker × List (Nat × Nat) :=
  iteratePages false (rangesVisit .gpu true) t queryCpuAddr querySize

/-! ## Operations -/

inductive Op where
  | modifiedCpuRegion
  | modifiedGpuRegion
  | isRegionCpuModified
  | isRegionGpuModified
  | isRegionPreflushable
  | markRegionAsCpuModified
  | unmarkRegionAsCpuModified
  | markRegionAsGpuModified
  | markRegionAsPreflushable
  | unmarkRegionAsGpuModified
  | unmarkRegionAsPreflushable
  | cachedCpuWrite
  | flushCachedWritesIn
  | flushCachedWrites
  | forEachUploadRange
  | forEachDownloadRange (clear : Bool)
  | forEachDownloadRangeAndClear
  deriving DecidableEq, Repr

inductive Answer where
  | nothing
  | flag (b : Bool)
  | region (begin stop : Nat)
  | ranges (rs : List (Nat × Nat))
  deriving DecidableEq, Repr

/-- An operation on a range of bytes.  The flush of everything ignores the range. -/
def exec (t : MemoryTracker) (addr size : Nat) : Op → MemoryTracker × Answer
  | .modifiedCpuRegion =>
    let r := t.modifiedCpuRegion addr size
    (r.2, .region r.1.1 r.1.2)
  | .modifiedGpuRegion =>
    let r := t.modifiedGpuRegion addr size
    (r.2, .region r.1.1 r.1.2)
  | .isRegionCpuModified =>
    let r := t.isRegionCpuModified addr size
    (r.2, .flag r.1)
  | .isRegionGpuModified =>
    let r := t.isRegionGpuModified addr size
    (r.2, .flag r.1)
  | .isRegionPreflushable =>
    let r := t.isRegionPreflushable addr size
    (r.2, .flag r.1)
  | .markRegionAsCpuModified => (t.markRegionAsCpuModified addr size, .nothing)
  | .unmarkRegionAsCpuModified => (t.unmarkRegionAsCpuModified addr size, .nothing)
  | .markRegionAsGpuModified => (t.markRegionAsGpuModified addr size, .nothing)
  | .markRegionAsPreflushable => (t.markRegionAsPreflushable addr size, .nothing)
  | .unmarkRegionAsGpuModified => (t.unmarkRegionAsGpuModified addr size, .nothing)
  | .unmarkRegionAsPreflushable => (t.unmarkRegionAsPreflushable addr size, .nothing)
  | .cachedCpuWrite => (t.cachedCpuWrite addr size, .nothing)
  | .flushCachedWritesIn => (t.flushCachedWritesIn addr size, .nothing)
  | .flushCachedWrites => (t.flushCachedWrites, .nothing)
  | .forEachUploadRange =>
    let r := t.forEachUploadRange addr size
    (r.1, .ranges r.2)
  | .forEachDownloadRange clear =>
    let r := t.forEachDownloadRange addr size clear
    (r.1, .ranges r.2)
  | .forEachDownloadRangeAndClear =>
    let r := t.forEachDownloadRangeAndClear addr size
    (r.1, .ranges r.2)

/-- A new tracker and the operations on addresses below 2^34. -/
def system : TransitionSystem MemoryTracker where
  init t := t = empty
  step t t' := ∃ addr size op, addr + size ≤ 2 ^ maxCpuPageBits ∧ (t.exec addr size op).1 = t'

end MemoryTracker
end Drippu.VideoCore
