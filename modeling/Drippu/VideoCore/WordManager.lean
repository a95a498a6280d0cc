import Drippu.Library.BitWords
import Drippu.Library.Cuts
import Drippu.Library.Runs

/-!
# Video core - Word managers

A word manager keeps the state of the pages of a region of 4 MiB.  A page has a bit of each
type, and the bits of 64 pages form a word.  The operations go over the words of a byte
range with a mask of the pages that the range touches, edit the words with the mask and
report runs of pages: to a caller, or to the device tracker when pages become tracked or
untracked.

The source hands each word and mask to a function; `iterateWords` lists what it hands
over.  Each index occurs once, so that the loops are sweeps over the words.
-/

namespace Drippu.VideoCore

open Library Function

def pagesPerWord : Nat := 64

def bytesPerPage : Nat := 4096

def bytesPerWord : Nat := pagesPerWord * bytesPerPage

/-- `HIGHER_PAGE_SIZE`, the size that the memory tracker manages its regions with. -/
def sizeBytes : Nat := 2 ^ 22

def numWords : Nat := (sizeBytes + bytesPerWord - 1) / bytesPerWord

/-- `Type`. -/
inductive PageType where
  | cpu
  | gpu
  | cachedCpu
  | untracked
  | preflushable
  deriving DecidableEq, Repr

/-- The words of one index, one of each type. -/
abbrev Column := PageType → BitVec 64

/-- `words i t` is word `i` of the span of type `t`. -/
structure WordManager where
  words : Nat → Column
  cpuAddr : Nat

/-- Runs of bytes and what the device tracker adds to the count of their pages. -/
structure Batch where
  ranges : List (Nat × Nat)
  delta : Int
  deriving DecidableEq, Repr

namespace WordManager

/-- The last word of a new manager, without the bits behind its pages. -/
def lastWord : BitVec 64 :=
  let lastWordSize := sizeBytes % bytesPerWord
  let lastLocalPage := (lastWordSize + bytesPerPage - 1) / bytesPerPage
  let shift := (pagesPerWord - lastLocalPage) % pagesPerWord
  (BitVec.allOnes 64 <<< shift) >>> shift

/-- A new manager: every page is modified by the CPU and untracked. -/
def new (cpuAddr : Nat) : WordManager where
  words i
    | .cpu | .untracked => if i = numWords - 1 then lastWord else BitVec.allOnes 64
    | _ => 0#64
  cpuAddr := cpuAddr

/-! ## Iterations -/

def extractBits (word : BitVec 64) (pageStart pageEnd : Nat) : BitVec 64 :=
  let limitPageEnd := 64 - min pageEnd 64
  let bits := (word >>> pageStart) <<< pageStart
  (bits <<< limitPageEnd) >>> limitPageEnd

def getWordPage (address : Nat) : Nat × Nat :=
  (address / bytesPerWord, address % bytesPerWord / bytesPerPage)

/-- `max<s64>(s64(x), 0)`. -/
def signedClamp (x : Nat) : Nat :=
  if x % 2 ^ 64 < 2 ^ 63 then x % 2 ^ 64 else 0

/-- The loop over `n` words from `wordIndex` on. -/
def wordMasks : (n wordIndex startPage endPage : Nat) → List (Nat × BitVec 64)
  | 0, _, _, _ => []
  | n + 1, wordIndex, startPage, endPage =>
    (wordIndex, extractBits (BitVec.allOnes 64) startPage endPage) ::
      wordMasks n (wordIndex + 1) 0 (endPage - pagesPerWord)

/-- `IterateWords`: the words that a range of bytes touches, with a mask of the touched
pages. -/
def iterateWords (offset size : Nat) : List (Nat × BitVec 64) :=
  let start := signedClamp offset
  let stop := signedClamp (offset + size)
  if sizeBytes ≤ start ∨ stop ≤ start then []
  else
    let (startWord, startPage) := getWordPage start
    let (endWord, endPage) := getWordPage (stop + bytesPerPage - 1)
    let startWord := min startWord numWords
    let endWord := min endWord numWords
    let diff := endWord - startWord
    let lastWord := min (endWord + (endPage + pagesPerWord - 1) / pagesPerWord) numWords
    wordMasks (lastWord - startWord) startWord startPage (endPage + diff * pagesPerWord)

def countrZero (mask : BitVec 64) : Nat :=
  scan (fun i => !mask.getLsbD i) 64 0

def countrOne (mask : BitVec 64) : Nat :=
  scan (fun i => mask.getLsbD i) 64 0

def countlZero (mask : BitVec 64) : Nat :=
  scan (fun i => !mask.getLsbD (63 - i)) 64 0

/-- The loop of `IteratePages` for at most `fuel` runs. -/
def iteratePagesFrom : (fuel : Nat) → (mask : BitVec 64) → (offset : Nat) → List (Nat × Nat)
  | 0, _, _ => []
  | fuel + 1, mask, offset =>
    if mask = 0#64 then []
    else
      let emptyBits := countrZero mask
      let start := offset + emptyBits
      let shifted := mask >>> emptyBits
      let continuousBits := countrOne shifted
      let rest := if continuousBits < pagesPerWord then shifted >>> continuousBits else 0#64
      (start, continuousBits) :: iteratePagesFrom fuel rest (start + continuousBits)

/-- `IteratePages`: the runs of ones in a word.  A run has at least one page, so that a
word has at most 64. -/
def iteratePages (mask : BitVec 64) : List (Nat × Nat) :=
  iteratePagesFrom 64 mask 0

/-! ## The device tracker -/

variable (m : WordManager) (type : PageType)

/-- `CollectChangedRanges`: the runs of the pages whose tracking changes. -/
def collectChangedRanges (addToTracker : Bool) (wordIndex : Nat) (currentBits newBits : BitVec 64) :
    List (Nat × Nat) :=
  let changedBits := (if addToTracker then currentBits else ~~~currentBits) &&& newBits
  let addr := m.cpuAddr + wordIndex * bytesPerWord
  (iteratePages changedBits).map (Runs.place addr bytesPerPage)

/-- `ApplyCollectedRanges`: the runs are sorted, coalesced and handed to the device
tracker. -/
def applyCollectedRanges (ranges : List (Nat × Nat)) (delta : Int) : List Batch :=
  if ranges.isEmpty then []
  else [⟨Runs.coalesce (ranges.mergeSort fun a b => a.1 ≤ b.1), delta⟩]

/-! ## Operations -/

/-- The types whose changes the device tracker is told about. -/
def tracked : PageType → Bool
  | .cpu | .cachedCpu => true
  | _ => false

/-- The assignments of `ChangeRegionState` to the words of one index. -/
def changeColumn (enable : Bool) (mask : BitVec 64) (c : Column) : Column :=
  if enable then
    let c := update c type (c type ||| mask)
    let c := if tracked type then update c .untracked (c .untracked ||| mask) else c
    if type = .cpu then update c .cachedCpu (c .cachedCpu &&& ~~~mask) else c
  else
    let c := if type = .cpu then
        update c .cachedCpu (c .cachedCpu &&& ~~~(c type &&& mask))
      else c
    let c := update c type (c type &&& ~~~mask)
    if tracked type then update c .untracked (c .untracked &&& ~~~mask) else c

def changeRegionState (enable : Bool) (dirtyAddr size : Nat) : WordManager × List Batch :=
  let r := sweep Prod.fst (fun w c => changeColumn type enable w.2 c)
    (fun w c ranges => if tracked type then
        ranges ++ m.collectChangedRanges (!enable) w.1 (c .untracked) w.2
      else ranges)
    (iterateWords (dirtyAddr - m.cpuAddr) size) m.words []
  ({ m with words := r.1 }, applyCollectedRanges r.2 (if enable then -1 else 1))

/-- The mask of the pages that an operation looks at: pages that are modified by the GPU
count when they are tracked. -/
def pageMask (mask : BitVec 64) (c : Column) : BitVec 64 :=
  if type = .gpu then mask &&& ~~~(c .untracked) else mask

/-- The assignments of `ForEachModifiedRange` to the words of one index. -/
def clearColumn (mask : BitVec 64) (c : Column) : Column :=
  let word := c type &&& mask
  let c := update c type (c type &&& ~~~mask)
  let c := if tracked type then update c .untracked (c .untracked &&& ~~~mask) else c
  if type = .cpu then update c .cachedCpu (c .cachedCpu &&& ~~~word) else c

/-- The pending run of `ForEachModifiedRange` as offset and pointer, and the calls of
the function. -/
structure Reports where
  pending : Option (Nat × Nat)
  calls : List (Nat × Nat)

/-- The call of the function for a pending run. -/
def release (pending : Nat × Nat) : Nat × Nat :=
  (m.cpuAddr + pending.1 * bytesPerPage, (pending.2 - pending.1) * bytesPerPage)

/-- The calls in the end. -/
def releaseAll (r : Reports) : List (Nat × Nat) :=
  r.calls ++ (r.pending.map m.release).toList

/-- One run of pages. -/
def reportPages (baseOffset : Nat) (r : Reports) (pages : Nat × Nat) : Reports :=
  match r.pending with
  | none => ⟨some (baseOffset + pages.1, baseOffset + pages.1 + pages.2), r.calls⟩
  | some pending =>
    if pending.2 = baseOffset + pages.1 then ⟨some (pending.1, pending.2 + pages.2), r.calls⟩
    else
      ⟨some (baseOffset + pages.1, baseOffset + pages.1 + pages.2), r.calls ++ [m.release pending]⟩

/-- `ForEachModifiedRange`: the manager afterwards, the calls of the function and the
calls of the device tracker. -/
def forEachModifiedRange (clear : Bool) (queryCpuRange size : Nat) :
    WordManager × List (Nat × Nat) × List Batch :=
  let r := sweep Prod.fst
    (fun w c => if clear then clearColumn type (pageMask type w.2 c) c else c)
    (fun w c acc =>
      let mask := pageMask type w.2 c
      ((iteratePages (c type &&& mask)).foldl (m.reportPages (w.1 * pagesPerWord)) acc.1,
        if clear && tracked type then
          acc.2 ++ m.collectChangedRanges true w.1 (c .untracked) mask
        else acc.2))
    (iterateWords (queryCpuRange - m.cpuAddr) size) m.words (⟨none, []⟩, [])
  ({ m with words := r.1 }, m.releaseAll r.2.1, applyCollectedRanges r.2.2 1)

def isRegionModified (offset size : Nat) : Bool :=
  (iterateWords offset size).any fun w =>
    m.words w.1 type &&& pageMask type w.2 (m.words w.1) != 0#64

/-- `ModifiedRegion`.  The begin starts at the largest number. -/
def modifiedRegion (offset size : Nat) : Nat × Nat :=
  let r := (iterateWords offset size).foldl (fun r w =>
    let word := m.words w.1 type &&& pageMask type w.2 (m.words w.1)
    if word ≠ 0#64 then
      let localPageBegin := countrZero word
      let localPageEnd := pagesPerWord - countlZero word
      let pageIndex := w.1 * pagesPerWord
      (min r.1 (pageIndex + localPageBegin), pageIndex + localPageEnd)
    else r) (2 ^ 64 - 1, 0)
  if r.1 < r.2 then (r.1 * bytesPerPage, r.2 * bytesPerPage) else (0, 0)

/-- The assignments of `FlushCachedWrites` to the words of one index. -/
def flushColumn (c : Column) : Column :=
  let cachedBits := c .cachedCpu
  let c := update c .untracked (c .untracked ||| cachedBits)
  let c := update c .cpu (c .cpu ||| cachedBits)
  update c .cachedCpu 0#64

def flushCachedWrites : WordManager × List Batch :=
  let r := sweep id (fun _ c => flushColumn c)
    (fun i c ranges => ranges ++ m.collectChangedRanges false i (c .untracked) (c .cachedCpu))
    (List.range numWords) m.words []
  ({ m with words := r.1 }, applyCollectedRanges r.2 (-1))

end WordManager
end Drippu.VideoCore
