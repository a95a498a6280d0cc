import Drippu.Library.Bisection

/-!
# File system - Bucket trees

The index structure of patched and compressed storages.  A file of nodes holds one node of the
first level and, for large trees, nodes of the second level; a file of entry sets holds the
entries, sorted by their virtual offset, which is the first field of an entry.  A visitor is
placed on an entry by a lookup and then moved forward and backward.

Buffers are functions from positions to bytes.  What lies behind the end of an allocation is never
looked at: the counts in the headers are checked against the node size first.

Results of the source are the constructors of `Error`; a signed overflow, which the language
leaves undefined, is one more.
-/

namespace Drippu.FileSys

open Library

/-! ## Bytes -/

abbrev Buffer := Nat → UInt8

namespace Buffer

/-- The number in `size` bytes, the least significant first. -/
def leNat (b : Buffer) : (size pos : Nat) → Nat
  | 0, _ => 0
  | size + 1, pos => (b pos).toNat + 256 * leNat b size (pos + 1)

def s32At (b : Buffer) (pos : Nat) : Int := (BitVec.ofNat 32 (b.leNat 4 pos)).toInt

def s64At (b : Buffer) (pos : Nat) : Int := (BitVec.ofNat 64 (b.leNat 8 pos)).toInt

/-- `memcpy` of `size` bytes that start at `pos`. -/
def copyFrom (dst src : Buffer) (size pos : Nat) : Buffer :=
  fun i => if i < size then src (pos + i) else dst i

/-- A vector of value-initialised bytes. -/
def zeros : Buffer := fun _ => 0

end Buffer

structure VirtualFile where
  size : Nat
  byte : Buffer

namespace VirtualFile

/-- `Read`: what is behind the end of the file leaves the buffer as it was. -/
def read (file : VirtualFile) (data : Buffer) (length offset : Nat) : Buffer :=
  fun i => if i < length ∧ offset + i < file.size then file.byte (offset + i) else data i

end VirtualFile

/-! ## Headers -/

namespace BucketTree

inductive Error where
  | invalidBucketTreeSignature
  | invalidBucketTreeEntryCount
  | unsupportedVersion
  | invalidBucketTreeNodeIndex
  | invalidSize
  | invalidBucketTreeNodeEntryCount
  | invalidBucketTreeNodeOffset
  | invalidBucketTreeEntryOffset
  | invalidBucketTreeEntrySetOffset
  | invalidBucketTreeVirtualOffset
  | invalidArgument
  | invalidOffset
  | outOfRange
  | signedOverflow
  deriving DecidableEq, Repr

/-- `MakeMagic('B', 'K', 'T', 'R')`. -/
def magic : Nat := 0x52544B42

def version : Nat := 1

def nodeSizeMax : Nat := 512 * 1024

def nodeHeaderSize : Nat := 0x10

/-- The size of the union of a node header with the first offset of an entry set. -/
def entrySetHeaderSize : Nat := 0x18

structure Header where
  magic : Nat
  version : Nat
  entryCount : Int

def Header.verify (h : Header) : Except Error Unit :=
  if h.magic ≠ BucketTree.magic then .error .invalidBucketTreeSignature
  else if ¬ 0 ≤ h.entryCount then .error .invalidBucketTreeEntryCount
  else if ¬ h.version ≤ BucketTree.version then .error .unsupportedVersion
  else .ok ()

end BucketTree

/-! The header at the start of a node or an entry set, and the offsets behind it. -/

namespace Buffer

variable (b : Buffer)

def index : Int := b.s32At 0

def count : Int := b.s32At 4

/-- `offset` of a node header, `end` of an entry set. -/
def endOffset : Int := b.s64At 8

/-- `GetBegin()[i]` of a node. -/
def offsetAt (i : Nat) : Int := b.s64At (BucketTree.nodeHeaderSize + i * 8)

/-- `GetBeginOffset` of a node, `start` of an entry set. -/
def beginOffset : Int := b.offsetAt 0

end Buffer

namespace BucketTree

def verifyNode (b : Buffer) (nodeIndex : Int) (nodeSize entrySize : Nat) : Except Error Unit :=
  if b.index ≠ nodeIndex then .error .invalidBucketTreeNodeIndex
  else if ¬ (entrySize ≠ 0 ∧ entrySize + nodeHeaderSize ≤ nodeSize) then .error .invalidSize
  else if ¬ (0 < b.count ∧ b.count ≤ ((nodeSize - nodeHeaderSize) / entrySize : Nat)) then
    .error .invalidBucketTreeNodeEntryCount
  else if ¬ 0 ≤ b.endOffset then .error .invalidBucketTreeNodeOffset
  else .ok ()

/-! ## Counts -/

/-- The result of an operation on `s32`. -/
def s32 (x : Int) : Except Error Int :=
  if -2 ^ 31 ≤ x ∧ x < 2 ^ 31 then .ok x else .error .signedOverflow

/-- `static_cast<s32>`. -/
def toS32 (n : Nat) : Int := (BitVec.ofNat 32 n).toInt

def divideUp (x y : Int) : Except Error Int := do
  let dividend ← s32 (x + (y - 1))
  return dividend.tdiv y

variable (nodeSize entrySize : Nat)

def getEntryCount : Int :=
  toS32 ((nodeSize - nodeHeaderSize) / entrySize)

def getOffsetCount : Int :=
  toS32 ((nodeSize - nodeHeaderSize) / 8)

def getEntrySetCount (entryCount : Int) : Except Error Int :=
  divideUp entryCount (getEntryCount nodeSize entrySize)

end BucketTree

/-! ## Trees -/

structure Offsets where
  startOffset : Int
  endOffset : Int

structure BucketTree where
  nodeStorage : VirtualFile
  entryStorage : VirtualFile
  nodeL1 : Buffer
  nodeSize : Nat
  entrySize : Nat
  entryCount : Int
  offsetCount : Int
  entrySetCount : Int
  /-- `none` while `is_initialized` is false. -/
  offsetCache : Option Offsets

namespace BucketTree

/-- The offsets of the first level, as `Initialize` and `EnsureOffsetCache` check
them. -/
def loadOffsets (node : Buffer) (offsetCount entrySetCount : Int) : Except Error Offsets :=
  let startOffset :=
    if offsetCount < entrySetCount ∧ node.count < offsetCount then
      node.offsetAt node.count.toNat
    else
      node.offsetAt 0
  let endOffset := node.endOffset
  if ¬ (0 ≤ startOffset ∧ startOffset ≤ node.beginOffset) then
    .error .invalidBucketTreeEntryOffset
  else if ¬ startOffset < endOffset then .error .invalidBucketTreeEntryOffset
  else .ok ⟨startOffset, endOffset⟩

/-- `Initialize`; `fresh` is what the allocation of the node holds. -/
def initializeTree (fresh : Buffer) (nodeStorage entryStorage : VirtualFile)
    (nodeSize entrySize : Nat) (entryCount : Int) : Except Error BucketTree := do
  if ¬ 0 < entryCount then
    throw .invalidArgument
  let nodeL1 := nodeStorage.read fresh nodeSize 0
  verifyNode nodeL1 0 nodeSize 8
  let offsetCount := getOffsetCount nodeSize
  let entrySetCount ← getEntrySetCount nodeSize entrySize entryCount
  let offsets ← loadOffsets nodeL1 offsetCount entrySetCount
  return { nodeStorage, entryStorage, nodeL1, nodeSize, entrySize, entryCount, offsetCount,
           entrySetCount, offsetCache := some offsets }

variable (t : BucketTree)

def isEmpty : Bool := t.entrySize = 0

def isExistL2 : Bool := t.offsetCount < t.entrySetCount

def isExistOffsetL2OnL1 : Bool := t.isExistL2 && t.nodeL1.count < t.offsetCount

def getEntrySetIndex (nodeIndex offsetIndex : Int) : Except Error Int := do
  let onL1 ← s32 (t.offsetCount - t.nodeL1.count)
  let before ← s32 (t.offsetCount * nodeIndex)
  let first ← s32 (onL1 + before)
  s32 (first + offsetIndex)

def invalidateCache : BucketTree := { t with offsetCache := none }

def ensureOffsetCache : Except Error Unit × BucketTree :=
  match t.offsetCache with
  | some _ => (.ok (), t)
  | none =>
    let t := { t with nodeL1 := t.nodeStorage.read t.nodeL1 t.nodeSize 0 }
    match verifyNode t.nodeL1 0 t.nodeSize 8 with
    | .error e => (.error e, t)
    | .ok () =>
      match loadOffsets t.nodeL1 t.offsetCount t.entrySetCount with
      | .error e => (.error e, t)
      | .ok offsets => (.ok (), { t with offsetCache := some offsets })

/-! ## Lookup -/

/-- `StorageNode::Find` and `GetIndex`: the halving runs over the offsets that start the
elements of a node. -/
def storageNodeFind (b : Buffer) (elementSize : Nat) (count virtualAddress : Int) : Int :=
  bisect (fun i => b.s64At (nodeHeaderSize + i * elementSize)) virtualAddress 0 count.toNat - 1

/-- `FindEntrySetWithBuffer`. -/
def findEntrySet (virtualAddress : Int) (nodeIndex : Nat) : Except Error Int := do
  let buffer := t.nodeStorage.read .zeros t.nodeSize ((nodeIndex + 1) * t.nodeSize)
  verifyNode buffer nodeIndex t.nodeSize 8
  let index := storageNodeFind buffer 8 buffer.count virtualAddress
  if ¬ 0 ≤ index then
    throw .invalidBucketTreeVirtualOffset
  t.getEntrySetIndex buffer.index index

/-- The part of `Visitor::Find` that leads to an entry set. -/
def findEntrySetIndex (virtualAddress : Int) : Except Error Int :=
  let node := t.nodeL1
  let count := node.count.toNat
  if t.isExistOffsetL2OnL1 ∧ virtualAddress < node.beginOffset then
    let pos := bisect node.offsetAt virtualAddress count (t.offsetCount.toNat - count)
    if ¬ count < pos then .error .outOfRange
    else .ok (pos - 1 - count : Nat)
  else
    let pos := bisect node.offsetAt virtualAddress 0 count
    if ¬ 0 < pos then .error .outOfRange
    else if t.isExistL2 then
      let nodeIndex := pos - 1
      if ¬ (nodeIndex : Int) < t.offsetCount then .error .invalidBucketTreeNodeOffset
      else t.findEntrySet virtualAddress nodeIndex
    else .ok (pos - 1 : Nat)

end BucketTree

/-! ## Visitors -/

structure Visitor where
  entry : Buffer
  entryIndex : Int
  entrySetCount : Int
  entrySet : Buffer

namespace Visitor

open BucketTree

/-- `Visitor()`, once it has an allocation for an entry. -/
def new (fresh : Buffer) : Visitor := ⟨fresh, -1, 0, .zeros⟩

variable (t : BucketTree) (v : Visitor)

def isValid : Bool := 0 ≤ v.entryIndex

/-- `FindEntryWithBuffer`. -/
def findEntry (virtualAddress : Int) (entrySetIndex : Nat) : Except Error Unit × Visitor :=
  let buffer := t.entryStorage.read .zeros t.nodeSize (entrySetIndex * t.nodeSize)
  match verifyNode buffer entrySetIndex t.nodeSize t.entrySize with
  | .error e => (.error e, v)
  | .ok () =>
    let entryIndex := storageNodeFind buffer t.entrySize buffer.count virtualAddress
    if ¬ 0 ≤ entryIndex then (.error .outOfRange, v)
    else
      (.ok (), { v with
        entry := v.entry.copyFrom buffer t.entrySize
          (nodeHeaderSize + entryIndex.toNat * t.entrySize)
        entrySet := v.entrySet.copyFrom buffer entrySetHeaderSize 0
        entryIndex := entryIndex })

def find (virtualAddress : Int) : Except Error Unit × Visitor :=
  if ¬ virtualAddress < t.nodeL1.endOffset then (.error .outOfRange, v)
  else
    match t.findEntrySetIndex virtualAddress with
    | .error e => (.error e, v)
    | .ok entrySetIndex =>
      if ¬ (0 ≤ entrySetIndex ∧ entrySetIndex < t.entrySetCount) then
        (.error .invalidBucketTreeNodeOffset, v)
      else
        match findEntry t v virtualAddress entrySetIndex.toNat with
        | (.error e, v) => (.error e, v)
        | (.ok (), v) => (.ok (), { v with entrySetCount := t.entrySetCount })

/-- The reads of `MoveNext` and `MovePrevious` behind the choice of an entry. -/
def readEntry (entryIndex : Nat) : Visitor :=
  { v with
    entry := t.entryStorage.read v.entry t.entrySize
      (v.entrySet.index.toNat * t.nodeSize + nodeHeaderSize + entryIndex * t.entrySize)
    entryIndex := entryIndex }

/-- `ReadObject` of an entry set header; the visitor has no index meanwhile. -/
def readEntrySet (entrySetIndex : Nat) : Visitor :=
  { v with
    entryIndex := -1
    entrySet := t.entryStorage.read v.entrySet entrySetHeaderSize (entrySetIndex * t.nodeSize) }

def moveNext : Except Error Unit × Visitor :=
  if ¬ v.isValid then (.error .outOfRange, v)
  else if v.entryIndex + 1 = v.entrySet.count then
    let entrySetIndex := v.entrySet.index + 1
    if ¬ entrySetIndex < v.entrySetCount then (.error .outOfRange, v)
    else
      let last := v.entrySet.endOffset
      let v := readEntrySet t v entrySetIndex.toNat
      match verifyNode v.entrySet entrySetIndex t.nodeSize t.entrySize with
      | .error e => (.error e, v)
      | .ok () =>
        if ¬ (v.entrySet.beginOffset = last ∧ v.entrySet.beginOffset < v.entrySet.endOffset) then
          (.error .invalidBucketTreeEntrySetOffset, v)
        else (.ok (), readEntry t v 0)
  else (.ok (), readEntry t v (v.entryIndex + 1).toNat)

def movePrevious : Except Error Unit × Visitor :=
  if ¬ v.isValid then (.error .outOfRange, v)
  else if v.entryIndex = 0 then
    if ¬ 0 < v.entrySet.index then (.error .outOfRange, v)
    else
      let start := v.entrySet.beginOffset
      let entrySetIndex := v.entrySet.index - 1
      let v := readEntrySet t v entrySetIndex.toNat
      match verifyNode v.entrySet entrySetIndex t.nodeSize t.entrySize with
      | .error e => (.error e, v)
      | .ok () =>
        if ¬ (v.entrySet.endOffset = start ∧ v.entrySet.beginOffset < v.entrySet.endOffset) then
          (.error .invalidBucketTreeEntrySetOffset, v)
        else (.ok (), readEntry t v (v.entrySet.count - 1).toNat)
  else (.ok (), readEntry t v (v.entryIndex - 1).toNat)

/-- `Get`: the bytes of the entry. -/
def get : List UInt8 := (List.range t.entrySize).map v.entry

end Visitor

namespace BucketTree

def find (t : BucketTree) (v : Visitor) (virtualAddress : Int) :
    Except Error Unit × BucketTree × Visitor :=
  if ¬ 0 ≤ virtualAddress then (.error .invalidOffset, t, v)
  else if t.isEmpty then (.error .outOfRange, t, v)
  else
    match t.ensureOffsetCache with
    | (.error e, t) => (.error e, t, v)
    | (.ok (), t) =>
      let (result, v) := v.find t virtualAddress
      (result, t, v)

end BucketTree
end Drippu.FileSys
