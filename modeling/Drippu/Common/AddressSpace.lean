import Drippu.Library.Breakpoints
import Drippu.Library.Transition

/-!
# Common - Flat address space maps

`FlatAddressSpaceMap` keeps the mapping of a virtual address space as a sorted vector
of blocks.  A block lasts until the next one starts.  Its physical address is the
sentinel `unmappedPa` when nothing is mapped there.  Mapping and unmapping edit the
vector in place through iterators, which are positions here; an iterator that leaves the
vector has no defined result.

An assertion of the source only reports and execution goes on, so the outcome of a call
lists the assertions that fired.
-/

namespace Drippu.Common

open Library

/-- The physical template parameters: the sentinel, whether the physical address advances
with the virtual one, and the addition of an offset to a physical address.  The sentinel
is no physical address, so that no offset from a physical address leads to it. -/
structure PaSpec (π : Type) where
  unmappedPa : π
  paContigSplit : Bool
  add : π → Nat → π
  add_add : ∀ p a b, add (add p a) b = add p (a + b)
  add_ne : ∀ p a, p ≠ unmappedPa → add p a ≠ unmappedPa

/-- A block: its first virtual address, its physical address and its extra information. -/
structure MapBlock (π χ : Type) where
  virt : Nat
  phys : π
  extraInfo : χ
  deriving DecidableEq, Repr

/-- `vaBits` is the width of the type of virtual addresses. -/
structure AddressSpace (π χ : Type) where
  blocks : List (MapBlock π χ)
  vaLimit : Nat
  vaBits : Nat
  hasUnmapCallback : Bool
  limit_lt : vaLimit < 2 ^ vaBits

inductive MapAssertion where
  | pastLimit
  | unsorted
  | contiguousUnmapped
  deriving DecidableEq, Repr

/-- The blocks after a call, the assertions that fired and the calls of the callback. -/
structure MapOutcome (π χ : Type) where
  blocks : List (MapBlock π χ)
  assertions : List MapAssertion
  callbacks : List (Nat × Nat)
  deriving DecidableEq, Repr

namespace AddressSpace

variable {π χ : Type} [DecidableEq π] (P : PaSpec π)

def isUnmapped (b : MapBlock π χ) : Bool :=
  b.phys == P.unmappedPa

/-- Addition of virtual addresses wraps around. -/
def addVa (s : AddressSpace π χ) (a b : Nat) : Nat :=
  (a + b) % 2 ^ s.vaBits

/-- A physical address some way into a mapping. -/
def advance (phys : π) (i : Nat) : π :=
  if P.paContigSplit then P.add phys i else phys

/-- The physical address of a block at a later virtual address. -/
def physAt (b : MapBlock π χ) (virt : Nat) : π :=
  advance P b.phys (virt - b.virt)

/-- `std::lower_bound` over the blocks. -/
def lowerBlock (blocks : List (MapBlock π χ)) (virt : Nat) : Nat :=
  lowerBound MapBlock.virt blocks virt

/-- `while (iter->virt >= virt) iter--`. -/
def walkBackTo (blocks : List (MapBlock π χ)) (virt i : Nat) : Option Nat :=
  walkBack MapBlock.virt blocks virt i

/-- The edited blocks and the assertions of a part of a call. -/
abbrev Edit (π χ : Type) := List (MapBlock π χ) × List MapAssertion

def limitAssertions (s : AddressSpace π χ) (virtEnd : Nat) : List MapAssertion :=
  if s.vaLimit < virtEnd then [.pastLimit] else []

/-- The end of every call. -/
def finish (s : AddressSpace π χ) (virt size virtEnd : Nat) (edit : Edit π χ) :
    MapOutcome π χ where
  blocks := edit.1
  assertions := s.limitAssertions virtEnd ++ edit.2
  callbacks := if s.hasUnmapCallback then [(virt, size)] else []

/-! ## Mapping -/

/-- The second part of a map: a block starts at the end of the range, at position
`succ`, and the blocks inside the range give way to the new one. -/
def mapStart (blocks : List (MapBlock π χ)) (new : MapBlock π χ) (virtEnd succ : Nat) :
    Option (Edit π χ) :=
  if succ = 0 then none
  else (walkBackTo blocks new.virt (succ - 1)).bind fun pred =>
    blocks[pred + 1]?.bind fun b =>
      if virtEnd < b.virt then some (blocks, [.unsorted])
      else if b.virt = virtEnd then some (insertAt blocks (pred + 1) [new], [])
      else some ((eraseRange blocks (pred + 2) succ).set (pred + 1) new, [])

/-- The physical address of the rest of a split block.  An unmapped block stays unmapped. -/
def tailPhys (pred : MapBlock π χ) (virtEnd : Nat) : π :=
  if !P.paContigSplit then pred.phys
  else if isUnmapped P pred then pred.phys
  else P.add pred.phys (virtEnd - pred.virt)

def mapBlocks (noExtra : χ) (blocks : List (MapBlock π χ)) (new : MapBlock π χ) (virtEnd : Nat) :
    Option (Edit π χ) :=
  let succ := lowerBlock blocks virtEnd
  -- the predecessor of the first block is outside of the vector
  if succ = 0 then none
  else blocks[succ - 1]?.bind fun pred =>
    match blocks[succ]? with
    | some b =>
      if b.virt ≠ virtEnd then
        if succ - 1 ≠ 0 ∧ new.virt ≤ pred.virt then
          -- the block is reused as the tail
          mapStart (blocks.set (succ - 1)
            { pred with virt := virtEnd, phys := tailPhys P pred virtEnd }) new virtEnd (succ - 1)
        else
          some (insertAt blocks succ [new, ⟨virtEnd, tailPhys P pred virtEnd, pred.extraInfo⟩], [])
      else mapStart blocks new virtEnd succ
    | none =>
      if succ - 1 ≠ 0 ∧ new.virt ≤ pred.virt then
        mapStart (blocks.set (succ - 1) { pred with virt := virtEnd }) new virtEnd (succ - 1)
      else some (insertAt blocks succ [new, ⟨virtEnd, P.unmappedPa, noExtra⟩], [])

def mapLocked (noExtra : χ) (s : AddressSpace π χ) (virt : Nat) (phys : π) (size : Nat)
    (extraInfo : χ) : Option (MapOutcome π χ) :=
  (mapBlocks P noExtra s.blocks ⟨virt, phys, extraInfo⟩ (s.addVa virt size)).map
    (s.finish virt size (s.addVa virt size))

/-! ## Unmapping -/

/-- The range ends in or at the unmapped block at position `unmappedEnd`. -/
def eraseBlocksWithEndUnmapped (blocks : List (MapBlock π χ)) (virt unmappedEnd : Nat) :
    Option (Edit π χ) :=
  (walkBackTo blocks virt unmappedEnd).bind fun startPred =>
    blocks[startPred]?.bind fun pred =>
      blocks[unmappedEnd]?.bind fun last =>
        let moved := if isUnmapped P pred then blocks
          else blocks.set unmappedEnd { last with virt := virt }
        let eraseEnd := if isUnmapped P pred then unmappedEnd + 1 else unmappedEnd
        let contiguous := match moved[eraseEnd]? with
          | none => false
          | some b => eraseEnd == startPred + 1 || isUnmapped P pred && isUnmapped P b
        some (eraseRange moved (startPred + 1) eraseEnd,
          if contiguous then [.contiguousUnmapped] else [])

/-- The second part of an unmap: a mapped block starts at the end of the range, at position
`endSucc`. -/
def unmapStart (noExtra : χ) (blocks : List (MapBlock π χ)) (virt virtEnd endSucc endPred : Nat) :
    Option (Edit π χ) :=
  (walkBackTo blocks virt endSucc).bind fun startPred =>
    blocks[startPred]?.bind fun pred =>
      blocks[startPred + 1]?.bind fun b =>
        if virtEnd < b.virt then some (blocks, [.unsorted])
        else if b.virt = virtEnd then
          some (if isUnmapped P pred then blocks
            else insertAt blocks (startPred + 1) [⟨virt, P.unmappedPa, noExtra⟩], [])
        else if isUnmapped P pred then some (eraseRange blocks (startPred + 1) endPred, [])
        else
          some ((eraseRange blocks (startPred + 2) endSucc).set (startPred + 1)
            { b with virt := virt, phys := P.unmappedPa }, [])

def unmapBlocks (noExtra : χ) (blocks : List (MapBlock π χ)) (virt virtEnd : Nat) :
    Option (Edit π χ) :=
  let succ := lowerBlock blocks virtEnd
  if succ = 0 then none
  else blocks[succ - 1]?.bind fun pred =>
    if isUnmapped P pred then
      if virt < pred.virt then eraseBlocksWithEndUnmapped P blocks virt (succ - 1)
      else some (blocks, [])
    else
      -- the successor is read before it is compared with the end of the vector
      blocks[succ]?.bind fun b =>
        if b.virt = virtEnd ∧ isUnmapped P b then eraseBlocksWithEndUnmapped P blocks virt succ
        else if b.virt ≠ virtEnd then
          if virt ≤ pred.virt then
            if succ - 1 = 0 then none
            else
              unmapStart P noExtra (blocks.set (succ - 1)
                { pred with virt := virtEnd, phys := physAt P pred virtEnd }) virt virtEnd
                (succ - 1) (succ - 2)
          else
            some (insertAt blocks succ [⟨virt, P.unmappedPa, noExtra⟩,
              ⟨virtEnd, physAt P pred virtEnd, pred.extraInfo⟩], [])
        else unmapStart P noExtra blocks virt virtEnd succ (succ - 1)

def unmapLocked (noExtra : χ) (s : AddressSpace π χ) (virt size : Nat) : Option (MapOutcome π χ) :=
  (unmapBlocks P noExtra s.blocks virt (s.addVa virt size)).map
    (s.finish virt size (s.addVa virt size))

/-! ## Meaning -/

/-- What a virtual address is mapped to: the physical address and the extra information. -/
def valueOf (b : MapBlock π χ) (virt : Nat) : Option (π × χ) :=
  if isUnmapped P b then none else some (physAt P b virt, b.extraInfo)

/-- The translation of a virtual address by the block that governs it. -/
def translate (blocks : List (MapBlock π χ)) (virt : Nat) : Option (π × χ) :=
  (floor MapBlock.virt blocks virt).bind fun b => valueOf P b virt

/-- The blocks of a new address space. -/
def initialBlocks (noExtra : χ) : List (MapBlock π χ) :=
  [⟨0, P.unmappedPa, noExtra⟩]

end AddressSpace
end Drippu.Common
