import Drippu.Library.Cuts

/-!
# Recomp - Block discovery

The recompiler cuts the text section of a module into blocks.  A first pass marks the
roots: the first word, the entry point, the exported addresses and the addresses that the
code builds with ADRP and ADD.  A second pass marks the word after every terminator and
the targets of the direct branches.  A third pass walks the section and emits the blocks;
it leaves out runs of zero words that nothing reaches.

A section is the list of its instruction words.  The number of words is kept in 32 bits
by the source, and addresses have 64 bits.
-/

namespace Drippu.Recomp

open Library Function

structure Block where
  vaddr : BitVec 64
  size : Nat
  count : Nat
  isEntry : Bool
  deriving DecidableEq, Repr

/-! ## Decoding -/

def isTerminator (i : BitVec 32) : Bool :=
  (i &&& 0xFC000000#32) == 0x14000000#32 || -- B
  (i &&& 0xFC000000#32) == 0x94000000#32 || -- BL
  (i &&& 0xFFFFFC1F#32) == 0xD61F0000#32 || -- BR
  (i &&& 0xFFFFFC1F#32) == 0xD63F0000#32 || -- BLR
  (i &&& 0xFFFFFC1F#32) == 0xD65F0000#32 || -- RET
  (i &&& 0x7F000000#32) == 0x34000000#32 || -- CBZ
  (i &&& 0x7F000000#32) == 0x35000000#32 || -- CBNZ
  (i &&& 0x7F000000#32) == 0x36000000#32 || -- TBZ
  (i &&& 0x7F000000#32) == 0x37000000#32 || -- TBNZ
  (i &&& 0xFF000010#32) == 0x54000000#32 || -- B.cond
  (i &&& 0xFFE0001F#32) == 0xD4000001#32 || -- SVC
  (i &&& 0xFFE0001F#32) == 0xD4200000#32 || -- BRK
  (i &&& 0xFFFFF0FF#32) == 0xD50330DF#32 || -- ISB
  (i &&& 0xFFFFFFE0#32) == 0xD50B7520#32    -- IC IVAU

/-- The target of a direct branch at `pc`. -/
def directBranchTarget (i : BitVec 32) (pc : BitVec 64) : Option (BitVec 64) :=
  if (i &&& 0xFC000000#32) = 0x14000000#32 ∨ (i &&& 0xFC000000#32) = 0x94000000#32 then
    let imm26 := (i <<< 6).sshiftRight 6
    some (pc + imm26.signExtend 64 * 4)
  else if (i &&& 0xFF000010#32) = 0x54000000#32 ∨ (i &&& 0x7E000000#32) = 0x34000000#32 then
    let imm19 := (((i >>> 5) &&& 0x7FFFF) <<< 13).sshiftRight 13
    some (pc + imm19.signExtend 64 * 4)
  else if (i &&& 0x7E000000#32) = 0x36000000#32 then
    let imm14 := (((i >>> 5) &&& 0x3FFF) <<< 18).sshiftRight 18
    some (pc + imm14.signExtend 64 * 4)
  else none

/-- B, BR and RET: no word after them is reached by falling through. -/
def noFallthrough (previous : BitVec 32) : Bool :=
  (previous &&& 0xFC000000#32) == 0x14000000#32 ||
  (previous &&& 0xFFFFFC1F#32) == 0xD61F0000#32 ||
  (previous &&& 0xFFFFFC1F#32) == 0xD65F0000#32

/-! ## Sections -/

variable (text : List (BitVec 32)) (base : BitVec 64) (start : Nat → Bool) (marks : Marks)

/-- The number of words as the source keeps it. -/
def wordCount : Nat :=
  text.length % 2 ^ 32

/-- The word at an index. -/
def word (i : Nat) : BitVec 32 :=
  text.getD i 0#32

/-- The address of the word at an index. -/
def address (i : Nat) : BitVec 64 :=
  base + BitVec.ofNat 64 (i * 4)

/-- The index of the word that holds an address at or after the base. -/
def index (addr : BitVec 64) : Nat :=
  (addr - base).toNat / 4

/-! ## Addresses built by the code -/

/-- The value of an entry of the page table whose register holds no page. -/
def noPage : BitVec 64 :=
  BitVec.allOnes 64

/-- One instruction: the pages held by the registers, and the address it builds. -/
def collectStep (n : Nat) (base : BitVec 64) (page : BitVec 32 → BitVec 64) (i : Nat)
    (insn : BitVec 32) : (BitVec 32 → BitVec 64) × List (BitVec 64) :=
  if (insn &&& 0x9F000000#32) = 0x90000000#32 then -- ADRP
    let rd := insn &&& 31
    let immhi := ((((insn >>> 5) &&& 0x7FFFF) <<< 13).sshiftRight 13).signExtend 64
    let immlo := ((insn >>> 29) &&& 3).setWidth 64
    (update page rd
      ((address base i &&& ~~~0xFFF#64) + (((immhi <<< 2) ||| immlo) <<< 12)), [])
  else if (insn &&& 0xFFC00000#32) = 0x91000000#32 then -- ADD (immediate, 64-bit, LSL #0)
    let rd := insn &&& 31
    let rn := (insn >>> 5) &&& 31
    let imm12 := (insn >>> 10) &&& 0xFFF
    let target := page rn + imm12.setWidth 64
    (if rd ≠ rn then update page rd noPage else page,
      if page rn ≠ noPage ∧ base ≤ target ∧ index base target < n ∧ (target &&& 3) = 0 then
        [target]
      else [])
  else
    (update page (insn &&& 31) noPage, [])

def collectLoop (n : Nat) (base : BitVec 64) :
    List (BitVec 32) → Nat → (BitVec 32 → BitVec 64) → List (BitVec 64)
  | [], _, _ => []
  | insn :: rest, i, page =>
    (collectStep n base page i insn).2 ++
      collectLoop n base rest (i + 1) (collectStep n base page i insn).1

def collectAdrpAddTargets : List (BitVec 64) :=
  collectLoop (wordCount text) base (text.take (wordCount text)) 0 fun _ => noPage

/-! ## Marking -/

/-- The words that begin a block, and among them those that are rooted on their own. -/
structure Marks where
  start : Nat → Bool
  required : Nat → Bool

def mark (i : Nat) : Nat → Bool :=
  update start i true

/-- An address marks its word when it lies in the section. -/
def markAddress (n : Nat) (start : Nat → Bool) (addr : BitVec 64) : Nat → Bool :=
  if base ≤ addr ∧ index base addr < n then mark start (index base addr) else start

/-- The first word and the roots. -/
def rootStarts (entryPc : BitVec 64) (extraRoots : List (BitVec 64)) : Nat → Bool :=
  let n := wordCount text
  let first := mark (fun _ => false) 0
  let entry := if base < entryPc ∧ index base entryPc < n then mark first (index base entryPc)
    else first
  let exported := extraRoots.foldl (markAddress base n) entry
  (collectAdrpAddTargets text base).foldl (fun start addr => mark start (index base addr)) exported

/-- A terminator marks the next word and its target. -/
def markBranch (i : Nat) : Marks :=
  let n := wordCount text
  if isTerminator (word text i) then
    let next := if i + 1 < n then { marks with start := mark marks.start (i + 1) } else marks
    match directBranchTarget (word text i) (address base i) with
    | some t =>
      if base ≤ t ∧ index base t < n then
        ⟨mark next.start (index base t), mark next.required (index base t)⟩
      else next
    | none => next
  else marks

def markBranches : Marks :=
  (List.range (wordCount text)).foldl (markBranch text base) ⟨start, start⟩

/-! ## Emission -/

/-- The end of the block at `s`.  A zero word is a block of its own. -/
def blockEnd (s : Nat) : Nat :=
  if word text s ≠ 0#32 then
    scan (fun i => !marks.start i && word text i != 0#32) (wordCount text) (s + 1)
  else s + 1

/-- Where the walk goes on after `s`: zero words that begin no block are skipped after
a zero word. -/
def resume (s : Nat) : Nat :=
  if word text s = 0#32 then
    scan (fun i => word text i == 0#32 && !marks.start i) (wordCount text) (blockEnd text marks s)
  else blockEnd text marks s

/-- A zero word after B, BR or RET is emitted only when it is rooted. -/
def kept (s : Nat) : Bool :=
  word text s != 0#32 || marks.required s ||
    !noFallthrough (if 0 < s then word text (s - 1) else 0#32)

def blockAt (s : Nat) : Block where
  vaddr := address base s
  size := (blockEnd text marks s - s) * 4 % 2 ^ 32
  count := blockEnd text marks s - s
  isEntry := s == 0

/-- The walk over the section, for at most `fuel` rounds. -/
def emitBlocks (text : List (BitVec 32)) (base : BitVec 64) (marks : Marks) :
    Nat → Nat → List Block
  | 0, _ => []
  | fuel + 1, s =>
    if s < wordCount text then
      (if kept text marks s then [blockAt text base marks s] else []) ++
        emitBlocks text base marks fuel (resume text marks s)
    else []

def discoverBlocks (entryPc : BitVec 64) (extraRoots : List (BitVec 64)) : List Block :=
  if wordCount text = 0 then []
  else
    emitBlocks text base (markBranches text base (rootStarts text base entryPc extraRoots))
      (wordCount text) 0

end Drippu.Recomp
