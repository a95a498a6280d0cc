import Drippu.Library.ByteStrings
import Drippu.Library.Transition

/-!
# File system - IPS patches

`PatchIPS` copies the input and applies to the copy the records of a patch.  The position
in the patch is kept as the bytes from it on; `temp` is the buffer that holds the offset
field of the last record read and that a short read overwrites only in part.
-/

namespace Drippu.FileSys

open Library List

inductive IPSFileType where
  | ips
  | ips32
  | error
  deriving DecidableEq, Repr

inductive Fault where
  /-- A write behind the end of the copy of the input. -/
  | writeOutOfBounds
  deriving DecidableEq, Repr

def patchMagic : List UInt8 := [0x50, 0x41, 0x54, 0x43, 0x48]

def ips32Magic : List UInt8 := [0x49, 0x50, 0x53, 0x33, 0x32]

def eof : List UInt8 := [0x45, 0x4F, 0x46]

def eeof : List UInt8 := [0x45, 0x45, 0x4F, 0x46]

def identifyMagic (magic : List UInt8) : IPSFileType :=
  if magic.length ≠ 5 then .error
  else if magic = patchMagic then .ips
  else if magic = ips32Magic then .ips32
  else .error

variable (type : IPSFileType) (inData : List UInt8)

/-- `std::equal` compares as many bytes as `data` has; that is the length of the
marker of the type. -/
def isEOF (data : List UInt8) : Bool :=
  type = .ips ∧ data = eof ∨ type = .ips32 ∧ data = eeof

/-- The offset field of a record. -/
def realOffset (temp : List UInt8) : Nat :=
  match type, temp with
  | .ips32, [a, b, c, d] =>
    a.toNat <<< 24 ||| b.toNat <<< 16 ||| c.toNat <<< 8 ||| d.toNat
  | _, a :: b :: c :: _ => a.toNat <<< 16 ||| b.toNat <<< 8 ||| c.toNat
  | _, _ => 0

/-- `ReadObject` of a `u16`, on a little-endian host. -/
def readU16 : List UInt8 → Option Nat
  | a :: b :: _ => some (a.toNat + b.toNat * 256)
  | _ => none

def swap16 (x : Nat) : Nat := x / 256 + x % 256 * 256

/-- Bytes written into the copy of the input, by `memset` or by a read of the patch. -/
def store (pos : Nat) (bytes : List UInt8) : Except Fault (List UInt8) :=
  if pos + bytes.length ≤ inData.length then .ok (splice inData pos bytes)
  else .error .writeOutOfBounds

/-- The part of a record of `size` bytes in front of the end of the input.  The sum is
formed in 32 bits, the difference is cast to 16. -/
def clipped (offset size : Nat) : Nat :=
  if (offset + size) % 2 ^ 32 > inData.length then (inData.length - offset) % 2 ^ 16 else size

/-- A record behind its offset field: the new copy and the rest of the patch, or nothing where
`PatchIPS` returns null. -/
def patchRecord (offset : Nat) (ips : List UInt8) :
    Except Fault (Option (List UInt8 × List UInt8)) :=
  match readU16 ips with
  | none => .ok none
  | some size =>
    let dataSize := swap16 size
    let ips := ips.drop 2
    if dataSize = 0 then
      match readU16 ips with
      | none => .ok none
      | some size =>
        let rleSize := swap16 size
        match ips.drop 2 with
        | [] => .ok none
        | data :: ips =>
          (store inData offset (replicate (clipped inData offset rleSize) data)).map
            fun inData => some (inData, ips)
    else
      let read := ips.take (clipped inData offset dataSize)
      (store inData offset read).map fun inData =>
        if read.length ≠ dataSize then none else some (inData, ips.drop dataSize)

lemma patchRecord_shorter {inData ips inData' ips' : List UInt8} {offset : Nat}
    (h : patchRecord inData offset ips = .ok (some (inData', ips'))) :
    ips'.length < ips.length := by
  match ips with
  | [] | [_] => simp [patchRecord, readU16] at h
  | a :: b :: rest =>
    simp only [patchRecord, readU16, drop_succ_cons, drop_zero] at h
    split at h
    · -- run-length record
      split at h
      · simp at h
      split at h
      · simp at h
      rename_i data ips hips
      have hlen := congrArg length hips
      simp only [length_drop, length_cons] at hlen
      obtain ⟨d, -, hd⟩ := map_eq_ok.mp h
      simp only [Option.some.injEq, Prod.mk.injEq] at hd
      simp only [← hd.2, length_cons]
      omega
    · -- literal record
      obtain ⟨d, -, hd⟩ := map_eq_ok.mp h
      split at hd
      · simp at hd
      · simp only [Option.some.injEq, Prod.mk.injEq] at hd
        simp only [← hd.2, length_drop, length_cons]
        omega

/-- The record loop and the test behind it.  It ends with a short read or with the marker. -/
def patchLoop (type : IPSFileType) (inData temp ips : List UInt8) :
    Except Fault (Option (List UInt8)) :=
  let read := ips.take temp.length
  let next := read ++ temp.drop read.length
  if read.length = temp.length ∧ isEOF type next = false then
    let offset := realOffset type next
    if offset > inData.length then .ok none
    else
      match _h : patchRecord inData offset (ips.drop temp.length) with
      | .error e => .error e
      | .ok none => .ok none
      | .ok (some (inData', ips')) => patchLoop type inData' next ips'
  else if isEOF type next = false then .ok none
  else .ok (some inData)
termination_by ips.length
decreasing_by
  have := patchRecord_shorter _h
  simp only [length_drop] at this
  omega

lemma patchLoop_eq (temp ips : List UInt8) {read next : List UInt8}
    (hread : ips.take temp.length = read) (hnext : read ++ temp.drop read.length = next) :
    patchLoop type inData temp ips =
      if read.length = temp.length ∧ isEOF type next = false then
        if inData.length < realOffset type next then .ok none
        else
          match patchRecord inData (realOffset type next) (ips.drop temp.length) with
          | .error e => .error e
          | .ok none => .ok none
          | .ok (some (inData', ips')) => patchLoop type inData' next ips'
      else if isEOF type next = false then .ok none
      else .ok (some inData) := by
  subst hread hnext
  rw [patchLoop]
  dsimp only
  split
  · split
    · rfl
    · split <;> rename_i h <;> rw [h]
  · rfl

def patchIPS (input ips : List UInt8) : Except Fault (Option (List UInt8)) :=
  let type := identifyMagic (ips.take 5)
  if type = .error then .ok none
  else if input.length = 0 then .ok none
  else
    let temp := replicate (if type = .ips then 3 else 4) 0
    patchLoop type input temp (ips.drop 5)

end Drippu.FileSys
