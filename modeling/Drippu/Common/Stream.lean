import Mathlib.Tactic

/-!
# Common - Byte streams

A growing buffer with a position.  A write at the end of the buffer appends and moves the
position; a write inside it inserts and leaves the position.  A seek from a position at the end
of the buffer stays at the end, whatever its offset is.
-/

namespace Drippu.Common

structure Stream where
  buffer : List UInt8
  position : Nat
  deriving DecidableEq, Repr

namespace Stream

/-- `std::out_of_range`. -/
inductive Exception where
  | outOfRange
  deriving DecidableEq, Repr

def empty : Stream := ⟨[], 0⟩

/-- A position as a signed number of 32 bits. -/
def toS32 (n : Nat) : Int :=
  if n % 2 ^ 32 < 2 ^ 31 then (n % 2 ^ 32 : Nat) else (n % 2 ^ 32 : Nat) - (2 ^ 32 : Int)

/-- `Seek` with `SetOrigin`. -/
def seekSet (offset : Int) (s : Stream) : Stream :=
  if offset < 0 then { s with position := 0 }
  else if s.position ≥ s.buffer.length then { s with position := s.buffer.length }
  else { s with position := offset.toNat }

/-- `Seek` with `FromCurrentPos`. -/
def seekCurrent (offset : Int) (s : Stream) : Stream := s.seekSet (toS32 s.position + offset)

def readByte (s : Stream) : Except Exception (UInt8 × Stream) :=
  match s.buffer[s.position]? with
  | some b => .ok (b, { s with position := s.position + 1 })
  | none => .error .outOfRange

def writeByte (byte : UInt8) (s : Stream) : Stream :=
  if s.position = s.buffer.length then
    { buffer := s.buffer ++ [byte], position := s.position + 1 }
  else { s with buffer := s.buffer.take s.position ++ byte :: s.buffer.drop s.position }

lemma toS32_of_lt {n : Nat} (h : n < 2 ^ 31) : toS32 n = n := by
  rw [toS32, Nat.mod_eq_of_lt (by omega), if_pos h]

/-- A step back from the end of the buffer does not move. -/
lemma seek_back_at_end {s : Stream} (h : s.position = s.buffer.length)
    (hlt : s.position < 2 ^ 31) : s.seekCurrent (-1) = s := by
  obtain ⟨buffer, position⟩ := s
  obtain rfl : position = buffer.length := h
  rw [seekCurrent, toS32_of_lt hlt, seekSet]
  split
  · rename_i hneg
    have hzero : buffer.length = 0 := by
      dsimp only at hneg
      omega
    simp [hzero]
  · rw [if_pos (le_refl _)]

lemma readByte_at_end {s : Stream} (h : s.position = s.buffer.length) :
    s.readByte = .error .outOfRange := by
  rw [readByte, h, List.getElem?_eq_none (le_refl _)]

lemma writeByte_at_end {s : Stream} (h : s.position = s.buffer.length) (byte : UInt8) :
    s.writeByte byte = ⟨s.buffer ++ [byte], s.buffer.length + 1⟩ := by
  rw [writeByte, if_pos h, h]

end Stream
end Drippu.Common
