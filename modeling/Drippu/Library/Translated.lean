import Drippu.Library.ByteStrings

/-!
# Library - Memory behind a translation

An address space whose bytes are places of another memory, or nowhere.  Reading and writing a
range are stated byte by byte.  An implementation goes over the range in pieces, each in one
stretch of the memory or nowhere; when its pieces agree with the translation, it reads and
writes the same bytes.  The tables behind a translation are written by loops over their pages.
-/

namespace Drippu.Library

open List Nat Function

/-- The place of an address that lies in one page with the one before it. -/
lemma index_in_page {a amount i p : Nat} (h : a % p + amount ≤ p) (hi : i < amount) :
    (a + i) / p = a / p ∧ (a + i) % p = a % p + i := by
  have hp : 0 < p := by omega
  have hsum : a + i = a % p + i + p * (a / p) := by
    have hdiv := mod_add_div a p
    omega
  have hlt : a % p + i < p := by omega
  rw [hsum, add_mul_div_left _ _ hp, add_mul_mod_self_left, div_eq_of_lt hlt,
    mod_eq_of_lt hlt, zero_add]
  exact ⟨rfl, rfl⟩

/-- Bytes copied to a place of a memory. -/
def copyTo (memory : Nat → UInt8) (ptr : Nat) : List UInt8 → Nat → UInt8
  | [] => memory
  | b :: bytes => copyTo (update memory ptr b) (ptr + 1) bytes

variable (translate : Nat → Option Nat)

/-- The byte at an address; zero where there is none. -/
def readByte (memory : Nat → UInt8) (addr : Nat) : UInt8 :=
  match translate addr with
  | some ptr => memory ptr
  | none => 0

/-- The bytes of a range. -/
def readRange (memory : Nat → UInt8) (addr size : Nat) : List UInt8 :=
  stretch (readByte translate memory) addr size

/-- The memory with a byte written to an address, if the address is a place of it. -/
def writeByte (memory : Nat → UInt8) (addr : Nat) (b : UInt8) : Nat → UInt8 :=
  match translate addr with
  | some ptr => update memory ptr b
  | none => memory

/-- The memory with bytes written to the addresses of a range, one after the other. -/
def writeRange (memory : Nat → UInt8) (addr : Nat) : List UInt8 → Nat → UInt8
  | [] => memory
  | b :: bytes => writeRange (writeByte translate memory addr b) (addr + 1) bytes

variable {translate} {memory : Nat → UInt8} {addr : Nat}

lemma readRange_add (m n : Nat) :
    readRange translate memory addr (m + n) =
      readRange translate memory addr m ++ readRange translate memory (addr + m) n :=
  stretch_add _ _ _ _

variable {ptr size : Nat}

lemma readRange_linear (h : ∀ i < size, translate (addr + i) = some (ptr + i)) :
    readRange translate memory addr size = stretch memory ptr size := by
  refine map_congr_left fun i hi => ?_
  rw [readByte, h i (mem_range.mp hi)]

lemma readRange_none (h : ∀ i < size, translate (addr + i) = none) :
    readRange translate memory addr size = List.replicate size 0 := by
  have hzero : stretch (fun _ => (0 : UInt8)) addr size = List.replicate size 0 := by
    rw [stretch, map_const', length_range]
  rw [← hzero]
  refine stretch_congr fun i hi => ?_
  rw [readByte, h i hi]

variable {translate' : Nat → Option Nat}

lemma readRange_congr (h : ∀ i < size, translate (addr + i) = translate' (addr + i)) :
    readRange translate memory addr size = readRange translate' memory addr size := by
  refine stretch_congr fun i hi => ?_
  rw [readByte, readByte, h i hi]

/-- A read of a memory without zeros shows which addresses have a place. -/
lemma eq_none_of_readRange_eq
    (h : readRange translate (fun _ => 1) addr size = readRange translate' (fun _ => 1) addr size)
    {i : Nat} (hi : i < size) (hnone : translate (addr + i) = none) :
    translate' (addr + i) = none := by
  have hbyte := map_inj_left.mp h i (mem_range.mpr hi)
  rw [readByte, readByte, hnone] at hbyte
  cases hsome : translate' (addr + i) with
  | none => rfl
  | some ptr =>
    rw [hsome] at hbyte
    exact absurd (show (0 : UInt8) = 1 from hbyte) (by decide)

lemma writeRange_append (translate : Nat → Option Nat) (memory : Nat → UInt8) (addr : Nat)
    (xs ys : List UInt8) :
    writeRange translate memory addr (xs ++ ys) =
      writeRange translate (writeRange translate memory addr xs) (addr + xs.length) ys := by
  induction xs generalizing memory addr with
  | nil => rfl
  | cons b xs ih =>
    rw [List.cons_append, writeRange, ih, writeRange, length_cons, add_right_comm, add_assoc]

variable {src : List UInt8}

lemma writeRange_split (translate : Nat → Option Nat) (memory : Nat → UInt8) (addr : Nat)
    {amount : Nat} (h : amount ≤ src.length) :
    writeRange translate memory addr src =
      writeRange translate (writeRange translate memory addr (src.take amount)) (addr + amount)
        (src.drop amount) := by
  have happend := writeRange_append translate memory addr (src.take amount) (src.drop amount)
  rwa [take_append_drop, length_take_of_le h] at happend

lemma writeRange_linear {bytes : List UInt8}
    (h : ∀ i < bytes.length, translate (addr + i) = some (ptr + i)) :
    writeRange translate memory addr bytes = copyTo memory ptr bytes := by
  induction bytes generalizing memory addr ptr with
  | nil => rfl
  | cons b bytes ih =>
    have hhead : translate addr = some ptr := h 0 (by simp)
    rw [writeRange, copyTo, writeByte, hhead]
    apply ih
    intro i hi
    rw [add_assoc, add_assoc, add_comm 1]
    exact h (i + 1) (by simpa using hi)

lemma writeRange_none {bytes : List UInt8} (h : ∀ i < bytes.length, translate (addr + i) = none) :
    writeRange translate memory addr bytes = memory := by
  induction bytes generalizing addr with
  | nil => rfl
  | cons b bytes ih =>
    have hhead : translate addr = none := h 0 (by simp)
    rw [writeRange, writeByte, hhead]
    apply ih
    intro i hi
    rw [add_assoc, add_comm 1]
    exact h (i + 1) (by simpa using hi)

lemma writeRange_congr {bytes : List UInt8}
    (h : ∀ i < bytes.length, translate (addr + i) = translate' (addr + i)) :
    writeRange translate memory addr bytes = writeRange translate' memory addr bytes := by
  induction bytes generalizing memory addr with
  | nil => rfl
  | cons b bytes ih =>
    have hhead : translate addr = translate' addr := h 0 (by simp)
    rw [writeRange, writeRange, writeByte, writeByte, hhead]
    apply ih
    intro i hi
    rw [add_assoc, add_comm 1]
    exact h (i + 1) (by simpa using hi)

/-! ## Tables -/

/-- A loop that changes consecutive entries of a table, each of them once. -/
lemma loop_apply {α : Type} (loop : Nat → Nat → (Nat → α) → Nat → α) (base : Nat)
    (f : Nat → α → α) (hzero : ∀ k table, loop 0 k table = table)
    (hsucc : ∀ n k table, loop (n + 1) k table =
      loop n (k + 1) (update table (base + k) (f k (table (base + k)))))
    (n k : Nat) (table : Nat → α) (i : Nat) :
    loop n k table i =
      if base + k ≤ i ∧ i < base + k + n then f (i - base) (table i) else table i := by
  induction n generalizing k table with
  | zero => rw [hzero, if_neg (by omega)]
  | succ n ih =>
    rw [hsucc, ih]
    by_cases hi : i = base + k
    · subst hi
      rw [if_neg (by omega), if_pos (by omega), update_self, Nat.add_sub_cancel_left]
    · rw [update_of_ne hi]
      exact if_congr (by omega) rfl rfl

/-! ## Pieces -/

/-- A piece of a range: nowhere, or a stretch of the memory from a place on. -/
inductive Piece where
  | hole (amount : Nat)
  | stretch (amount ptr : Nat)
  deriving DecidableEq, Repr

/-- The bytes a read copies for a piece. -/
def Piece.bytes (memory : Nat → UInt8) : Piece → List UInt8
  | hole amount => List.replicate amount 0
  | stretch amount ptr => Library.stretch memory ptr amount

/-- What a write does for pieces, one after the other. -/
def writePieces (memory : Nat → UInt8) : List Piece → List UInt8 → Nat → UInt8
  | [], _ => memory
  | .hole amount :: pieces, src => writePieces memory pieces (src.drop amount)
  | .stretch amount ptr :: pieces, src =>
    writePieces (copyTo memory ptr (src.take amount)) pieces (src.drop amount)

/-- The pieces go over a range and agree with the translation of its bytes. -/
inductive Covers (translate : Nat → Option Nat) : (addr size : Nat) → List Piece → Prop
  | nil (addr : Nat) : Covers translate addr 0 []
  | hole {addr amount size : Nat} {pieces : List Piece}
      (hbytes : ∀ i < amount, translate (addr + i) = none)
      (hrest : Covers translate (addr + amount) size pieces) :
      Covers translate addr (amount + size) (.hole amount :: pieces)
  | stretch {addr amount ptr size : Nat} {pieces : List Piece}
      (hbytes : ∀ i < amount, translate (addr + i) = some (ptr + i))
      (hrest : Covers translate (addr + amount) size pieces) :
      Covers translate addr (amount + size) (.stretch amount ptr :: pieces)

variable {pieces : List Piece}

lemma Covers.append {m n : Nat} {pieces' : List Piece} (h : Covers translate addr m pieces)
    (h' : Covers translate (addr + m) n pieces') :
    Covers translate addr (m + n) (pieces ++ pieces') := by
  induction h with
  | nil addr =>
    rw [zero_add]
    exact h'
  | hole hbytes _ ih =>
    rw [add_assoc]
    exact .hole hbytes (ih (by rwa [add_assoc]))
  | stretch hbytes _ ih =>
    rw [add_assoc]
    exact .stretch hbytes (ih (by rwa [add_assoc]))

/-- The pieces only depend on the translations of the bytes they go over. -/
lemma Covers.shift {addr' : Nat} (h : Covers translate addr size pieces)
    (heq : ∀ i < size, translate' (addr' + i) = translate (addr + i)) :
    Covers translate' addr' size pieces := by
  induction h generalizing addr' with
  | nil addr => exact .nil addr'
  | @hole addr amount size pieces hbytes _ ih =>
    refine .hole (fun i hi => (heq i (by omega)).trans (hbytes i hi)) (ih fun i hi => ?_)
    rw [add_assoc, add_assoc]
    exact heq (amount + i) (by omega)
  | @stretch addr amount ptr size pieces hbytes _ ih =>
    refine .stretch (fun i hi => (heq i (by omega)).trans (hbytes i hi)) (ih fun i hi => ?_)
    rw [add_assoc, add_assoc]
    exact heq (amount + i) (by omega)

lemma Covers.single_hole (h : ∀ i < size, translate (addr + i) = none) :
    Covers translate addr size [.hole size] :=
  .hole h (.nil _)

lemma Covers.single_stretch (h : ∀ i < size, translate (addr + i) = some (ptr + i)) :
    Covers translate addr size [.stretch size ptr] :=
  .stretch h (.nil _)

/-- Pieces that go over as many bytes as the first of two groups leave the second. -/
lemma Covers.of_append {addr' m n : Nat} {pieces' : List Piece}
    (h : Covers translate' addr' m pieces) (happend : Covers translate addr n (pieces ++ pieces')) :
    ∃ k, n = m + k ∧ Covers translate (addr + m) k pieces' := by
  induction h generalizing addr n with
  | nil _ => exact ⟨n, (zero_add n).symm, happend⟩
  | hole _ _ ih =>
    cases happend with
    | hole _ hrest =>
      obtain ⟨k, rfl, hk⟩ := ih hrest
      exact ⟨k, (add_assoc ..).symm, by rwa [← add_assoc]⟩
  | stretch _ _ ih =>
    cases happend with
    | stretch _ hrest =>
      obtain ⟨k, rfl, hk⟩ := ih hrest
      exact ⟨k, (add_assoc ..).symm, by rwa [← add_assoc]⟩

variable (h : Covers translate addr size pieces)
include h

lemma Covers.writePieces_append (memory : Nat → UInt8)
    (pieces' : List Piece) (hsrc : size ≤ src.length) :
    writePieces memory (pieces ++ pieces') src =
      writePieces (writePieces memory pieces (src.take size)) pieces' (src.drop size) := by
  induction h generalizing memory src with
  | nil addr => rfl
  | @hole addr amount size pieces _ _ ih =>
    have hlen : size ≤ (src.drop amount).length := by
      rw [length_drop]
      omega
    rw [List.cons_append, writePieces, ih memory hlen, writePieces, drop_drop,
      drop_take, Nat.add_sub_cancel_left]
  | @stretch addr amount ptr size pieces _ _ ih =>
    have hlen : size ≤ (src.drop amount).length := by
      rw [length_drop]
      omega
    rw [List.cons_append, writePieces, ih _ hlen, writePieces, drop_drop,
      drop_take, Nat.add_sub_cancel_left, take_take, min_eq_left (by omega)]

lemma Covers.read (memory : Nat → UInt8) :
    pieces.flatMap (Piece.bytes memory) = readRange translate memory addr size := by
  induction h with
  | nil addr => rfl
  | hole hbytes _ ih =>
    rw [flatMap_cons, ih, readRange_add, readRange_none hbytes, Piece.bytes]
  | stretch hbytes _ ih =>
    rw [flatMap_cons, ih, readRange_add, readRange_linear hbytes, Piece.bytes]

lemma Covers.write (memory : Nat → UInt8) (hsrc : src.length = size) :
    writePieces memory pieces src = writeRange translate memory addr src := by
  induction h generalizing memory src with
  | nil addr =>
    rw [eq_nil_of_length_eq_zero hsrc]
    rfl
  | @hole addr amount size pieces hbytes _ ih =>
    have htake : (src.take amount).length = amount := length_take_of_le (by omega)
    have hhead : writeRange translate memory addr (src.take amount) = memory :=
      writeRange_none (by rwa [htake])
    rw [writePieces, ih memory (by rw [length_drop]; omega),
      writeRange_split translate memory addr (show amount ≤ src.length by omega), hhead]
  | @stretch addr amount ptr size pieces hbytes _ ih =>
    have htake : (src.take amount).length = amount := length_take_of_le (by omega)
    have hhead : writeRange translate memory addr (src.take amount) =
        copyTo memory ptr (src.take amount) := writeRange_linear (by rwa [htake])
    rw [writePieces, ih _ (by rw [length_drop]; omega),
      writeRange_split translate memory addr (show amount ≤ src.length by omega), hhead]

end Drippu.Library
