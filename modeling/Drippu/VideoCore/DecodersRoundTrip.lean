import Drippu.Library.BitWords
import Drippu.VideoCore.Decoders

/-!
# Video core - Block-linear swizzling loses nothing

The offset of a byte in the block-linear layout is a mixed-radix number: slice of blocks, row of
blocks, GOB column, slice inside the block, GOB row inside the block, and the place inside the
GOB, where the bits of the two coordinates are interleaved.  As long as the sizes fit in 32 bits
the words of the source hold exactly these numbers.

Main results:

- Theorem `swizzle_lossless`: unswizzling gives back what was swizzled.
-/

namespace Drippu.VideoCore.Texture

open Nat hiding mul_succ mul_zero shiftLeft_eq' succ_mul
open Library BitVec
open List hiding replicate

open Surface

/-! ## Inside a GOB -/

/-- The place of a byte inside a GOB. -/
def gobOffset (x y : Nat) : Nat :=
  (pdep swizzleXBits (BitVec.ofNat 32 x) ||| pdep swizzleYBits (BitVec.ofNat 32 y)).toNat

/-- The horizontal coordinate of a place inside a GOB. -/
def gobX (o : Nat) : Nat := o % 16 + 16 * (o / 32 % 2) + 32 * (o / 256 % 2)

/-- The vertical coordinate of a place inside a GOB. -/
def gobY (o : Nat) : Nat := o / 16 % 2 + 2 * (o / 64 % 2) + 4 * (o / 128 % 2)

lemma gob_table : ∀ x < 64, ∀ y < 8,
    gobOffset x y < 512 ∧ gobOffset x y = gobOffset (x / 16 * 16) y + x % 16 ∧
      gobX (gobOffset x y) = x ∧ gobY (gobOffset x y) = y := by
  decide +kernel

lemma gobOffset_inj {x y x' y' : Nat} (hx : x < 64) (hy : y < 8) (hx' : x' < 64) (hy' : y' < 8)
    (h : gobOffset x y = gobOffset x' y') : x = x' ∧ y = y' := by
  obtain ⟨-, -, hgx, hgy⟩ := gob_table x hx y hy
  obtain ⟨-, -, hgx', hgy'⟩ := gob_table x' hx' y' hy'
  rw [h] at hgx hgy
  exact ⟨hgx.symm.trans hgx', hgy.symm.trans hgy'⟩

variable {k : Nat}

lemma gobOffset_add {x y j : Nat} (hx : x + j < 64) (hy : y < 8) (hk : k ≤ 4)
    (haligned : 2 ^ k ∣ x) (hj : j < 2 ^ k) : gobOffset (x + j) y = gobOffset x y + j := by
  obtain ⟨-, hsum, -⟩ := gob_table (x + j) hx y hy
  obtain ⟨-, hbase, -⟩ := gob_table x (by omega) y hy
  have hgroup : x % 16 + j < 16 := mod_add_lt (pow_dvd_pow 2 hk) (by decide) haligned hj
  rw [hsum, hbase, show (x + j) / 16 = x / 16 by omega]
  omega

lemma incrpdep_table : ∀ x < 64, ∀ k < 5,
    incrpdep swizzleXBits (1#32 <<< k) (pdep swizzleXBits (BitVec.ofNat 32 x)) =
      pdep swizzleXBits (BitVec.ofNat 32 ((x + 2 ^ k) % 64)) := by
  decide +kernel

lemma pdep_swizzleYBits (n : Nat) :
    pdep swizzleYBits (BitVec.ofNat 32 n) = pdep swizzleYBits (BitVec.ofNat 32 (n % 8)) := by
  have hlow : ∀ v : BitVec 32, pdep swizzleYBits v = pdep swizzleYBits (v &&& 7) := by
    simp [pdep, pdepLoop, swizzleYBits, BitVec.and_assoc]
  have hmod : BitVec.ofNat 32 n &&& 7 = BitVec.ofNat 32 (n % 8) := by
    apply eq_of_toNat_eq
    rw [toNat_and, toNat_ofNat, toNat_ofNat]
    change n % 2 ^ 32 &&& (2 ^ 3 - 1) = _
    rw [and_two_pow_sub_one_eq_mod]
    omega
  rw [hlow, hmod]

/-! ## Sizes -/

/-- The number of pieces of `2 ^ k` that cover `n`. -/
def pieces (n k : Nat) : Nat := (n + (2 ^ k - 1)) / 2 ^ k

lemma le_pieces (n k : Nat) : n ≤ pieces n k * 2 ^ k := by
  have hdiv := div_add_mod (n + (2 ^ k - 1)) (2 ^ k)
  rw [mul_comm] at hdiv
  rw [pieces]
  omega

lemma div_lt_pieces {i n : Nat} (h : i < n) : i / 2 ^ k < pieces n k :=
  Nat.div_lt_of_lt_mul (by rw [mul_comm]; exact h.trans_le (le_pieces n k))

/-- Rounding up to whole pieces does not overflow if its result does not. -/
lemma add_lt_of_pieces_lt {n : Nat} (hk : k ≤ 32) (h : pieces n k * 2 ^ k < 2 ^ 32) :
    n + (2 ^ k - 1) < 2 ^ 32 := by
  have hle := le_pieces n k
  obtain ⟨q, hq⟩ := pow_dvd_pow 2 hk
  have hlt : pieces n k < q := by
    rw [hq, mul_comm] at h
    exact Nat.lt_of_mul_lt_mul_left h
  have hmul := mul_le_mul_right (2 ^ k) (succ_le_of_lt hlt)
  rw [Nat.succ_mul, mul_comm q, ← hq] at hmul
  omega

lemma divCeilLog2_eq {value log2 : BitVec 32} (hlog : log2.toNat < 32)
    (h : pieces value.toNat log2.toNat * 2 ^ log2.toNat < 2 ^ 32) :
    divCeilLog2 value log2 = BitVec.ofNat 32 (pieces value.toNat log2.toNat) := by
  have hlt := add_lt_of_pieces_lt hlog.le h
  have hpos : 0 < 2 ^ log2.toNat := Nat.two_pow_pos _
  have hsum : value + 1#32 <<< log2 - 1 =
      BitVec.ofNat 32 (value.toNat + (2 ^ log2.toNat - 1)) := by
    apply eq_of_toNat_eq
    have hpow : 2 ^ log2.toNat < 2 ^ 32 := Nat.pow_lt_pow_right (by decide) hlog
    rw [shiftLeft_eq', ofNat_shiftLeft, one_mul, toNat_ofNat,
      Nat.mod_eq_of_lt hlt, toNat_sub, toNat_add, toNat_ofNat,
      Nat.mod_eq_of_lt hpow]
    change (2 ^ 32 - 1 + (value.toNat + 2 ^ log2.toNat) % 2 ^ 32) % 2 ^ 32 = _
    omega
  rw [divCeilLog2, hsum, ushiftRight_eq', ofNat_ushiftRight hlt, pieces]

namespace Surface

variable (s : Surface)

def gobs : Nat := pieces s.stride.toNat 6

def blockRows : Nat := pieces s.height.toNat (s.blockHeight.toNat + 3)

def blockSlices : Nat := pieces s.depth.toNat s.blockDepth.toNat

def alignedStride : Nat := s.gobs * 64

def alignedHeight : Nat := s.blockRows * 2 ^ (s.blockHeight.toNat + 3)

def alignedDepth : Nat := s.blockSlices * 2 ^ s.blockDepth.toNat

def swizzledSize : Nat := s.alignedStride * s.alignedHeight * s.alignedDepth

/-- The bytes of a row of the linear layout. -/
def rowSize : Nat := s.width.toNat * s.bytesPerPixel.toNat

def linearSize : Nat := s.depth.toNat * s.height.toNat * s.rowSize

/-- No size overflows, the rows are inside the stride, and pixels have a power of two of bytes. -/
structure Fits : Prop where
  block : 9 + s.blockHeight.toNat + s.blockDepth.toNat < 32
  alignedStride : s.alignedStride < 2 ^ 32
  alignedHeight : s.alignedHeight < 2 ^ 32
  swizzledSize : s.swizzledSize < 2 ^ 32
  row : s.rowSize ≤ s.stride.toNat
  pixel : ∃ k, k ≤ 4 ∧ s.bytesPerPixel = 1#32 <<< k

/-! ## Addresses -/

/-- The offset of a byte in the block-linear layout. -/
def address (x y z : Nat) : Nat :=
  (((((z / 2 ^ s.blockDepth.toNat) * s.blockRows + y / 8 / 2 ^ s.blockHeight.toNat) * s.gobs +
    x / 64) * 2 ^ s.blockDepth.toNat + z % 2 ^ s.blockDepth.toNat) * 2 ^ s.blockHeight.toNat +
      y / 8 % 2 ^ s.blockHeight.toNat) * 512 + gobOffset (x % 64) (y % 8)

variable {s}

variable {c p rounds x y z : Nat} (h : s.Fits) (hx : x < s.rowSize) (hc : c < s.width.toNat)
  (hy : y < s.height.toNat) (hz : z < s.depth.toNat)

lemma div_div_lt_blockRows (hy : y < s.height.toNat) :
    y / 8 / 2 ^ s.blockHeight.toNat < s.blockRows := by
  have hlt := div_lt_pieces (k := s.blockHeight.toNat + 3) hy
  rw [pow_add, mul_comm, ← Nat.div_div_eq_div_mul] at hlt
  exact hlt

include h hx in
lemma div_lt_gobs : x / 64 < s.gobs :=
  div_lt_pieces (k := 6) (hx.trans_le h.row)

lemma gobOffset_lt (x y : Nat) : gobOffset (x % 64) (y % 8) < 512 :=
  (gob_table _ (mod_lt _ (by decide)) _ (mod_lt _ (by decide))).1

include h hx hy hz in
lemma address_lt : s.address x y z < s.swizzledSize := by
  have hpow (k : Nat) : 0 < 2 ^ k := Nat.two_pow_pos k
  have hslice : z / 2 ^ s.blockDepth.toNat < s.blockSlices := div_lt_pieces hz
  have hlt := radix_lt (radix_lt (radix_lt (radix_lt (radix_lt hslice (div_div_lt_blockRows hy))
    (div_lt_gobs h hx)) (mod_lt z (hpow s.blockDepth.toNat)))
    (mod_lt (y / 8) (hpow s.blockHeight.toNat))) (gobOffset_lt x y)
  refine hlt.trans_eq ?_
  rw [swizzledSize, alignedStride, alignedHeight, alignedDepth, pow_add]
  ring

include h hx hy in
lemma address_inj {x' y' z' : Nat} (hx' : x' < s.rowSize) (hy' : y' < s.height.toNat)
    (heq : s.address x y z = s.address x' y' z') : x = x' ∧ y = y' ∧ z = z' := by
  have hpow (k n : Nat) : n % 2 ^ k < 2 ^ k := mod_lt _ (Nat.two_pow_pos k)
  -- The digits of the number, from the place in the GOB up to the slice of blocks.
  obtain ⟨heq, hgob⟩ := radix_inj (gobOffset_lt x y) (gobOffset_lt x' y') heq
  obtain ⟨heq, hrow⟩ := radix_inj (hpow _ _) (hpow _ _) heq
  obtain ⟨heq, hslice⟩ := radix_inj (hpow _ _) (hpow _ _) heq
  obtain ⟨heq, hcolumn⟩ := radix_inj (div_lt_gobs h hx) (div_lt_gobs h hx') heq
  obtain ⟨hslices, hrows⟩ := radix_inj (div_div_lt_blockRows hy) (div_div_lt_blockRows hy') heq
  obtain ⟨hgx, hgy⟩ := gobOffset_inj (mod_lt _ (by decide)) (mod_lt _ (by decide))
    (mod_lt _ (by decide)) (mod_lt _ (by decide)) hgob
  have hy8 : y / 8 = y' / 8 := by
    rw [← div_add_mod (y / 8) (2 ^ s.blockHeight.toNat), hrows, hrow, div_add_mod]
  refine ⟨by omega, by omega, ?_⟩
  rw [← div_add_mod z (2 ^ s.blockDepth.toNat), hslices, hslice, div_add_mod]

/-! ## The words of the source -/

section
include h

lemma xShift_toNat : s.xShift.toNat = 9 + s.blockHeight.toNat + s.blockDepth.toNat := by
  have hblock := h.block
  change ((9 + _) % 2 ^ 32 + _) % 2 ^ 32 = _
  omega

lemma blockSize_eq :
    s.blockSize =
      BitVec.ofNat 32 (s.gobs * 2 ^ (9 + s.blockHeight.toNat + s.blockDepth.toNat)) := by
  have hlog : gobSizeXShift.toNat < 32 := by decide
  have hgobs : s.gobsInX = BitVec.ofNat 32 s.gobs := divCeilLog2_eq hlog h.alignedStride
  rw [blockSize, hgobs, shiftLeft_eq', xShift_toNat h, ofNat_shiftLeft]

lemma sliceSize_eq :
    s.sliceSize = BitVec.ofNat 32
      (s.blockRows * (s.gobs * 2 ^ (9 + s.blockHeight.toNat + s.blockDepth.toNat))) := by
  have hblock := h.block
  have hlog : (s.blockHeight + gobSizeYShift).toNat = s.blockHeight.toNat + 3 := by
    change (_ + 3) % 2 ^ 32 = _
    omega
  have hrows : divCeilLog2 s.height (s.blockHeight + gobSizeYShift) =
      BitVec.ofNat 32 s.blockRows := by
    rw [divCeilLog2_eq (by omega) (by rw [hlog]; exact h.alignedHeight), hlog, blockRows]
  rw [sliceSize, hrows, blockSize_eq h, ← ofNat_mul]

lemma offsetZ_eq (hz : z < 2 ^ 32) :
    s.offsetZ (BitVec.ofNat 32 z) = BitVec.ofNat 32
      (z / 2 ^ s.blockDepth.toNat *
          (s.blockRows * (s.gobs * 2 ^ (9 + s.blockHeight.toNat + s.blockDepth.toNat))) +
        z % 2 ^ s.blockDepth.toNat * 2 ^ (9 + s.blockHeight.toNat)) := by
  have hblock := h.block
  have hshift : (gobSizeShift + s.blockHeight).toNat = 9 + s.blockHeight.toNat := by
    change (9 + _) % 2 ^ 32 = _
    omega
  have hmask : BitVec.ofNat 32 z &&& s.blockDepthMask =
      BitVec.ofNat 32 (z % 2 ^ s.blockDepth.toNat) := by
    exact ofNat_and_mask hz (by omega)
  rw [offsetZ, sliceSize_eq h, hmask, ushiftRight_eq', ofNat_ushiftRight hz,
    shiftLeft_eq', hshift, ofNat_shiftLeft, ← ofNat_mul, ← ofNat_add]

lemma offsetY_eq (hy : y < 2 ^ 32) :
    s.offsetY (BitVec.ofNat 32 y) = BitVec.ofNat 32
      (y / 8 / 2 ^ s.blockHeight.toNat *
          (s.gobs * 2 ^ (9 + s.blockHeight.toNat + s.blockDepth.toNat)) +
        y / 8 % 2 ^ s.blockHeight.toNat * 512) := by
  have hblock := h.block
  have hgob : BitVec.ofNat 32 y >>> gobSizeYShift = BitVec.ofNat 32 (y / 8) := by
    exact ofNat_ushiftRight hy 3
  have hlt : y / 8 < 2 ^ 32 := by omega
  have hmask : BitVec.ofNat 32 (y / 8) &&& s.blockHeightMask =
      BitVec.ofNat 32 (y / 8 % 2 ^ s.blockHeight.toNat) := by
    exact ofNat_and_mask hlt (by omega)
  have hrow : BitVec.ofNat 32 (y / 8 % 2 ^ s.blockHeight.toNat) <<< gobSizeShift =
      BitVec.ofNat 32 (y / 8 % 2 ^ s.blockHeight.toNat * 512) := by
    exact ofNat_shiftLeft _ 9
  simp only [offsetY]
  rw [hgob, hmask, hrow, ushiftRight_eq', ofNat_ushiftRight hlt, blockSize_eq h,
    ← ofNat_mul, ← ofNat_add]

lemma offsetX_eq (hc : c * s.bytesPerPixel.toNat < 2 ^ 32) :
    s.offsetX (BitVec.ofNat 32 c) = BitVec.ofNat 32
      (c * s.bytesPerPixel.toNat / 64 * 2 ^ (9 + s.blockHeight.toNat + s.blockDepth.toNat)) := by
  have hx : BitVec.ofNat 32 c * s.bytesPerPixel =
      BitVec.ofNat 32 (c * s.bytesPerPixel.toNat) := by
    rw [ofNat_mul, ofNat_toNat, setWidth_eq]
  have hgob : BitVec.ofNat 32 (c * s.bytesPerPixel.toNat) >>> gobSizeXShift =
      BitVec.ofNat 32 (c * s.bytesPerPixel.toNat / 64) := by
    exact ofNat_ushiftRight hc 6
  rw [offsetX, hx, hgob, shiftLeft_eq', xShift_toNat h, ofNat_shiftLeft]

/-- The sum that the source forms is the offset, once the deposited bits are those of the
column. -/
lemma swizzledOffset_eq (hc : c * s.bytesPerPixel.toNat < s.rowSize)
    (hy : y < s.height.toNat) (hz : z < s.depth.toNat) :
    (s.swizzledOffset (BitVec.ofNat 32 z) (BitVec.ofNat 32 y) (BitVec.ofNat 32 c)
      (pdep swizzleXBits (BitVec.ofNat 32 (c * s.bytesPerPixel.toNat % 64)))).toNat =
      s.address (c * s.bytesPerPixel.toNat) y z := by
  have hrow := h.row
  have hgob : (pdep swizzleXBits (BitVec.ofNat 32 (c * s.bytesPerPixel.toNat % 64)) |||
      pdep swizzleYBits (BitVec.ofNat 32 y)) =
      BitVec.ofNat 32 (gobOffset (c * s.bytesPerPixel.toNat % 64) (y % 8)) := by
    rw [gobOffset, ← pdep_swizzleYBits, ofNat_toNat, setWidth_eq]
  have hlt := (address_lt h hc hy hz).trans h.swizzledSize
  rw [swizzledOffset, offsetZ_eq h (by omega), offsetY_eq h (by omega), offsetX_eq h (by omega),
    hgob, ← ofNat_add, ← ofNat_add, ← ofNat_add, toNat_ofNat,
    ← Nat.mod_eq_of_lt hlt]
  congr 1
  rw [address, pow_add, pow_add]
  ring

end

/-! ## The linear layout -/

/-- The offset of a byte in the linear layout. -/
def linear (s : Surface) (x y z : Nat) : Nat := (z * s.height.toNat + y) * s.rowSize + x

include hx hy hz in
lemma linear_lt : s.linear x y z < s.linearSize :=
  radix_lt (radix_lt hz hy) hx

lemma linearSize_le (h : s.Fits) : s.linearSize ≤ s.swizzledSize := by
  have hstride : s.rowSize ≤ s.alignedStride := h.row.trans (le_pieces _ 6)
  have hheight : s.height.toNat ≤ s.alignedHeight := le_pieces _ _
  have hdepth : s.depth.toNat ≤ s.alignedDepth := le_pieces _ _
  calc s.linearSize
    _ = s.rowSize * s.height.toNat * s.depth.toNat := by rw [linearSize]; ring
    _ ≤ s.swizzledSize := Nat.mul_le_mul (Nat.mul_le_mul hstride hheight) hdepth

lemma unswizzledOffset_eq (h : s.Fits) (hc : c * s.bytesPerPixel.toNat < s.rowSize)
    (hy : y < s.height.toNat) (hz : z < s.depth.toNat) :
    (s.unswizzledOffset (BitVec.ofNat 32 z) (BitVec.ofNat 32 y) (BitVec.ofNat 32 c)).toNat =
      s.linear (c * s.bytesPerPixel.toNat) y z := by
  have hlt : s.linear (c * s.bytesPerPixel.toNat) y z < 2 ^ 32 :=
    ((linear_lt hc hy hz).trans_le (linearSize_le h)).trans h.swizzledSize
  have hpitch : s.pitch = BitVec.ofNat 32 s.rowSize := by
    rfl
  have hoffset : s.unswizzledOffset (BitVec.ofNat 32 z) (BitVec.ofNat 32 y) (BitVec.ofNat 32 c) =
      BitVec.ofNat 32 (z * s.rowSize * s.height.toNat + y * s.rowSize +
        c * s.bytesPerPixel.toNat) := by
    simp [unswizzledOffset, hpitch, ofNat_add, ofNat_mul]
  rw [hoffset, toNat_ofNat, ← Nat.mod_eq_of_lt hlt, linear]
  ring_nf

/-! ## The loops -/

/-- The copy of one pixel. -/
def pixelMove (s : Surface) (toLinear : Bool) (z y c : Nat) : Move :=
  let swizzled := s.address (c * s.bytesPerPixel.toNat) y z
  let unswizzled := s.linear (c * s.bytesPerPixel.toNat) y z
  ⟨if toLinear then swizzled else unswizzled, if toLinear then unswizzled else swizzled,
    s.bytesPerPixel.toNat⟩

/-- The copies of all pixels in the order of the loops. -/
def pixelMoves (s : Surface) (toLinear : Bool) : List Move :=
  (range s.depth.toNat).flatMap fun z => (range s.height.toNat).flatMap fun y =>
    (range s.width.toNat).map (s.pixelMove toLinear z y)

lemma bytesPerPixel_toNat (h : s.Fits) : ∃ k, k ≤ 4 ∧ s.bytesPerPixel = 1#32 <<< k ∧
    s.bytesPerPixel.toNat = 2 ^ k := by
  obtain ⟨k, hk, hpixel⟩ := h.pixel
  refine ⟨k, hk, hpixel, ?_⟩
  rw [hpixel, ofNat_shiftLeft, one_mul, toNat_ofNat]
  exact Nat.mod_eq_of_lt (Nat.pow_lt_pow_right (by decide) (by omega))

lemma bytesPerPixel_pos (h : s.Fits) : 0 < s.bytesPerPixel.toNat := by
  obtain ⟨k, -, -, hpow⟩ := bytesPerPixel_toNat h
  exact hpow ▸ Nat.two_pow_pos k

include h hc in
lemma column_lt : c * s.bytesPerPixel.toNat < s.rowSize :=
  mul_lt_mul_of_pos_right hc (bytesPerPixel_pos h)

variable {input output : List UInt8}
include h hc hy hz in
lemma copyPixel_eq {toLinear : Bool} :
    s.copyPixel toLinear input (BitVec.ofNat 32 z) (BitVec.ofNat 32 y) (BitVec.ofNat 32 c)
      (pdep swizzleXBits (BitVec.ofNat 32 (c * s.bytesPerPixel.toNat % 64))) output =
      (s.pixelMove toLinear z y c).apply input output := by
  rw [copyPixel, swizzledOffset_eq h (column_lt h hc) hy hz,
    unswizzledOffset_eq h (column_lt h hc) hy hz]
  rfl

lemma incrpdep_eq (h : s.Fits) (c : Nat) :
    incrpdep swizzleXBits s.bytesPerPixel
      (pdep swizzleXBits (BitVec.ofNat 32 (c * s.bytesPerPixel.toNat % 64))) =
      pdep swizzleXBits (BitVec.ofNat 32 ((c + 1) * s.bytesPerPixel.toNat % 64)) := by
  obtain ⟨k, hk, hpixel, hpow⟩ := bytesPerPixel_toNat h
  rw [hpow, hpixel, incrpdep_table _ (mod_lt _ (by decide)) k (by omega), mod_add_mod, Nat.succ_mul]

lemma ofNat_succ (i : Nat) : BitVec.ofNat 32 i + 1 = BitVec.ofNat 32 (i + 1) :=
  (ofNat_add i 1).symm

section
variable (toLinear : Bool) (input output : List UInt8)
include h

lemma columnLoop_eq (hy : y < s.height.toNat) (hz : z < s.depth.toNat) :
    s.columnLoop toLinear input (BitVec.ofNat 32 z) (BitVec.ofNat 32 y) s.width.toNat 0
      (pdep swizzleXBits 0) output =
      applyAll input ((range s.width.toNat).map (s.pixelMove toLinear z y)) output := by
  have hstart : pdep swizzleXBits 0 =
      pdep swizzleXBits (BitVec.ofNat 32 (0 * s.bytesPerPixel.toNat % 64)) := by
    rw [Nat.zero_mul]
    rfl
  rw [hstart, map_eq_flatMap]
  refine applyAll_loop (fun rounds c =>
    s.columnLoop toLinear input (BitVec.ofNat 32 z) (BitVec.ofNat 32 y) rounds (BitVec.ofNat 32 c)
      (pdep swizzleXBits (BitVec.ofNat 32 (c * s.bytesPerPixel.toNat % 64)))) _ (fun _ => rfl)
    (fun rounds c hc output => ?_) output
  rw [columnLoop, copyPixel_eq h hc hy hz, incrpdep_eq h, ofNat_succ]
  exact congrArg (Option.bind · _) (Option.bind_fun_some _).symm

lemma lineLoop_eq (hz : z < s.depth.toNat) :
    s.lineLoop toLinear input (BitVec.ofNat 32 z) s.height.toNat 0 output =
      applyAll input ((range s.height.toNat).flatMap fun y =>
        (range s.width.toNat).map (s.pixelMove toLinear z y)) output := by
  refine applyAll_loop (fun rounds y =>
    s.lineLoop toLinear input (BitVec.ofNat 32 z) rounds (BitVec.ofNat 32 y)) _ (fun _ => rfl)
    (fun rounds y hy output => ?_) output
  rw [lineLoop, columnLoop_eq h toLinear input output hy hz, ofNat_succ]
  rfl

lemma swizzleImpl_eq :
    s.swizzleImpl toLinear output input = applyAll input (s.pixelMoves toLinear) output := by
  refine applyAll_loop (fun rounds z => s.sliceLoop toLinear input rounds (BitVec.ofNat 32 z)) _
    (fun _ => rfl) (fun rounds z hz output => ?_) output
  rw [sliceLoop, lineLoop_eq h toLinear input output hz, ofNat_succ]
  rfl

end

/-! ## Bytes -/

/-- The place of a byte of the linear layout in the block-linear layout. -/
def swizzledByte (s : Surface) (p : Nat) : Nat :=
  s.address (p % s.rowSize) (p / s.rowSize % s.height.toNat) (p / s.rowSize / s.height.toNat)

include hx hy in
lemma swizzledByte_linear : s.swizzledByte (s.linear x y z) = s.address x y z := by
  rw [swizzledByte, linear, mul_add_mod_of_lt hx, radix_div hx, mul_add_mod_of_lt hy, radix_div hy]

lemma exists_linear (hp : p < s.linearSize) :
    ∃ x y z, x < s.rowSize ∧ y < s.height.toNat ∧ z < s.depth.toNat ∧ p = s.linear x y z := by
  have hrow : 0 < s.rowSize := pos_of_ne_zero fun hzero => by
    rw [linearSize, hzero, Nat.mul_zero] at hp
    omega
  have hdiv : p / s.rowSize < s.depth.toNat * s.height.toNat :=
    Nat.div_lt_of_lt_mul (by rw [mul_comm]; exact hp)
  have hheight : 0 < s.height.toNat := pos_of_ne_zero fun hzero => by
    rw [hzero, Nat.mul_zero] at hdiv
    exact absurd hdiv (not_lt_zero _)
  refine ⟨p % s.rowSize, p / s.rowSize % s.height.toNat, p / s.rowSize / s.height.toNat,
    mod_lt _ hrow, mod_lt _ hheight,
    Nat.div_lt_of_lt_mul (by rw [mul_comm]; exact hdiv), ?_⟩
  rw [linear, mul_comm _ s.height.toNat, div_add_mod, mul_comm, div_add_mod]

lemma swizzledByte_lt (h : s.Fits) (hp : p < s.linearSize) : s.swizzledByte p < s.swizzledSize := by
  obtain ⟨x, y, z, hx, hy, hz, rfl⟩ := exists_linear hp
  rw [swizzledByte_linear hx hy]
  exact address_lt h hx hy hz

lemma swizzledByte_inj (h : s.Fits) {q : Nat} (hp : p < s.linearSize) (hq : q < s.linearSize)
    (heq : s.swizzledByte p = s.swizzledByte q) : p = q := by
  obtain ⟨x, y, z, hx, hy, hz, rfl⟩ := exists_linear hp
  obtain ⟨x', y', z', hx', hy', hz', rfl⟩ := exists_linear hq
  rw [swizzledByte_linear hx hy, swizzledByte_linear hx' hy'] at heq
  obtain ⟨rfl, rfl, rfl⟩ := address_inj h hx hy hx' hy' heq
  rfl

lemma address_add (h : s.Fits) {j : Nat} (hj : j < s.bytesPerPixel.toNat) :
    s.address (c * s.bytesPerPixel.toNat + j) y z =
      s.address (c * s.bytesPerPixel.toNat) y z + j := by
  obtain ⟨k, hk, -, hpow⟩ := bytesPerPixel_toNat h
  rw [hpow] at hj ⊢
  have hdvd : 2 ^ k ∣ 64 := pow_dvd_pow 2 (show k ≤ 6 by omega)
  have hpixel : 2 ^ k ∣ c * 2 ^ k := dvd_mul_left _ _
  have hinside : c * 2 ^ k % 64 + j < 64 := mod_add_lt hdvd (by decide) hpixel hj
  have hgob : (c * 2 ^ k + j) / 64 = c * 2 ^ k / 64 := by omega
  have hplace : (c * 2 ^ k + j) % 64 = c * 2 ^ k % 64 + j := by omega
  have haligned : 2 ^ k ∣ c * 2 ^ k % 64 := (dvd_mod_iff hdvd).2 hpixel
  rw [address, address, hgob, hplace,
    gobOffset_add hinside (mod_lt _ (by decide)) hk haligned hj, add_assoc]

include h hc hy hz in
lemma pixelMove_spec {j : Nat} (hj : j < s.bytesPerPixel.toNat) :
    s.linear (c * s.bytesPerPixel.toNat) y z + j < s.linearSize ∧
      s.swizzledByte (s.linear (c * s.bytesPerPixel.toNat) y z + j) =
        s.address (c * s.bytesPerPixel.toNat) y z + j := by
  have hx : c * s.bytesPerPixel.toNat + j < s.rowSize := radix_lt hc hj
  have hsum : s.linear (c * s.bytesPerPixel.toNat) y z + j =
      s.linear (c * s.bytesPerPixel.toNat + j) y z := by
    rw [linear, linear, add_assoc]
  rw [hsum, swizzledByte_linear hx hy, address_add h hj]
  exact ⟨linear_lt hx hy hz, rfl⟩

lemma mem_pixelMoves {toLinear : Bool} {m : Move} :
    m ∈ s.pixelMoves toLinear ↔ ∃ z y c, z < s.depth.toNat ∧ y < s.height.toNat ∧
      c < s.width.toNat ∧ m = s.pixelMove toLinear z y c := by
  simp only [pixelMoves, mem_flatMap, mem_map, mem_range]
  constructor
  · rintro ⟨z, hz, y, hy, c, hc, rfl⟩
    exact ⟨z, y, c, hz, hy, hc, rfl⟩
  · rintro ⟨z, y, c, hz, hy, hc, rfl⟩
    exact ⟨z, hz, y, hy, c, hc, rfl⟩

lemma exists_pixel (h : s.Fits) (hp : p < s.linearSize) :
    ∃ z y c j, z < s.depth.toNat ∧ y < s.height.toNat ∧ c < s.width.toNat ∧
      j < s.bytesPerPixel.toNat ∧ p = s.linear (c * s.bytesPerPixel.toNat) y z + j := by
  obtain ⟨x, y, z, hx, hy, hz, rfl⟩ := exists_linear hp
  refine ⟨z, y, x / s.bytesPerPixel.toNat, x % s.bytesPerPixel.toNat, hz, hy,
    Nat.div_lt_of_lt_mul (by rw [mul_comm]; exact hx), mod_lt _ (bytesPerPixel_pos h), ?_⟩
  rw [linear, linear, add_assoc, mul_comm (x / _), div_add_mod]

include h hc hy hz in
lemma pixelMove_fits :
    s.address (c * s.bytesPerPixel.toNat) y z + s.bytesPerPixel.toNat ≤ s.swizzledSize ∧
      s.linear (c * s.bytesPerPixel.toNat) y z + s.bytesPerPixel.toNat ≤ s.linearSize := by
  have hpos := bytesPerPixel_pos h
  -- The last byte of the pixel is in bounds.
  obtain ⟨hlinear, hswizzled⟩ := pixelMove_spec h hc hy hz
    (show s.bytesPerPixel.toNat - 1 < s.bytesPerPixel.toNat by omega)
  have hlt := swizzledByte_lt h hlinear
  omega

/-- Every byte of the linear layout is copied from or to its place, and nothing else is changed. -/
lemma swizzleImpl_copied (h : s.Fits) (toLinear : Bool)
    (hswizzled : s.swizzledSize ≤ (if toLinear then output else input).length)
    (hlinear : s.linearSize ≤ (if toLinear then input else output).length) :
    ∃ result, s.swizzleImpl toLinear output input = some result ∧
      Copied s.linearSize (if toLinear then s.swizzledByte else id)
        (if toLinear then id else s.swizzledByte) input output result := by
  rw [swizzleImpl_eq h]
  refine applyAll_copied ?_ (fun m hm => ?_) (fun m hm j hj => ?_) fun p hp => ?_
  · cases toLinear with
    | false => exact Function.injective_id.injOn
    | true => exact fun p hp q hq => swizzledByte_inj h hp hq
  · obtain ⟨z, y, c, hz, hy, hc, rfl⟩ := mem_pixelMoves.mp hm
    obtain ⟨hfits, hfits'⟩ := pixelMove_fits h hc hy hz
    cases toLinear with
    | false => exact ⟨hfits'.trans hlinear, hfits.trans hswizzled⟩
    | true => exact ⟨hfits.trans hswizzled, hfits'.trans hlinear⟩
  · obtain ⟨z, y, c, hz, hy, hc, rfl⟩ := mem_pixelMoves.mp hm
    obtain ⟨hlt, hbyte⟩ := pixelMove_spec h hc hy hz hj
    cases toLinear with
    | false => exact ⟨_, hlt, rfl, hbyte⟩
    | true => exact ⟨_, hlt, hbyte, rfl⟩
  · obtain ⟨z, y, c, j, hz, hy, hc, hj, rfl⟩ := exists_pixel h hp
    have hbyte := (pixelMove_spec h hc hy hz hj).2
    refine ⟨_, mem_pixelMoves.mpr ⟨z, y, c, hz, hy, hc, rfl⟩, j, hj, ?_⟩
    cases toLinear with
    | false => exact ⟨rfl, hbyte⟩
    | true => exact ⟨hbyte, rfl⟩

end Surface

/-! ## Textures -/

namespace Params

variable (p : Params)

/-- The sizes of a texture, as numbers. -/
def alignedWidth : Nat := pieces p.width.toNat p.strideAlignment.toNat * 2 ^ p.strideAlignment.toNat

def strideBytes : Nat := p.alignedWidth * p.bytesPerPixel.toNat

/-- The stride in whole GOBs. -/
def alignedStride : Nat := pieces p.strideBytes 6 * 64

/-- The height in whole blocks. -/
def alignedHeight : Nat :=
  pieces p.height.toNat (p.blockHeight.toNat + 3) * 2 ^ (p.blockHeight.toNat + 3)

/-- The depth in whole blocks. -/
def alignedDepth : Nat := pieces p.depth.toNat p.blockDepth.toNat * 2 ^ p.blockDepth.toNat

def swizzledSize : Nat := p.alignedStride * p.alignedHeight * p.alignedDepth

def linearSize : Nat := p.depth.toNat * p.height.toNat * (p.width.toNat * p.bytesPerPixel.toNat)

/-- No size overflows 32 bits: the unit of the stride and the block, the aligned dimensions, and
the whole texture. -/
structure Fits : Prop where
  strideUnit : 2 ^ p.strideAlignment.toNat < 2 ^ 32
  block : 2 ^ (9 + p.blockHeight.toNat + p.blockDepth.toNat) < 2 ^ 32
  alignedWidth : p.alignedWidth < 2 ^ 32
  alignedStride : p.alignedStride < 2 ^ 32
  alignedHeight : p.alignedHeight < 2 ^ 32
  swizzledSize : p.swizzledSize < 2 ^ 32

/-- Where a byte of the linear image is stored. -/
def swizzledByte (i : Nat) : Nat := p.surface.swizzledByte i

variable {p}

lemma alignUpLog2_toNat {value log2 : BitVec 32} (hlog : log2.toNat < 32)
    (h : pieces value.toNat log2.toNat * 2 ^ log2.toNat < 2 ^ 32) :
    (alignUpLog2 value log2).toNat = pieces value.toNat log2.toNat * 2 ^ log2.toNat := by
  have hpow : 2 ^ log2.toNat < 2 ^ 32 := Nat.pow_lt_pow_right (by decide) hlog
  have hwide : value.setWidth 64 = BitVec.ofNat 64 value.toNat := (ofNat_toNat 64 value).symm
  have hmask : (1#64 <<< log2) - 1 = BitVec.ofNat 64 (2 ^ log2.toNat - 1) :=
    one_shiftLeft_sub_one (by omega)
  rw [alignUpLog2, hwide, hmask, ← ofNat_add, ushiftRight_eq',
    ofNat_ushiftRight (by omega), shiftLeft_eq', ofNat_shiftLeft, toNat_setWidth,
    toNat_ofNat]
  rw [pieces] at h ⊢
  rw [Nat.mod_eq_of_lt (h.trans (by decide)), Nat.mod_eq_of_lt h]

section
variable (h : p.Fits)
include h

lemma stride_eq : p.surface.stride.toNat = p.strideBytes := by
  have hlog : p.strideAlignment.toNat < 32 := (Nat.pow_lt_pow_iff_right (by decide)).mp h.strideUnit
  have hlt : p.strideBytes < 2 ^ 32 := (le_pieces _ 6).trans_lt h.alignedStride
  change (alignUpLog2 p.width p.strideAlignment * p.bytesPerPixel).toNat = _
  rw [toNat_mul, alignUpLog2_toNat hlog h.alignedWidth]
  exact Nat.mod_eq_of_lt hlt

/-- Taking rows as rows of larger pixels does not change their size. -/
lemma rowSize_eq :
    p.surface.rowSize = p.width.toNat * p.bytesPerPixel.toNat ∧
      p.surface.rowSize ≤ p.strideBytes := by
  have hle : p.width.toNat * p.bytesPerPixel.toNat ≤ p.strideBytes :=
    mul_le_mul_right _ (le_pieces _ _)
  have hlt : p.strideBytes < 2 ^ 32 := (le_pieces _ 6).trans_lt h.alignedStride
  have hrow : (p.width * p.bytesPerPixel).toNat = p.width.toNat * p.bytesPerPixel.toNat := by
    rw [toNat_mul, Nat.mod_eq_of_lt (hle.trans_lt hlt)]
  have hdvd : 2 ^ min 4 (p.width * p.bytesPerPixel).ctz.toNat ∣ (p.width * p.bytesPerPixel).toNat :=
    (pow_dvd_pow 2 (min_le_right _ _)).trans (two_pow_ctz_dvd _)
  have hsize : p.surface.rowSize = p.width.toNat * p.bytesPerPixel.toNat := by
    change ((p.width * p.bytesPerPixel) >>> min 4 (p.width * p.bytesPerPixel).ctz.toNat).toNat *
      (1#32 <<< min 4 (p.width * p.bytesPerPixel).ctz.toNat).toNat = _
    have hpow : 2 ^ min 4 (p.width * p.bytesPerPixel).ctz.toNat < 2 ^ 32 :=
      Nat.pow_lt_pow_right (by decide) (by omega)
    rw [toNat_ushiftRight, shiftRight_eq_div_pow, ofNat_shiftLeft, one_mul,
      toNat_ofNat, Nat.mod_eq_of_lt hpow, Nat.div_mul_cancel hdvd, hrow]
  exact ⟨hsize, hsize.trans_le hle⟩

lemma surface_fits : p.surface.Fits where
  block := (Nat.pow_lt_pow_iff_right (by decide)).mp h.block
  alignedStride := by
    rw [Surface.alignedStride, Surface.gobs, stride_eq h]
    exact h.alignedStride
  alignedHeight := h.alignedHeight
  swizzledSize := by
    rw [Surface.swizzledSize, Surface.alignedStride, Surface.gobs, stride_eq h]
    exact h.swizzledSize
  row := by
    rw [stride_eq h]
    exact (rowSize_eq h).2
  pixel := ⟨_, min_le_left _ _, rfl⟩

lemma surface_swizzledSize : p.surface.swizzledSize = p.swizzledSize := by
  rw [Surface.swizzledSize, Surface.alignedStride, Surface.gobs, stride_eq h]
  rfl

lemma surface_linearSize : p.surface.linearSize = p.linearSize := by
  rw [Surface.linearSize, (rowSize_eq h).1]
  rfl

end

lemma swizzle_surface (toLinear : Bool) (output input : List UInt8) :
    swizzle toLinear output input p.surface = p.surface.swizzleImpl toLinear output input := by
  have hsizes : ∀ k ≤ 4, 1#32 <<< k ∈ pixelSizes := by decide
  exact if_pos (hsizes _ (min_le_left _ _))

end Params

/-- Swizzling is a lossless permutation in bounds: what was swizzled is unswizzled to the same
image, every byte is stored at its place, places of different bytes are different, and all of them
are inside the aligned texture. -/
theorem swizzle_lossless (p : Params) (h : p.Fits) :
    (∀ image output output' : List UInt8, image.length = p.linearSize →
      p.swizzledSize ≤ output.length → output'.length = p.linearSize →
      ∃ stored, swizzleTexture output image p = some stored ∧
        (∀ i, i < p.linearSize → stored[p.swizzledByte i]? = image[i]?) ∧
        unswizzleTexture output' stored p = some image) ∧
    (∀ i j, i < p.linearSize → j < p.linearSize → p.swizzledByte i = p.swizzledByte j → i = j) ∧
    ∀ i, i < p.linearSize →
      p.swizzledByte i < p.alignedStride * p.alignedHeight * p.alignedDepth := by
  have hs := p.surface_fits h
  have hsize := p.surface_swizzledSize h
  have hlinear := p.surface_linearSize h
  rw [← hlinear]
  refine ⟨fun image output output' himage hout hout' => ?_, fun i j hi hj heq => ?_, fun i hi => ?_⟩
  · obtain ⟨stored, hswizzle, hstored⟩ :=
      swizzleImpl_copied hs true (hsize ▸ hout) himage.ge
    obtain ⟨back, hunswizzle, hback⟩ := swizzleImpl_copied hs false
      (show _ ≤ stored.length by rw [hstored.length_eq, hsize]; exact hout) hout'.ge
    refine ⟨stored, (Params.swizzle_surface true output image).trans hswizzle, hstored.put, ?_⟩
    have heq : back = image := by
      refine ext_getElem? fun i => ?_
      by_cases hi : i < p.surface.linearSize
      · exact (hback.put i hi).trans (hstored.put i hi)
      · have hlen := hback.length_eq
        rw [List.getElem?_eq_none (by omega), List.getElem?_eq_none (by omega)]
    rw [← heq]
    exact (Params.swizzle_surface false output' stored).trans hunswizzle
  · exact swizzledByte_inj hs hi hj heq
  · exact (swizzledByte_lt hs hi).trans_eq hsize

/-- Two slices of two rows of three pixels of four bytes. -/
def sampleTexture : Params where
  bytesPerPixel := 4
  width := 3
  height := 2
  depth := 2
  blockHeight := 1
  blockDepth := 1
  strideAlignment := 1

theorem swizzle_lossless_sampleTexture :
    sampleTexture.Fits ∧ ∃ stored,
      swizzleTexture (List.replicate 2048 0) (List.replicate 48 7) sampleTexture = some stored ∧
      unswizzleTexture (List.replicate 48 0) stored sampleTexture = some (List.replicate 48 7) := by
  have hfits : sampleTexture.Fits := by constructor <;> decide +kernel
  obtain ⟨stored, hswizzle, -, hunswizzle⟩ := (swizzle_lossless sampleTexture hfits).1
    (List.replicate 48 7) (List.replicate 2048 0) (List.replicate 48 0)
    (by decide +kernel)
    (by decide +kernel)
    (by decide +kernel)
  exact ⟨hfits, stored, hswizzle, hunswizzle⟩

end Drippu.VideoCore.Texture
