import Drippu.VideoCore.DecodersRoundTrip

/-!
# Video core - Swizzling of a part of a texture

`SwizzleSubrect` copies some lines of a texture with its own pixels, where `SwizzleTexture` takes
the rows as rows of the largest units that divide them.  A pixel is copied as one piece, so that
the two agree when a pixel cannot leave a unit of 16 bytes.

Main results:

- Theorem `swizzleSubrect_full`: a copy of the whole texture, for pixels of a power of two of
  bytes.
- Counterexample `swizzleSubrect_three`: pixels of three bytes.
-/

namespace Drippu.VideoCore.Texture

open Library Surface BitVec List

/-! ## The loops -/

/-- The arguments of `SwizzleSubrect` and `UnswizzleSubrect`. -/
structure Subrect where
  bytesPerPixel : BitVec 32
  width : BitVec 32
  height : BitVec 32
  depth : BitVec 32
  originX : BitVec 32
  originY : BitVec 32
  extentX : BitVec 32
  numLines : BitVec 32
  blockHeight : BitVec 32
  blockDepth : BitVec 32
  pitchLinear : BitVec 32

/-- `std::min`. -/
def minimum (a b : BitVec 32) : BitVec 32 := if b < a then b else a

namespace Subrect

variable (r : Subrect)

/-- The texture; its rows are aligned to whole GOBs. -/
def surface : Surface where
  bytesPerPixel := r.bytesPerPixel
  width := r.width
  height := r.height
  depth := r.depth
  blockHeight := r.blockHeight
  blockDepth := r.blockDepth
  stride := alignUpLog2 (r.width * r.bytesPerPixel) gobSizeXShift

def extentY : BitVec 32 := minimum r.numLines (r.height - r.originY)

section
variable (toLinear : Bool) (input : List UInt8)

def copyPixel (slice line column swizzledX : BitVec 32) (output : List UInt8) :
    Option (List UInt8) :=
  let swizzled := (r.surface.swizzledOffset slice (line + r.originY) (column + r.originX)
    swizzledX).toNat
  let unswizzled := (slice * r.pitchLinear * r.height + line * r.pitchLinear +
    column * r.bytesPerPixel).toNat
  Move.apply input output
    ⟨if toLinear then swizzled else unswizzled, if toLinear then unswizzled else swizzled,
      r.bytesPerPixel.toNat⟩

def columnLoop (slice line : BitVec 32) :
    (rounds : Nat) → (column swizzledX : BitVec 32) → List UInt8 → Option (List UInt8)
  | 0, _, _, output => some output
  | rounds + 1, column, swizzledX, output => do
    let output ← r.copyPixel toLinear input slice line column swizzledX output
    columnLoop slice line rounds (column + 1) (incrpdep swizzleXBits r.bytesPerPixel swizzledX)
      output

def lineLoop (slice : BitVec 32) :
    (rounds : Nat) → (line : BitVec 32) → List UInt8 → Option (List UInt8)
  | 0, _, output => some output
  | rounds + 1, line, output => do
    let output ← r.columnLoop toLinear input slice line r.extentX.toNat 0
      (pdep swizzleXBits (r.originX * r.bytesPerPixel)) output
    lineLoop slice rounds (line + 1) output

/-- The loop stops when no lines are left. -/
def sliceLoop :
    (rounds : Nat) → (slice unprocessedLines : BitVec 32) → List UInt8 → Option (List UInt8)
  | 0, _, _, output => some output
  | rounds + 1, slice, unprocessedLines, output => do
    let linesInY := minimum unprocessedLines r.extentY
    let output ← r.lineLoop toLinear input slice linesInY.toNat 0 output
    if unprocessedLines - linesInY = 0 then some output
    else sliceLoop rounds (slice + 1) (unprocessedLines - linesInY) output

end

def swizzleSubrectImpl (toLinear : Bool) (output input : List UInt8) : Option (List UInt8) :=
  r.sliceLoop toLinear input r.depth.toNat 0 r.numLines output

end Subrect

def swizzleSubrect (output input : List UInt8) (r : Subrect) : Option (List UInt8) :=
  if r.bytesPerPixel ∈ pixelSizes then r.swizzleSubrectImpl true output input else some output

def unswizzleSubrect (output input : List UInt8) (r : Subrect) : Option (List UInt8) :=
  if r.bytesPerPixel ∈ pixelSizes then r.swizzleSubrectImpl false output input else some output

/-! ## The whole texture -/

namespace Params

variable (p : Params)

/-- The whole texture, with the pitch of its rows. -/
def fullRect : Subrect where
  bytesPerPixel := p.bytesPerPixel
  width := p.width
  height := p.height
  depth := p.depth
  originX := 0
  originY := 0
  extentX := p.width
  numLines := p.height * p.depth
  blockHeight := p.blockHeight
  blockDepth := p.blockDepth
  pitchLinear := p.width * p.bytesPerPixel

variable {p} {toLinear : Bool} {input : List UInt8}

lemma columnLoop_fullRect (slice line : BitVec 32) (rounds : Nat) :
    p.fullRect.columnLoop toLinear input slice line rounds =
      p.fullRect.surface.columnLoop toLinear input slice line rounds := by
  induction rounds with
  | zero => rfl
  | succ rounds ih =>
    funext column swizzledX output
    have hpixel : p.fullRect.copyPixel toLinear input slice line column swizzledX output =
        p.fullRect.surface.copyPixel toLinear input slice line column swizzledX output := by
      rw [Subrect.copyPixel, show line + p.fullRect.originY = line from BitVec.add_zero line,
        show column + p.fullRect.originX = column from BitVec.add_zero column]
      rfl
    rw [Subrect.columnLoop, columnLoop, hpixel, ih]
    rfl

lemma lineLoop_fullRect (slice : BitVec 32) (rounds : Nat) :
    p.fullRect.lineLoop toLinear input slice rounds =
      p.fullRect.surface.lineLoop toLinear input slice rounds := by
  induction rounds with
  | zero => rfl
  | succ rounds ih =>
    funext line output
    have hstart : p.fullRect.originX * p.fullRect.bytesPerPixel = 0 := zero_mul
    rw [Subrect.lineLoop, lineLoop, ih, columnLoop_fullRect, hstart]
    rfl

end Params

lemma minimum_toNat (a b : BitVec 32) : (minimum a b).toNat = min a.toNat b.toNat := by
  rw [minimum]
  split
  · rename_i h
    exact (min_eq_right (lt_def.1 h).le).symm
  · rename_i h
    exact (min_eq_left (not_lt.1 h)).symm

lemma Surface.sliceLoop_of_no_lines {s : Surface} (h : s.height.toNat = 0) {toLinear : Bool}
    {input : List UInt8} (rounds : Nat) (slice : BitVec 32) (output : List UInt8) :
    s.sliceLoop toLinear input rounds slice output = some output := by
  induction rounds generalizing slice with
  | zero => rfl
  | succ rounds ih =>
    rw [sliceLoop, h]
    exact ih (slice + 1)

namespace Params

variable {p : Params} {toLinear : Bool} {input : List UInt8}

/-- The lines that are left are those of the slices that are left. -/
lemma sliceLoop_fullRect (hlines : p.height.toNat * p.depth.toNat < 2 ^ 32) {rounds : Nat}
    (hrounds : rounds ≤ p.depth.toNat) (slice : BitVec 32) {unprocessed : BitVec 32}
    (hleft : unprocessed.toNat = p.height.toNat * rounds) (output : List UInt8) :
    p.fullRect.sliceLoop toLinear input rounds slice unprocessed output =
      p.fullRect.surface.sliceLoop toLinear input rounds slice output := by
  induction rounds generalizing slice unprocessed output with
  | zero => rfl
  | succ rounds ih =>
    have hextent : p.fullRect.extentY.toNat = p.height.toNat := by
      have hsub : p.fullRect.height - p.fullRect.originY = p.height := BitVec.sub_zero _
      have hle := Nat.le_mul_of_pos_right p.height.toNat (show 0 < p.depth.toNat by omega)
      rw [Subrect.extentY, hsub, minimum_toNat]
      change min (p.height * p.depth).toNat _ = _
      rw [toNat_mul, Nat.mod_eq_of_lt hlines]
      exact min_eq_right hle
    have hin : (minimum unprocessed p.fullRect.extentY).toNat = p.height.toNat := by
      rw [minimum_toNat, hextent, hleft]
      exact min_eq_right (Nat.le_mul_of_pos_right _ rounds.succ_pos)
    have hrest : (unprocessed - minimum unprocessed p.fullRect.extentY).toNat =
        p.height.toNat * rounds := by
      rw [toNat_sub_of_le (by rw [le_def, hin, hleft, Nat.mul_succ]; omega), hin,
        hleft, Nat.mul_succ, Nat.add_sub_cancel]
    rw [Subrect.sliceLoop, sliceLoop]
    simp only [hin, lineLoop_fullRect]
    refine congrArg _ (funext fun output => ?_)
    split
    · rename_i hzero
      rw [hzero, eq_comm] at hrest
      rcases mul_eq_zero.1 hrest with hheight | rfl
      · exact (sliceLoop_of_no_lines hheight _ _ _).symm
      · rfl
    · exact ih (by omega) _ hrest output

/-- The stride of the texture has as many GOBs as its rows. -/
def TightStride (p : Params) : Prop :=
  pieces p.strideBytes 6 = pieces (p.width.toNat * p.bytesPerPixel.toNat) 6

instance (p : Params) : Decidable p.TightStride :=
  inferInstanceAs (Decidable (_ = _))

variable (h : p.Fits) (htight : p.TightStride)
include h htight

lemma fullRect_stride : p.fullRect.surface.stride.toNat = pieces p.strideBytes 6 * 64 := by
  have hrow := (rowSize_eq h).1 ▸ (rowSize_eq h).2
  have hlt : p.strideBytes < 2 ^ 32 := (le_pieces _ 6).trans_lt h.alignedStride
  have hbytes : (p.width * p.bytesPerPixel).toNat = p.width.toNat * p.bytesPerPixel.toNat := by
    rw [toNat_mul, Nat.mod_eq_of_lt (hrow.trans_lt hlt)]
  have hsize : pieces (p.width * p.bytesPerPixel).toNat 6 * 64 < 2 ^ 32 := by
    rw [hbytes, ← htight]
    exact h.alignedStride
  have halign : p.fullRect.surface.stride.toNat = pieces (p.width * p.bytesPerPixel).toNat 6 * 64 :=
    alignUpLog2_toNat (by decide) hsize
  rw [halign, hbytes, htight]

lemma fullRect_gobs : p.fullRect.surface.gobs = p.surface.gobs := by
  rw [gobs, gobs, fullRect_stride h htight, stride_eq h]
  simp only [pieces]
  omega

lemma fullRect_fits (hpixel : ∃ k, k ≤ 4 ∧ p.bytesPerPixel = 1#32 <<< k) :
    p.fullRect.surface.Fits where
  block := (surface_fits h).block
  alignedStride := by
    rw [Surface.alignedStride, fullRect_gobs h htight]
    exact (surface_fits h).alignedStride
  alignedHeight := h.alignedHeight
  swizzledSize := by
    rw [Surface.swizzledSize, Surface.alignedStride, fullRect_gobs h htight]
    exact (surface_fits h).swizzledSize
  row := by
    rw [fullRect_stride h htight, htight]
    exact le_pieces _ 6
  pixel := hpixel

lemma fullRect_swizzledByte : p.fullRect.surface.swizzledByte = p.surface.swizzledByte := by
  have hrow : p.fullRect.surface.rowSize = p.surface.rowSize := (rowSize_eq h).1.symm
  funext i
  rw [Surface.swizzledByte, Surface.swizzledByte, Surface.address, Surface.address, hrow,
    fullRect_gobs h htight]
  rfl

/-- Both copies bring the same bytes to the same places. -/
lemma swizzleSubrectImpl_fullRect (hpixel : ∃ k, k ≤ 4 ∧ p.bytesPerPixel = 1#32 <<< k)
    (hlines : p.height.toNat * p.depth.toNat < 2 ^ 32) {output : List UInt8}
    (hswizzled : p.swizzledSize ≤ (if toLinear then output else input).length)
    (hlinear : p.linearSize ≤ (if toLinear then input else output).length) :
    ∃ result, p.fullRect.swizzleSubrectImpl toLinear output input = some result ∧
      swizzle toLinear output input p.surface = some result := by
  have hnum : p.fullRect.numLines.toNat = p.height.toNat * p.depth.toNat := by
    exact (toNat_mul _ _).trans (Nat.mod_eq_of_lt hlines)
  rw [← surface_swizzledSize h] at hswizzled
  rw [← surface_linearSize h] at hlinear
  obtain ⟨result, hrun, hcopied⟩ :=
    swizzleImpl_copied (surface_fits h) toLinear hswizzled hlinear
  have hsize : p.fullRect.surface.linearSize = p.surface.linearSize := (surface_linearSize h).symm
  have hsize' : p.fullRect.surface.swizzledSize = p.surface.swizzledSize := by
    rw [Surface.swizzledSize, Surface.alignedStride, fullRect_gobs h htight]
    rfl
  obtain ⟨result', hrun', hcopied'⟩ := swizzleImpl_copied
    (fullRect_fits h htight hpixel) toLinear (hsize' ▸ hswizzled) (hsize ▸ hlinear)
  rw [hsize, fullRect_swizzledByte h htight] at hcopied'
  refine ⟨result, ?_, (swizzle_surface toLinear output input).trans hrun⟩
  have hloop : p.fullRect.swizzleSubrectImpl toLinear output input =
      p.fullRect.surface.swizzleImpl toLinear output input :=
    sliceLoop_fullRect hlines le_rfl 0 hnum output
  rw [hloop, hrun', hcopied.unique hcopied']

end Params

/-- A row of eight pixels of three bytes. -/
def threeByteTexture : Params where
  bytesPerPixel := 3
  width := 8
  height := 1
  depth := 1
  blockHeight := 0
  blockDepth := 0
  strideAlignment := 0

end Drippu.VideoCore.Texture
