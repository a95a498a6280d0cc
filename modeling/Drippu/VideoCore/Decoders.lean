import Drippu.Library.Layouts

/-!
# Video core - Block-linear textures

Textures of the guest are stored in blocks of GOBs of 64 by 8 bytes, with the bits of the two
coordinates interleaved inside a GOB.  The functions copy between that layout and a linear one,
pixel by pixel; the horizontal part of the offset inside a GOB is advanced from pixel to pixel
without unpacking it.

Offsets are 32-bit words.  A copy outside the spans is `none`.
-/

namespace Drippu.VideoCore.Texture

open Library

/-! ## Bit deposit -/

def gobSizeXShift : BitVec 32 := 6
def gobSizeYShift : BitVec 32 := 3
def gobSizeShift : BitVec 32 := 9

def swizzleXBits : BitVec 32 := 0b100101111
def swizzleYBits : BitVec 32 := 0b011010000

/-- The loop of `pdep`.  Every round clears the lowest bit of the mask, so that as many rounds
as there are bits are enough. -/
def pdepLoop (value : BitVec 32) : (rounds : Nat) → (m bit result : BitVec 32) → BitVec 32
  | 0, _, _, result => result
  | rounds + 1, m, bit, result =>
    if m = 0 then result
    else
      pdepLoop value rounds (m &&& (m - 1)) (bit + bit)
        (if value &&& bit ≠ 0 then result ||| (m &&& (~~~m + 1)) else result)

def pdep (mask value : BitVec 32) : BitVec 32 := pdepLoop value 32 mask 1 0

def incrpdep (mask incrAmount value : BitVec 32) : BitVec 32 :=
  ((value ||| ~~~mask) + pdep mask incrAmount) &&& mask

/-! ## Offsets -/

def divCeilLog2 (value alignmentLog2 : BitVec 32) : BitVec 32 :=
  (value + (1#32 <<< alignmentLog2) - 1) >>> alignmentLog2

/-- The sum is formed in 64 bits. -/
def alignUpLog2 (value alignLog2 : BitVec 32) : BitVec 32 :=
  ((value.setWidth 64 + ((1#64 <<< alignLog2) - 1)) >>> alignLog2 <<< alignLog2).setWidth 32

/-- The arguments of `SwizzleImpl`. -/
structure Surface where
  bytesPerPixel : BitVec 32
  width : BitVec 32
  height : BitVec 32
  depth : BitVec 32
  blockHeight : BitVec 32
  blockDepth : BitVec 32
  stride : BitVec 32

namespace Surface

variable (s : Surface)

def pitch : BitVec 32 := s.width * s.bytesPerPixel

def gobsInX : BitVec 32 := divCeilLog2 s.stride gobSizeXShift

def xShift : BitVec 32 := gobSizeShift + s.blockHeight + s.blockDepth

def blockSize : BitVec 32 := s.gobsInX <<< s.xShift

def sliceSize : BitVec 32 := divCeilLog2 s.height (s.blockHeight + gobSizeYShift) * s.blockSize

def blockHeightMask : BitVec 32 := (1#32 <<< s.blockHeight) - 1

def blockDepthMask : BitVec 32 := (1#32 <<< s.blockDepth) - 1

def offsetZ (z : BitVec 32) : BitVec 32 :=
  (z >>> s.blockDepth) * s.sliceSize + ((z &&& s.blockDepthMask) <<< (gobSizeShift + s.blockHeight))

def offsetY (y : BitVec 32) : BitVec 32 :=
  let blockY := y >>> gobSizeYShift
  (blockY >>> s.blockHeight) * s.blockSize + ((blockY &&& s.blockHeightMask) <<< gobSizeShift)

def offsetX (column : BitVec 32) : BitVec 32 :=
  ((column * s.bytesPerPixel) >>> gobSizeXShift) <<< s.xShift

def swizzledOffset (slice line column swizzledX : BitVec 32) : BitVec 32 :=
  s.offsetZ slice + s.offsetY line + s.offsetX column + (swizzledX ||| pdep swizzleYBits line)

def unswizzledOffset (slice line column : BitVec 32) : BitVec 32 :=
  slice * s.pitch * s.height + line * s.pitch + column * s.bytesPerPixel

/-! ## Loops -/

/-- The body of the innermost loop. -/
def copyPixel (toLinear : Bool) (input : List UInt8) (slice line column swizzledX : BitVec 32)
    (output : List UInt8) : Option (List UInt8) :=
  let swizzled := (s.swizzledOffset slice line column swizzledX).toNat
  let unswizzled := (s.unswizzledOffset slice line column).toNat
  Move.apply input output
    ⟨if toLinear then swizzled else unswizzled, if toLinear then unswizzled else swizzled,
      s.bytesPerPixel.toNat⟩

def columnLoop (toLinear : Bool) (input : List UInt8) (slice line : BitVec 32) :
    (rounds : Nat) → (column swizzledX : BitVec 32) → List UInt8 → Option (List UInt8)
  | 0, _, _, output => some output
  | rounds + 1, column, swizzledX, output => do
    let output ← s.copyPixel toLinear input slice line column swizzledX output
    columnLoop toLinear input slice line rounds (column + 1)
      (incrpdep swizzleXBits s.bytesPerPixel swizzledX) output

def lineLoop (toLinear : Bool) (input : List UInt8) (slice : BitVec 32) :
    (rounds : Nat) → (line : BitVec 32) → List UInt8 → Option (List UInt8)
  | 0, _, output => some output
  | rounds + 1, line, output => do
    let output ← s.columnLoop toLinear input slice line s.width.toNat 0 (pdep swizzleXBits 0) output
    lineLoop toLinear input slice rounds (line + 1) output

def sliceLoop (toLinear : Bool) (input : List UInt8) :
    (rounds : Nat) → (slice : BitVec 32) → List UInt8 → Option (List UInt8)
  | 0, _, output => some output
  | rounds + 1, slice, output => do
    let output ← s.lineLoop toLinear input slice s.height.toNat 0 output
    sliceLoop toLinear input rounds (slice + 1) output

def swizzleImpl (toLinear : Bool) (output input : List UInt8) : Option (List UInt8) :=
  s.sliceLoop toLinear input s.depth.toNat 0 output

end Surface

/-- The pixel sizes that `Swizzle` has an instance for; the others only fail an assertion. -/
def pixelSizes : List (BitVec 32) := [1, 2, 3, 4, 6, 8, 12, 16]

instance (size : BitVec 32) : Decidable (size ∈ pixelSizes) := inferInstance

def swizzle (toLinear : Bool) (output input : List UInt8) (s : Surface) : Option (List UInt8) :=
  if s.bytesPerPixel ∈ pixelSizes then s.swizzleImpl toLinear output input else some output

/-! ## Textures -/

/-- The arguments of `UnswizzleTexture` and `SwizzleTexture`. -/
structure Params where
  bytesPerPixel : BitVec 32
  width : BitVec 32
  height : BitVec 32
  depth : BitVec 32
  blockHeight : BitVec 32
  blockDepth : BitVec 32
  strideAlignment : BitVec 32

/-- Rows are taken as rows of the largest pixels, up to 16 bytes, that divide them. -/
def Params.surface (p : Params) : Surface :=
  let newBpp := min 4 (p.width * p.bytesPerPixel).ctz.toNat
  { bytesPerPixel := 1#32 <<< newBpp
    width := (p.width * p.bytesPerPixel) >>> newBpp
    height := p.height
    depth := p.depth
    blockHeight := p.blockHeight
    blockDepth := p.blockDepth
    stride := alignUpLog2 p.width p.strideAlignment * p.bytesPerPixel }

def unswizzleTexture (output input : List UInt8) (p : Params) : Option (List UInt8) :=
  swizzle false output input p.surface

def swizzleTexture (output input : List UInt8) (p : Params) : Option (List UInt8) :=
  swizzle true output input p.surface

end Drippu.VideoCore.Texture
