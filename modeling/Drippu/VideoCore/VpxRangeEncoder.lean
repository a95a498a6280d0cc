import Drippu.Common.Stream
import Drippu.Library.RangeCoding

/-!
# Video core - The range encoder of VP9 headers

`VpxRangeEncoder` writes bits with their probabilities as a byte stream, and the functions
above it write changed probabilities.  The reader is the boolean decoder of the VP9
specification with the syntax elements of the compressed header.

A probability is a number from 1 to 255.
-/

namespace Drippu.VideoCore.Vp9

open Common (Stream)
open Library.RangeCoding Reader

/-! ## Probabilities -/

structure Probability where
  value : Nat
  pos : 1 ≤ value
  le : value ≤ 255
  deriving DecidableEq, Repr

def halfProbability : Probability := ⟨128, by decide, by decide⟩

def diffUpdateProbability : Probability := ⟨252, by decide, by decide⟩

/-- How a range is split for a probability. -/
def split (range probability : Nat) : Nat := 1 + ((range - 1) * probability) >>> 8

/-! ## The encoder -/

structure VpxRangeEncoder where
  baseStream : Stream
  lowValue : Nat
  range : Nat
  count : Int
  deriving DecidableEq, Repr

namespace VpxRangeEncoder

/-- The members before the constructor runs. -/
def initial : VpxRangeEncoder := ⟨.empty, 0, 0xff, -24⟩

def peekByte (s : Stream) : Except Stream.Exception (UInt8 × Stream) := do
  let (value, s) ← s.readByte
  return (value, s.seekCurrent (-1))

/-- The loop over the bytes of a carry.  Each round goes two positions back, so there are no more
rounds than there are positions. -/
def carryLoop : (rounds : Nat) → Stream → Except Stream.Exception Stream
  | 0, s => .ok s
  | rounds + 1, s => do
    let (value, s) ← peekByte s
    if value = 0xff then carryLoop rounds ((s.writeByte 0).seekCurrent (-2)) else return s

/-- A carry into the bytes already written. -/
def propagateCarry (s : Stream) : Except Stream.Exception Stream := do
  let currentPos := Stream.toS32 s.position
  let s ← carryLoop (s.position + 2) (s.seekCurrent (-1))
  let (value, s) ← peekByte s
  return (s.writeByte (value + 1)).seekSet currentPos

variable (e : VpxRangeEncoder) (bit : Bool) (probability : Nat)

/-- The low end of the interval and its length for a bit. -/
def narrowed : Nat × Nat :=
  let s := split e.range probability
  if bit then ((e.lowValue + s) % 2 ^ 32, e.range - s) else (e.lowValue, s)

/-- The leading zeros of the range in eight bits. -/
def shiftOf (localRange : Nat) : Nat := if localRange = 0 then 0 else 31 - Nat.log2 localRange - 24

/-- A byte is due, and the low end has grown out of its bits. -/
def carries : Bool :=
  let (low, localRange) := e.narrowed bit probability
  let shift := shiftOf localRange
  let offset := (shift - (e.count + shift)).toNat
  e.count + shift ≥ 0 ∧ (low <<< (offset - 1) % 2 ^ 32) >>> 31 ≠ 0

/-- `Write` of a bit with a probability. -/
def write : Except Stream.Exception VpxRangeEncoder :=
  let (low, localRange) := e.narrowed bit probability
  let shift := shiftOf localRange
  let count := e.count + shift
  if count ≥ 0 then
    let offset := (shift - count).toNat
    (if e.carries bit probability then propagateCarry e.baseStream else .ok e.baseStream).map
      fun s =>
        { baseStream := s.writeByte (UInt8.ofNat (low >>> (24 - offset)))
          lowValue := ((low <<< offset % 2 ^ 32) &&& 0xffffff) <<< count.toNat % 2 ^ 32
          range := localRange <<< shift
          count := count - 8 }
  else
    .ok
      { e with
        lowValue := low <<< shift % 2 ^ 32
        range := localRange <<< shift
        count := count }

end VpxRangeEncoder

/-- Bits with their probabilities. -/
abbrev Script := List (Bool × Probability)

def writeAll (e : VpxRangeEncoder) : Script → Except Stream.Exception VpxRangeEncoder
  | [] => .ok e
  | w :: ws => (e.write w.1 w.2.value).bind fun e => writeAll e ws

/-- No write of a sequence has a carry. -/
def carryFree (e : VpxRangeEncoder) : Script → Bool
  | [] => true
  | w :: ws =>
    !e.carries w.1 w.2.value &&
      match e.write w.1 w.2.value with
      | .ok e => carryFree e ws
      | .error _ => true

/-- The constructor writes the marker, `End` writes 32 zeros. -/
def framed (ws : Script) : Script :=
  (false, halfProbability) :: (ws ++ List.replicate 32 (false, halfProbability))

/-- The bytes for a sequence of writes followed by `End`. -/
def encode (ws : Script) : Except Stream.Exception (List UInt8) :=
  (writeAll .initial (framed ws)).map fun e => e.baseStream.buffer

/-! ## Changed probabilities -/

/-- `Write` of the rightmost bits of a value. -/
def writeBits (value valueSize : Nat) : Script :=
  (List.range valueSize).reverse.map fun bit => (value.testBit bit, halfProbability)

def writeLessThan (value test : Nat) : Script := [(decide ¬ value < test, halfProbability)]

def encodeTermSubExp (value : Nat) : Script :=
  if value < 16 then writeLessThan value 16 ++ writeBits value 4
  else if value < 32 then
    writeLessThan value 16 ++ writeLessThan value 32 ++ writeBits (value - 16) 4
  else if value < 64 then
    writeLessThan value 16 ++ writeLessThan value 32 ++ writeLessThan value 64 ++
      writeBits (value - 32) 5
  else
    let mask : Int := 2 ^ 8 - 191
    let delta : Int := (value : Int) - 64 - mask
    writeLessThan value 16 ++ writeLessThan value 32 ++ writeLessThan value 64 ++
      if delta < 0 then writeBits (value - 64) 7
      else writeBits (delta / 2 + mask).toNat 7 ++ writeBits (delta % 2).toNat 1

def recenterNonNeg (newProb oldProb : Int) : Int :=
  if newProb > oldProb * 2 then newProb
  else if newProb ≥ oldProb then (newProb - oldProb) * 2
  else (oldProb - newProb) * 2 - 1

def remapProbability (newProb oldProb : Int) : Nat :=
  let newProb := newProb - 1
  let oldProb := oldProb - 1
  let i := (if oldProb * 2 ≤ 0xff then max 0 (recenterNonNeg newProb oldProb - 1)
    else max 0 (recenterNonNeg (0xff - 1 - newProb) (0xff - 1 - oldProb) - 1)).toNat % 2 ^ 8
  if (i + 7) % 13 = 0 then (i + 7) / 13 - 1 else i + 20 - (i + 7) / 13

def writeProbabilityUpdate (newProb oldProb : Probability) : Script :=
  let update := newProb.value ≠ oldProb.value
  (decide update, diffUpdateProbability) ::
    if update then encodeTermSubExp (remapProbability newProb.value oldProb.value) else []

/-! ## The decoder of the specification -/

lemma split_lt {range probability : Nat} (hrange : 128 ≤ range) (h : probability ≤ 255) :
    split range probability < range := by
  have hmul : (range - 1) * probability ≤ (range - 1) * 255 := Nat.mul_le_mul_left _ h
  rw [split, Nat.shiftRight_eq_div_pow]
  omega

/-- The boolean decoder: a range of eight bits. -/
def boolCoder : Coder Probability where
  width := 8
  split r p := split r p.value
  width_pos := by decide
  split_pos _ _ := Nat.add_pos_left Nat.one_pos _
  split_lt _ p h := split_lt h p.le

/-- The bits of a byte, the most significant first. -/
def bitsOf (b : UInt8) : List Bool := (List.range 8).reverse.map b.toNat.testBit

/-- `init_bool` without the marker: eight bits of the data are the value. -/
def initBool (bytes : List UInt8) : Decoder :=
  let bits := bytes.flatMap bitsOf
  ⟨head bits 8, 255, bits.drop 8⟩

/-- A literal of some bits. -/
def literal : Nat → Reader Probability Nat
  | 0 => pure 0
  | n + 1 => do
    let b ← bit halfProbability
    let rest ← literal n
    return (if b then 2 ^ n else 0) + rest

def decodeTermSubexp : Reader Probability Nat := do
  if (← literal 1) = 0 then literal 4
  else if (← literal 1) = 0 then return (← literal 4) + 16
  else if (← literal 1) = 0 then return (← literal 5) + 32
  else
    let v ← literal 7
    if v < 65 then return v + 64
    else return 2 * v - 1 + (← literal 1)

/-- `inv_map_table`: first every thirteenth number, then the others. -/
def invMapTable : List Nat :=
  let steps := (List.range 20).map (7 + 13 * ·)
  steps ++ ((List.range 254).filter fun v => v ≠ 0 ∧ v ∉ steps)

def invRecenterNonneg (v m : Nat) : Nat :=
  if v > 2 * m then v else if v % 2 = 1 then m - (v + 1) / 2 else m + v / 2

def invRemapProb (deltaProb prob : Nat) : Nat :=
  let v := invMapTable.getD deltaProb 0
  let m := prob - 1
  if 2 * m ≤ 255 then 1 + invRecenterNonneg v m else 255 - invRecenterNonneg v (255 - 1 - m)

/-- The marker and a bit for each probability. -/
def decodeBits (probs : List Probability) (bytes : List UInt8) : Bool × List Bool :=
  let reader := (bit halfProbability).bind fun marker =>
    (all probs).bind fun bits => .done (marker, bits)
  (reader.run boolCoder (initBool bytes)).1

/-- `diff_update_prob`: the new value of a probability. -/
def diffUpdateProb (prob : Nat) : Reader Probability Nat := do
  if ← bit diffUpdateProbability then
    let deltaProb ← decodeTermSubexp
    return invRemapProb deltaProb prob
  else return prob

/-- The new value of a probability, read behind other bits. -/
def decodeUpdate (probs : List Probability) (prob : Nat) (bytes : List UInt8) : Nat :=
  let reader := (bit halfProbability).bind fun _ =>
    (all probs).bind fun _ => diffUpdateProb prob
  (reader.run boolCoder (initBool bytes)).1

end Drippu.VideoCore.Vp9
