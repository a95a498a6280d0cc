import Drippu.Library.ByteStrings
import Drippu.VideoCore.VpxRangeEncoder

/-!
# Video core - Round trip of the VP9 range encoder

As long as no carry has to go into the bytes already written, the registers and the bytes of the
encoder are the interval of the range coder, and the zeros of `End` push its low end out
completely.  A carry ends in an exception: the step back from the end of the stream does not
move, and the read behind it is out of range.

Main results:

- Theorem `round_trip`: sequences without a carry are read back, the others end in an
  exception.
-/

namespace Drippu.VideoCore.Vp9

open Common (Stream)
open Library Library.RangeCoding Coder Nat VpxRangeEncoder UInt8
open List hiding head

/-! ## The registers and the interval -/

/-- The encoder holds an interval: its low end is in the bytes and in the low register, and
`q` more bits are needed for the next byte. -/
structure Represents (e : VpxRangeEncoder) (i : Interval) (q : Nat) : Prop where
  full : boolCoder.Full i
  range : e.range = i.range
  position : e.baseStream.position = e.baseStream.buffer.length
  count : e.count = -(q : Int)
  q_pos : 1 ≤ q
  q_le : q ≤ 24
  shift : i.shift + q = 24 + 8 * e.baseStream.buffer.length
  low : i.low = beValue e.baseStream.buffer * 2 ^ (32 - q) + e.lowValue
  bound : e.lowValue + e.range ≤ 2 ^ (33 - q)

lemma full_iff (i : Interval) : boolCoder.Full i ↔ 128 ≤ i.range ∧ i.range < 256 :=
  Iff.rfl

lemma represents_initial : Represents .initial ⟨0, 255, 0⟩ 24 where
  full := (full_iff _).mpr (by decide)
  range := rfl
  position := rfl
  count := rfl
  q_pos := by decide
  q_le := by decide
  shift := rfl
  low := rfl
  bound := by decide

lemma shiftOf_eq {r : Nat} (h : r ≠ 0) : shiftOf r = boolCoder.norm r := by
  rw [shiftOf, if_neg h, Coder.norm]
  change _ = 8 - 1 - _
  omega

lemma norm_le (r : Nat) : boolCoder.norm r ≤ 7 := by
  rw [Coder.norm]
  change 8 - 1 - _ ≤ 7
  omega

/-- The low end and the range for a bit before they are stretched, and by how much they are. -/
structure Narrowed (e : VpxRangeEncoder) (i : Interval) (q : Nat) (w : Bool × Probability)
    (low r n : Nat) : Prop where
  narrowed : e.narrowed w.1 w.2.value = (low, r)
  shift : shiftOf r = n
  shift_le : n ≤ 7
  pos : 0 < r
  range_lt : r * 2 ^ n < 2 ^ 8
  bound : low + r ≤ 2 ^ (33 - q)
  interval : boolCoder.narrow i w =
    ⟨(beValue e.baseStream.buffer * 2 ^ (32 - q) + low) * 2 ^ n, r * 2 ^ n, i.shift + n⟩

lemma Represents.narrowed {e : VpxRangeEncoder} {i : Interval} {q : Nat}
    (h : Represents e i q) (w : Bool × Probability) :
    ∃ low r n, Narrowed e i q w low r n ∧
      (w.1 = false → low = e.lowValue ∧ r = split e.range w.2.value) := by
  obtain ⟨b, p⟩ := w
  have hpos := boolCoder.split_pos i.range p
  have hlt := boolCoder.split_lt i.range p h.full.1
  have hfull := (full_iff i).mp h.full
  have hbound := h.bound
  have hpow : 2 ^ (33 - q) ≤ 2 ^ 32 := by
    have := h.q_pos
    exact Nat.pow_le_pow_right (by decide) (by omega)
  have hsplit : boolCoder.split i.range p = split i.range p.value := rfl
  rw [h.range] at hbound ⊢
  have hnorm : ∀ r, 0 < r → r ≤ i.range → r * 2 ^ boolCoder.norm r < 2 ^ 8 := by
    intro r hr hle
    exact (norm_bounds (c := boolCoder) hr (lt_of_le_of_lt hle hfull.2)).2
  cases b with
  | false =>
    refine ⟨e.lowValue, split i.range p.value, _,
      ⟨?_, shiftOf_eq hpos.ne', norm_le _, hpos, hnorm _ hpos hlt.le, by omega, ?_⟩,
      fun _ => ⟨rfl, rfl⟩⟩
    · simp [VpxRangeEncoder.narrowed, h.range]
    · simp [narrow, h.low, hsplit]
  | true =>
    refine ⟨e.lowValue + split i.range p.value, i.range - split i.range p.value, _,
      ⟨?_, shiftOf_eq (by omega), norm_le _, by omega, hnorm _ (by omega) (by omega), by omega, ?_⟩,
      fun h => Bool.noConfusion h⟩
    · simp only [VpxRangeEncoder.narrowed, h.range, if_true]
      rw [mod_eq_of_lt (by omega)]
    · simp [narrow, h.low, hsplit, add_assoc]

/-! ## One write -/

lemma emit_identity {B low n q : Nat} (hn : q ≤ n) (hq : q ≤ 24) :
    (B * 2 ^ (32 - q) + low) * 2 ^ n =
      (B * 256 + low / 2 ^ (24 - q)) * 2 ^ (24 + (n - q)) +
        low % 2 ^ (24 - q) * 2 ^ q * 2 ^ (n - q) := by
  have h₁ : 2 ^ n = 2 ^ q * 2 ^ (n - q) := (two_pow_mul (by omega)).symm
  have h₂ : 2 ^ (32 - q) = 2 ^ 8 * 2 ^ (24 - q) := (two_pow_mul (by omega)).symm
  have h₃ : 2 ^ (24 + (n - q)) = 2 ^ (24 - q) * 2 ^ q * 2 ^ (n - q) := by
    rw [two_pow_mul (show 24 - q + q = 24 by omega), two_pow_mul rfl]
  have hlow := div_add_mod low (2 ^ (24 - q))
  rw [h₁, h₂, h₃]
  calc (B * (2 ^ 8 * 2 ^ (24 - q)) + low) * (2 ^ q * 2 ^ (n - q))
      = (B * (2 ^ 8 * 2 ^ (24 - q)) + (2 ^ (24 - q) * (low / 2 ^ (24 - q)) +
          low % 2 ^ (24 - q))) * (2 ^ q * 2 ^ (n - q)) := by rw [hlow]
    _ = _ := by ring

lemma emit_low {low n q : Nat} (hq : q ≤ n) (hn : n ≤ 7) (hlow : low < 2 ^ (32 - q)) :
    ((low <<< q % 2 ^ 32) &&& 0xffffff) <<< (n - q) % 2 ^ 32 =
      low % 2 ^ (24 - q) * 2 ^ q * 2 ^ (n - q) := by
  have hsmall : low * 2 ^ q < 2 ^ 32 := mul_two_pow_lt hlow (by omega)
  have hmask : low * 2 ^ q % 2 ^ 24 = low % 2 ^ (24 - q) * 2 ^ q := by
    rw [← two_pow_mul (show 24 - q + q = 24 by omega), mul_mod_mul_right]
  have hbits : (0xffffff : Nat) = 2 ^ 24 - 1 := rfl
  rw [shiftLeft_eq, shiftLeft_eq, mod_eq_of_lt hsmall, hbits, and_two_pow_sub_one_eq_mod, hmask]
  rw [← hmask]
  exact mod_eq_of_lt (mul_two_pow_lt (mod_lt _ (by decide)) (by omega))

/-- The test for a carry is a comparison with the bits the low end may have. -/
lemma carry_test {low q : Nat} (hq : 1 ≤ q) (hq' : q ≤ 24) (hlow : low < 2 ^ (33 - q)) :
    (low <<< (q - 1) % 2 ^ 32) >>> 31 ≠ 0 ↔ 2 ^ (32 - q) ≤ low := by
  have hsmall : low * 2 ^ (q - 1) < 2 ^ 32 := mul_two_pow_lt hlow (by omega)
  have h31 : 2 ^ 31 = 2 ^ (32 - q) * 2 ^ (q - 1) := (two_pow_mul (by omega)).symm
  rw [shiftLeft_eq, mod_eq_of_lt hsmall, shiftRight_eq_div_pow, ne_eq,
    Nat.div_eq_zero_iff, not_or, not_lt, h31]
  constructor
  · rintro ⟨-, h⟩
    exact Nat.le_of_mul_le_mul_right h (Nat.two_pow_pos _)
  · intro h
    exact ⟨(mul_pos (Nat.two_pow_pos _) (Nat.two_pow_pos _)).ne', Nat.mul_le_mul_right _ h⟩

variable {e e' : VpxRangeEncoder} {i : Interval} {q : Nat}

section
variable {w : Bool × Probability} {low r n : Nat} (h : Represents e i q)
include h

section
variable (hw : Narrowed e i q w low r n)
include hw

lemma Represents.carries_iff : e.carries w.1 w.2.value ↔ q ≤ n ∧ 2 ^ (32 - q) ≤ low := by
  have hpos := hw.pos
  have hbound := hw.bound
  have htest := carry_test h.q_pos h.q_le (show low < 2 ^ (33 - q) by omega)
  have hoffset : ((n : Int) - (-(q : Int) + (n : Int))).toNat = q := by omega
  simp only [carries, hw.narrowed, hw.shift, h.count, hoffset,
    decide_eq_true_eq, htest]
  omega

/-- A byte is due and does not carry. -/
lemma Represents.low_lt (hcarry : e.carries w.1 w.2.value = false) (hdue : q ≤ n) :
    low < 2 ^ (32 - q) := by
  by_contra hge
  have hcarries := (h.carries_iff hw).mpr ⟨hdue, not_lt.mp hge⟩
  rw [hcarry] at hcarries
  cases hcarries

lemma Represents.write_short (hdue : n < q) :
    ∃ e', e.write w.1 w.2.value = .ok e' ∧ Represents e' (boolCoder.narrow i w) (q - n) ∧
      e'.lowValue = low * 2 ^ n := by
  have hpos := hw.pos
  have hbound := hw.bound
  have hq := h.q_le
  have hshift := h.shift
  have hsmall : low * 2 ^ n < 2 ^ 32 := mul_two_pow_lt (show low < 2 ^ (33 - q) by omega) (by omega)
  have hcount : ¬ (-(q : Int) + (n : Int) ≥ 0) := by omega
  have hwrite : e.write w.1 w.2.value = .ok { e with
      lowValue := low * 2 ^ n, range := r * 2 ^ n, count := -(q : Int) + n } := by
    simp only [VpxRangeEncoder.write, hw.narrowed, hw.shift, h.count, if_neg hcount,
      shiftLeft_eq, mod_eq_of_lt hsmall]
  refine ⟨_, hwrite, ⟨full_narrow h.full w, ?_, h.position, ?_, by omega, by omega, ?_, ?_,
    ?_⟩, rfl⟩
  · rw [hw.interval]
  · dsimp only
    omega
  · rw [hw.interval]
    dsimp only
    omega
  · rw [hw.interval]
    dsimp only
    rw [add_mul, mul_assoc, ← pow_add]
    congr 3
    omega
  · rw [← add_mul]
    calc (low + r) * 2 ^ n ≤ 2 ^ (33 - q) * 2 ^ n := Nat.mul_le_mul_right _ hbound
      _ = 2 ^ (33 - (q - n)) := two_pow_mul (by omega)

lemma Represents.write_byte (hdue : q ≤ n) (hlow : low < 2 ^ (32 - q)) :
    ∃ e', e.write w.1 w.2.value = .ok e' ∧
      Represents e' (boolCoder.narrow i w) (8 - (n - q)) ∧
      e'.lowValue < 2 ^ (32 - (8 - (n - q))) := by
  have hn := hw.shift_le
  have hq' := h.q_le
  have hshift := h.shift
  have hcarry : e.carries w.1 w.2.value = false := by
    rw [← Bool.not_eq_true, h.carries_iff hw]
    omega
  have hcount : -(q : Int) + (n : Int) ≥ 0 := by omega
  have hoffset : ((n : Int) - (-(q : Int) + (n : Int))).toNat = q := by omega
  have htoNat : (-(q : Int) + (n : Int)).toNat = n - q := by omega
  have hwrite : e.write w.1 w.2.value = .ok
      { baseStream := e.baseStream.writeByte (ofNat (low >>> (24 - q)))
        lowValue := low % 2 ^ (24 - q) * 2 ^ q * 2 ^ (n - q)
        range := r * 2 ^ n
        count := -(q : Int) + n - 8 } := by
    simp only [VpxRangeEncoder.write, hw.narrowed, hw.shift, h.count, if_pos hcount, hcarry,
      Bool.false_eq_true, if_false, Except.map, hoffset, htoNat, emit_low hdue hn hlow]
    rw [shiftLeft_eq]
  have hbyte : (ofNat (low >>> (24 - q))).toNat = low / 2 ^ (24 - q) := by
    rw [toNat_ofNat', shiftRight_eq_div_pow]
    apply mod_eq_of_lt
    rw [Nat.div_lt_iff_lt_mul (Nat.two_pow_pos _)]
    exact hlow.trans_eq (two_pow_mul (by omega)).symm
  have hlast : low % 2 ^ (24 - q) * 2 ^ q * 2 ^ (n - q) < 2 ^ (24 + (n - q)) := by
    have hmod : low % 2 ^ (24 - q) < 2 ^ (24 - q) := mod_lt _ (Nat.two_pow_pos _)
    exact mul_two_pow_lt (mul_two_pow_lt hmod (by omega)) le_rfl
  have hend := Stream.writeByte_at_end h.position (ofNat (low >>> (24 - q)))
  have hexp : 32 - (8 - (n - q)) = 24 + (n - q) := by omega
  refine ⟨_, hwrite, ⟨full_narrow h.full w, ?_, ?_, ?_, by omega, by omega, ?_, ?_, ?_⟩, ?_⟩
  · rw [hw.interval]
  · rw [hend]
    simp
  · dsimp only
    omega
  · rw [hw.interval, hend]
    simp only [length_append, length_singleton]
    omega
  · rw [hw.interval, hend]
    rw [emit_identity hdue hq', hexp, beValue_append_singleton, hbyte]
  · have hrange := hw.range_lt
    have hpow : 2 ^ 8 ≤ 2 ^ (24 + (n - q)) := Nat.pow_le_pow_right (by decide) (by omega)
    dsimp only
    rw [show 33 - (8 - (n - q)) = 24 + (n - q) + 1 by omega, pow_succ]
    omega
  · rw [hexp]
    exact hlast

end

lemma Represents.write (hcarry : e.carries w.1 w.2.value = false) :
    ∃ e' q', e.write w.1 w.2.value = .ok e' ∧ Represents e' (boolCoder.narrow i w) q' ∧
      e'.baseStream.buffer.length ≤ e.baseStream.buffer.length + 1 := by
  obtain ⟨low, r, n, hw, -⟩ := h.narrowed w
  have hshift := h.shift
  have hn := hw.shift_le
  obtain ⟨e', q', hwrite, hrep, hq'⟩ : ∃ e' q', e.write w.1 w.2.value = .ok e' ∧
      Represents e' (boolCoder.narrow i w) q' ∧ q' + n ≤ q + 8 := by
    by_cases hdue : n < q
    · obtain ⟨e', hwrite, hrep, -⟩ := h.write_short hw hdue
      exact ⟨e', _, hwrite, hrep, by omega⟩
    · have hlow := h.low_lt hw hcarry (not_lt.mp hdue)
      obtain ⟨e', hwrite, hrep, -⟩ := h.write_byte hw (not_lt.mp hdue) hlow
      exact ⟨e', _, hwrite, hrep, by omega⟩
  have hshift' := hrep.shift
  rw [hw.interval] at hshift'
  dsimp only at hshift'
  exact ⟨e', q', hwrite, hrep, by omega⟩

lemma Represents.write_carry (hcarry : e.carries w.1 w.2.value)
    (hlen : e.baseStream.buffer.length < 2 ^ 31) :
    e.write w.1 w.2.value = .error .outOfRange := by
  obtain ⟨low, r, n, hw, -⟩ := h.narrowed w
  obtain ⟨hdue, -⟩ := (h.carries_iff hw).mp hcarry
  have hcount : -(q : Int) + (n : Int) ≥ 0 := by omega
  have hstay := Stream.seek_back_at_end h.position (by rw [h.position]; exact hlen)
  have hread := Stream.readByte_at_end h.position
  have hthrow : propagateCarry e.baseStream = .error .outOfRange := by
    simp [propagateCarry, hstay, carryLoop,
      peekByte, hread, bind, Except.bind]
  simp only [VpxRangeEncoder.write, hw.narrowed, hw.shift, h.count, if_pos hcount, hcarry, if_true,
    hthrow, Except.map]

end

/-! ## Whole sequences -/

variable (bytes : List UInt8) (m : Nat) {ws : Script}

lemma carryFree_cons {w : Bool × Probability} :
    carryFree e (w :: ws) ↔ e.carries w.1 w.2.value = false ∧
      ∀ e', e.write w.1 w.2.value = .ok e' → carryFree e' ws := by
  rw [carryFree]
  cases e.write w.1 w.2.value <;> simp

lemma writeAll_cons_of_ok {w : Bool × Probability} (h : e.write w.1 w.2.value = .ok e')
    (ws : Script) : writeAll e (w :: ws) = writeAll e' ws := by
  rw [writeAll, h]
  rfl

lemma writeAll_append (ws ws' : Script) :
    writeAll e (ws ++ ws') = (writeAll e ws).bind fun e => writeAll e ws' := by
  induction ws generalizing e with
  | nil => rfl
  | cons w ws ih =>
    rw [cons_append, writeAll, writeAll]
    cases e.write w.1 w.2.value with
    | error x => rfl
    | ok e' => exact ih

lemma Represents.writeAll (h : Represents e i q) (hfree : carryFree e ws) :
    ∃ e' q', Vp9.writeAll e ws = .ok e' ∧ Represents e' (ws.foldl boolCoder.narrow i) q' := by
  induction ws generalizing e i q with
  | nil => exact ⟨e, q, rfl, h⟩
  | cons w ws ih =>
    obtain ⟨hcarry, hrest⟩ := carryFree_cons.mp hfree
    obtain ⟨e₁, q₁, hwrite, hrep, -⟩ := h.write hcarry
    rw [writeAll_cons_of_ok hwrite]
    exact ih hrep (hrest e₁ hwrite)

lemma carryFree_append {ws' : Script} :
    carryFree e (ws ++ ws') ↔
      carryFree e ws ∧ ∀ e', Vp9.writeAll e ws = .ok e' → carryFree e' ws' := by
  induction ws generalizing e with
  | nil => simp [carryFree, Vp9.writeAll]
  | cons w ws ih =>
    rw [cons_append, carryFree_cons, carryFree_cons, Vp9.writeAll]
    cases e.write w.1 w.2.value with
    | error x => simp [Except.bind]
    | ok e₁ => simp [Except.bind, ih, and_assoc]

lemma Represents.writeAll_carry (h : Represents e i q) (hfree : carryFree e ws = false)
    (hlen : e.baseStream.buffer.length + ws.length < 2 ^ 31) :
    Vp9.writeAll e ws = .error .outOfRange := by
  induction ws generalizing e i q with
  | nil => exact absurd hfree (by simp [carryFree])
  | cons w ws ih =>
    rw [length_cons] at hlen
    cases hcarry : e.carries w.1 w.2.value with
    | true =>
      rw [Vp9.writeAll, h.write_carry hcarry (by omega)]
      rfl
    | false =>
      obtain ⟨e₁, q₁, hwrite, hrep, hbytes⟩ := h.write hcarry
      have hfree₁ : carryFree e₁ ws = false := by
        simpa [carryFree, hcarry, hwrite] using hfree
      rw [writeAll_cons_of_ok hwrite]
      exact ih hrep hfree₁ (by omega)

/-! ## The zeros behind a sequence -/

/-- Zeros as `End` writes them. -/
abbrev zeroBits (m : Nat) : Script := replicate m (false, halfProbability)

lemma zeroBits_succ : zeroBits (m + 1) = (false, halfProbability) :: zeroBits m := rfl

lemma split_half {range : Nat} (h : 128 ≤ range) (h' : range < 256) :
    split range 128 = (range + 1) / 2 := by
  rw [split, shiftRight_eq_div_pow]
  omega

lemma norm_of_ge {r n : Nat} (hle : 2 ^ (7 - n) ≤ r) (hlt : r < 2 ^ (8 - n)) (hn : n ≤ 7) :
    boolCoder.norm r = n := by
  have hpos : r ≠ 0 := (lt_of_lt_of_le (Nat.two_pow_pos _) hle).ne'
  have hlow := (le_log2 hpos).mpr hle
  have hhigh := (log2_lt hpos).mpr hlt
  rw [Coder.norm]
  change 8 - 1 - _ = n
  omega

/-- A zero with half probability stretches by one bit, except for the longest range. -/
lemma narrow_zero (h : boolCoder.Full i) :
    ∃ n, boolCoder.norm (split i.range 128) = n ∧ (i.range ≤ 254 → n = 1) ∧
      split i.range 128 * 2 ^ n ≤ 254 := by
  obtain ⟨hge, hlt⟩ := (full_iff i).mp h
  have hsplit := split_half hge hlt
  by_cases hlong : i.range ≤ 254
  · have hnorm : boolCoder.norm (split i.range 128) = 1 := by
      apply norm_of_ge <;> omega
    refine ⟨1, hnorm, fun _ => rfl, ?_⟩
    omega
  · have hnorm : boolCoder.norm (split i.range 128) = 0 := by
      apply norm_of_ge <;> omega
    refine ⟨0, hnorm, fun h => absurd h hlong, ?_⟩
    omega

section
variable (h : Represents e i q)
include h

/-- One zero: the low end of the interval is stretched, and once a byte has been written the low
register has no bits left above it. -/
lemma Represents.write_zero (hcarry : e.carries false halfProbability.value = false) :
    ∃ e' q' n, e.write false halfProbability.value = .ok e' ∧
      Represents e' (boolCoder.narrow i (false, halfProbability)) q' ∧
      (boolCoder.narrow i (false, halfProbability)).low = i.low * 2 ^ n ∧
      (boolCoder.narrow i (false, halfProbability)).range ≤ 254 ∧
      (i.range ≤ 254 → n = 1) ∧
      (n < q ∧ q' = q - n ∧ (e.lowValue < 2 ^ (32 - q) → e'.lowValue < 2 ^ (32 - q')) ∨
        e'.lowValue < 2 ^ (32 - q')) := by
  obtain ⟨low, r, n, hw, hzero⟩ := h.narrowed (false, halfProbability)
  obtain ⟨rfl, hr⟩ := hzero rfl
  obtain ⟨n', hn', hone, hle⟩ := narrow_zero h.full
  have hn : n = n' := by
    rw [← hw.shift, shiftOf_eq hw.pos.ne', hr, h.range]
    exact hn'
  subst hn
  have hq := h.q_le
  have hlow : (boolCoder.narrow i (false, halfProbability)).low = i.low * 2 ^ n := by
    rw [hw.interval, h.low]
  have hrange : (boolCoder.narrow i (false, halfProbability)).range ≤ 254 := by
    rw [hw.interval, hr, h.range]
    exact hle
  by_cases hdue : n < q
  · obtain ⟨e', hwrite, hrep, hvalue⟩ := h.write_short hw hdue
    refine ⟨e', q - n, n, hwrite, hrep, hlow, hrange, hone, .inl ⟨hdue, rfl, fun hlt => ?_⟩⟩
    rw [hvalue, show 32 - (q - n) = 32 - q + n by omega, pow_add]
    exact Nat.mul_lt_mul_of_pos_right hlt (Nat.two_pow_pos _)
  · have hfree := h.low_lt hw hcarry (not_lt.mp hdue)
    obtain ⟨e', hwrite, hrep, hvalue⟩ := h.write_byte hw (not_lt.mp hdue) hfree
    exact ⟨e', _, n, hwrite, hrep, hlow, hrange, hone, .inr hvalue⟩

lemma Represents.zeros (hrange : i.range ≤ 254) (m : Nat) (hfree : carryFree e (zeroBits m))
    (hbyte : q ≤ m ∨ e.lowValue < 2 ^ (32 - q)) :
    ∃ e' i' q', Vp9.writeAll e (zeroBits m) = .ok e' ∧
      i' = (zeroBits m).foldl boolCoder.narrow i ∧
      Represents e' i' q' ∧ i'.low = i.low * 2 ^ m ∧ e'.lowValue < 2 ^ (32 - q') := by
  induction m generalizing e i q with
  | zero =>
    have hq := h.q_pos
    refine ⟨e, i, q, rfl, rfl, h, by simp, ?_⟩
    rcases hbyte with hzero | hlow
    · omega
    · exact hlow
  | succ m ih =>
    rw [zeroBits_succ] at hfree ⊢
    obtain ⟨hcarry, hrest⟩ := carryFree_cons.mp hfree
    obtain ⟨e₁, q₁, n, hwrite, hrep, hlow, hrange₁, hone, hcases⟩ := h.write_zero hcarry
    obtain rfl : n = 1 := hone hrange
    have hbyte₁ : q₁ ≤ m ∨ e₁.lowValue < 2 ^ (32 - q₁) := by
      rcases hcases with ⟨hlt, rfl, hkeep⟩ | hlast
      · rcases hbyte with hm | hsmall
        · exact .inl (by omega)
        · exact .inr (hkeep hsmall)
      · exact .inr hlast
    obtain ⟨e', i', q', hall, hi, hrep', hlow', hlast⟩ :=
      ih hrep hrange₁ (hrest e₁ hwrite) hbyte₁
    refine ⟨e', i', q', ?_, hi, hrep', ?_, hlast⟩
    · rw [writeAll_cons_of_ok (w := (false, halfProbability)) hwrite]
      exact hall
    · rw [hlow', hlow, pow_succ]
      ring

/-- What the zeros of `End` leave: the low end is completely in the bytes. -/
lemma Represents.end {m : Nat} (hm : 31 ≤ m) (hfree : carryFree e (zeroBits (m + 1))) :
    ∃ e' i' q', Vp9.writeAll e (zeroBits (m + 1)) = .ok e' ∧
      i' = (zeroBits (m + 1)).foldl boolCoder.narrow i ∧
      Represents e' i' q' ∧ i'.low = beValue e'.baseStream.buffer * 2 ^ (32 - q') := by
  rw [zeroBits_succ] at hfree ⊢
  obtain ⟨hcarry, hrest⟩ := carryFree_cons.mp hfree
  obtain ⟨e₁, q₁, n, hwrite, hrep, hlow, hrange, -, -⟩ := h.write_zero hcarry
  have hq₁ := hrep.q_le
  obtain ⟨e', i', q', hall, hi, hrep', hlow', hlast⟩ :=
    hrep.zeros hrange m (hrest e₁ hwrite) (.inl (by omega))
  refine ⟨e', i', q', ?_, hi, hrep', ?_⟩
  · rw [writeAll_cons_of_ok (w := (false, halfProbability)) hwrite]
    exact hall
  -- the low end is a multiple of the weight of the last byte
  have hq' := hrep'.q_pos
  have hrepr := hrep'.low
  have hdvd : 2 ^ (32 - q') ∣ i'.low := by
    rw [hlow']
    exact Dvd.dvd.mul_left (pow_dvd_pow 2 (by omega)) _
  have hzero : e'.lowValue = 0 := by
    rw [hrepr] at hdvd
    have := (Nat.dvd_add_right (Dvd.intro_left _ rfl)).mp hdvd
    exact eq_zero_of_dvd_of_lt this hlast
  rw [hrepr, hzero, add_zero]

end

/-! ## The bytes as a string of bits -/

lemma head_append (xs ys : List Bool) (n : Nat) :
    head (xs ++ ys) (xs.length + n) = head xs xs.length * 2 ^ n + head ys n := by
  have hfront : ∀ m ≤ xs.length, head (xs ++ ys) m = head xs m := by
    intro m hm
    induction m with
    | zero => rfl
    | succ m ih =>
      have hbit : bitAt (xs ++ ys) m = bitAt xs m := by
        simp only [RangeCoding.bitAt, getD_eq_getElem?_getD]
        rw [getElem?_append_left (by omega)]
      rw [head, head, ih (by omega), hbit]
  induction n with
  | zero => simp [hfront, head]
  | succ n ih =>
    have hbit : bitAt (xs ++ ys) (xs.length + n) = bitAt ys n := by
      simp only [RangeCoding.bitAt, getD_eq_getElem?_getD]
      rw [getElem?_append_right (by omega), Nat.add_sub_cancel_left]
    rw [← add_assoc, head, ih, hbit, head, pow_succ]
    ring

lemma head_nil (n : Nat) : head [] n = 0 := by
  induction n with
  | zero => rfl
  | succ n ih => simp [head, ih, RangeCoding.bitAt]

lemma head_bitsOf (b : UInt8) : head (bitsOf b) 8 = b.toNat := by
  have hbit : ∀ n < 8, bitAt (bitsOf b) n = b.toNat / 2 ^ (7 - n) % 2 := by
    intro n hn
    have hget : (bitsOf b).getD n false = b.toNat.testBit (7 - n) := by
      simp [bitsOf, getD_eq_getElem?_getD, hn]
    rw [RangeCoding.bitAt, hget, ← Nat.toNat_testBit]
    cases b.toNat.testBit (7 - n) <;> rfl
  have hhead : ∀ n ≤ 8, head (bitsOf b) n = b.toNat / 2 ^ (8 - n) := by
    intro n hn
    induction n with
    | zero => exact (Nat.div_eq_of_lt b.toNat_lt).symm
    | succ n ih =>
      have hpow : 2 ^ (8 - n) = 2 ^ (7 - n) * 2 := by rw [← pow_succ, ← Nat.sub_add_comm (by omega)]
      rw [head, ih (by omega), hbit n hn, hpow, ← Nat.div_div_eq_div_mul,
        show 8 - (n + 1) = 7 - n by omega]
      exact Nat.div_add_mod ..
  exact (hhead 8 le_rfl).trans (Nat.div_one _)

lemma length_flatMap_bitsOf : (bytes.flatMap bitsOf).length = 8 * bytes.length := by
  induction bytes with
  | nil => rfl
  | cons b bytes ih =>
    rw [flatMap_cons, length_append, ih, length_cons, bitsOf]
    simp
    omega

lemma head_bytes : head (bytes.flatMap bitsOf) (8 * bytes.length + m) = beValue bytes * 2 ^ m := by
  have hall : head (bytes.flatMap bitsOf) (8 * bytes.length) = beValue bytes := by
    induction bytes using reverseRecOn with
    | nil => rfl
    | append_singleton bytes b ih =>
      have h := head_append (bytes.flatMap bitsOf) (bitsOf b) 8
      rw [length_flatMap_bitsOf, ih, head_bitsOf] at h
      rw [flatMap_append, beValue_append_singleton, length_append, mul_add]
      simpa using h
  have h := head_append (bytes.flatMap bitsOf) [] m
  rwa [append_nil, length_flatMap_bitsOf, hall, head_nil, add_zero] at h

lemma tracks_initBool : boolCoder.Tracks (bytes.flatMap bitsOf) ⟨0, 255, 0⟩ (initBool bytes) where
  range := rfl
  rest := rfl
  value := zero_add _

lemma framed_eq (ws : Script) :
    framed ws = ((false, halfProbability) :: ws) ++ zeroBits (31 + 1) :=
  rfl

/-- A sequence and zeros behind it, without a carry, as a string of bits in its interval. -/
lemma Represents.holds {i : Interval} {q m : Nat} (hm : 31 ≤ m) {e : VpxRangeEncoder}
    (h : Represents e i q) (ws : Script)
    (hfree : carryFree e (ws ++ zeroBits (m + 1))) :
    ∃ e', Vp9.writeAll e (ws ++ zeroBits (m + 1)) = .ok e' ∧
      boolCoder.Holds (e'.baseStream.buffer.flatMap bitsOf)
        ((ws ++ zeroBits (m + 1)).foldl boolCoder.narrow i) := by
  obtain ⟨hfront, hback⟩ := carryFree_append.mp hfree
  obtain ⟨e₁, q₁, hwrite, hrep⟩ := h.writeAll hfront
  obtain ⟨e', i', q', hend, hi, hrep', hlow⟩ := hrep.end hm (hback e₁ hwrite)
  refine ⟨e', ?_, ?_⟩
  · rw [writeAll_append, hwrite]
    exact hend
  have hq := hrep'.q_le
  have hshift := hrep'.shift
  have hfull := (full_iff i').mp hrep'.full
  have hbits : boolCoder.width + i'.shift = 8 * e'.baseStream.buffer.length + (32 - q') := by
    change 8 + i'.shift = _
    omega
  rw [foldl_append, ← hi, Coder.Holds, Interval.Contains, hbits, head_bytes, ← hlow]
  omega

lemma encode_holds (hfree : carryFree .initial (framed ws)) :
    ∃ bytes, encode ws = .ok bytes ∧
      boolCoder.Holds (bytes.flatMap bitsOf) ((framed ws).foldl boolCoder.narrow ⟨0, 255, 0⟩) := by
  rw [framed_eq] at hfree ⊢
  obtain ⟨e', hall, hholds⟩ := represents_initial.holds le_rfl _ hfree
  refine ⟨e'.baseStream.buffer, ?_, hholds⟩
  rw [encode, framed_eq, hall]
  rfl

/-! ## Changed probabilities -/

section

lemma writeBits_succ (value n : Nat) :
    writeBits value (n + 1) = (value.testBit n, halfProbability) :: writeBits value n := by
  simp [writeBits, range_succ]

lemma replays_literal (value n : Nat) :
    (literal n).Replays (writeBits value n) (value % 2 ^ n) := by
  induction n with
  | zero =>
    rw [pow_zero, mod_one]
    exact .done 0
  | succ n ih =>
    have hsum : (if value.testBit n then 2 ^ n else 0) + value % 2 ^ n = value % 2 ^ (n + 1) := by
      rw [mod_pow_succ, testBit_eq_decide_div_mod_eq, add_comm]
      rcases mod_two_eq_zero_or_one (value / 2 ^ n) with hbit | hbit <;> simp [hbit]
    have h := ih.map ((if value.testBit n then 2 ^ n else 0) + ·)
    rw [hsum] at h
    rw [writeBits_succ]
    exact .read h

lemma replays_literal_of_lt {value n : Nat} (h : value < 2 ^ n) :
    (literal n).Replays (writeBits value n) value := by
  have hr := replays_literal value n
  rwa [mod_eq_of_lt h] at hr

lemma replays_bit (b : Bool) : (literal 1).Replays [(b, halfProbability)] (if b then 1 else 0) := by
  cases b <;> exact .read (.done _)

lemma replays_lessThan (value test : Nat) :
    (literal 1).Replays (writeLessThan value test) (if value < test then 0 else 1) := by
  have h := replays_bit (decide ¬ value < test)
  by_cases hlt : value < test <;> simpa [writeLessThan, hlt] using h

lemma replays_termSubExp {value : Nat} (h : value < 254) :
    decodeTermSubexp.Replays (encodeTermSubExp value) value := by
  unfold decodeTermSubexp encodeTermSubExp
  have h16 := replays_lessThan value 16
  have h32 := replays_lessThan value 32
  have h64 := replays_lessThan value 64
  by_cases hlt16 : value < 16
  · rw [if_pos hlt16] at h16 ⊢
    exact h16.bind (replays_literal_of_lt hlt16)
  rw [if_neg hlt16] at h16 ⊢
  by_cases hlt32 : value < 32
  · rw [if_pos hlt32] at h32 ⊢
    rw [append_assoc]
    refine h16.bind (h32.bind ?_)
    have hlit := (replays_literal_of_lt (show value - 16 < 2 ^ 4 by omega)).map (· + 16)
    rwa [Nat.sub_add_cancel (by omega)] at hlit
  rw [if_neg hlt32] at h32 ⊢
  by_cases hlt64 : value < 64
  · rw [if_pos hlt64] at h64 ⊢
    rw [append_assoc, append_assoc]
    refine h16.bind (h32.bind (h64.bind ?_))
    have hlit := (replays_literal_of_lt (show value - 32 < 2 ^ 5 by omega)).map (· + 32)
    rwa [Nat.sub_add_cancel (by omega)] at hlit
  rw [if_neg hlt64] at h64 ⊢
  refine h16.bind (h32.bind (h64.bind ?_))
  by_cases hdelta : (value : Int) - 64 - (2 ^ 8 - 191) < 0
  · rw [if_pos hdelta]
    refine (replays_literal_of_lt (show value - 64 < 2 ^ 7 by omega)).bind ?_
    rw [if_pos (by omega), Nat.sub_add_cancel (by omega)]
    exact .done _
  rw [if_neg hdelta]
  obtain ⟨d, rfl⟩ : ∃ d, value = 129 + d := ⟨value - 129, by omega⟩
  have hhalf : (((129 + d : Nat) : Int) - 64 - (2 ^ 8 - 191)) / 2 + (2 ^ 8 - 191) =
      ((d / 2 + 65 : Nat) : Int) := by omega
  have hbit : (((129 + d : Nat) : Int) - 64 - (2 ^ 8 - 191)) % 2 = ((d % 2 : Nat) : Int) := by
    omega
  rw [hhalf, hbit, Int.toNat_natCast, Int.toNat_natCast]
  refine (replays_literal_of_lt (show d / 2 + 65 < 2 ^ 7 by omega)).bind ?_
  have hlit := (replays_literal_of_lt (show d % 2 < 2 ^ 1 by omega)).map
    (2 * (d / 2 + 65) - 1 + ·)
  rwa [show 2 * (d / 2 + 65) - 1 + d % 2 = 129 + d by omega] at hlit

lemma invMapTable_eq : invMapTable =
    (range 20).map (7 + 13 * ·) ++ (range 234).map fun j => j + 1 + (j + 6) / 12 := by
  decide +kernel

lemma invMapTable_remap : ∀ i < 254,
    (if (i + 7) % 13 = 0 then (i + 7) / 13 - 1 else i + 20 - (i + 7) / 13) < 254 ∧
      invMapTable.getD (if (i + 7) % 13 = 0 then (i + 7) / 13 - 1
        else i + 20 - (i + 7) / 13) 0 = i + 1 := by
  intro i hi
  rw [invMapTable_eq]
  split
  case isTrue h =>
    refine ⟨by omega, ?_⟩
    rw [getD_eq_getElem?_getD, getElem?_append_left (by simp; omega),
      getElem?_eq_getElem (by simp; omega)]
    simp only [getElem_map, getElem_range, Option.getD_some]
    omega
  case isFalse h =>
    refine ⟨by omega, ?_⟩
    rw [getD_eq_getElem?_getD, getElem?_append_right (by simp; omega),
      getElem?_eq_getElem (by simp; omega)]
    simp only [getElem_map, getElem_range, length_map, length_range, Option.getD_some]
    omega

lemma invRecenter_recenter {n o : Nat} (h : n ≠ o) :
    ∃ v : Nat, recenterNonNeg n o = (v : Int) + 1 ∧ v + 1 ≤ max n (2 * o) ∧
      invRecenterNonneg (v + 1) o = n := by
  simp only [recenterNonNeg, invRecenterNonneg]
  by_cases hbig : (n : Int) > o * 2
  · refine ⟨n - 1, by omega, by omega, ?_⟩
    rw [if_pos (by omega)]
    omega
  by_cases hge : (n : Int) ≥ o
  · refine ⟨2 * (n - o) - 1, by omega, by omega, ?_⟩
    rw [if_neg (by omega), if_neg (by omega)]
    omega
  · refine ⟨2 * (o - n) - 2, by omega, by omega, ?_⟩
    rw [if_neg (by omega), if_pos (by omega)]
    omega

/-- The index that is written for a changed probability leads back to it. -/
lemma remap_spec {n o : Nat} (hn : 1 ≤ n) (hn' : n ≤ 255) (ho : 1 ≤ o) (ho' : o ≤ 255)
    (h : n ≠ o) :
    remapProbability n o < 254 ∧ invRemapProb (remapProbability n o) o = n := by
  simp only [remapProbability, invRemapProb]
  by_cases hlow : 2 * (o - 1) ≤ 255
  · obtain ⟨v, hv, hle, hinv⟩ := invRecenter_recenter (show n - 1 ≠ o - 1 by omega)
    rw [cast_sub hn, cast_sub ho, cast_one] at hv
    have hi : (max 0 ((v : Int) + 1 - 1)).toNat % 2 ^ 8 = v := by omega
    rw [if_pos (show ((o : Int) - 1) * 2 ≤ 0xff by omega), hv, hi, if_pos hlow]
    obtain ⟨hlt, htable⟩ := invMapTable_remap v (by omega)
    rw [htable, hinv]
    exact ⟨hlt, by omega⟩
  obtain ⟨v, hv, hle, hinv⟩ := invRecenter_recenter (show 255 - n ≠ 255 - o by omega)
  have hi : (max 0 ((v : Int) + 1 - 1)).toNat % 2 ^ 8 = v := by omega
  have hargs : recenterNonNeg (0xff - 1 - ((n : Int) - 1)) (0xff - 1 - ((o : Int) - 1)) =
      (v : Int) + 1 := by
    rw [← hv]
    congr 1
    · omega
    · omega
  rw [if_neg (show ¬ ((o : Int) - 1) * 2 ≤ 0xff by omega), hargs, hi, if_neg hlow,
    show 255 - 1 - (o - 1) = 255 - o by omega]
  obtain ⟨hlt, htable⟩ := invMapTable_remap v (by omega)
  rw [htable, hinv]
  exact ⟨hlt, by omega⟩

/-- The syntax elements of a changed probability. -/
lemma replays_update (new old : Probability) :
    (diffUpdateProb old.value).Replays (writeProbabilityUpdate new old) new.value := by
  unfold diffUpdateProb writeProbabilityUpdate
  by_cases h : new.value = old.value
  · simp only [h, ne_eq, not_true_eq_false, decide_false, if_false]
    exact .read (.done _)
  obtain ⟨hlt, hinv⟩ := remap_spec new.pos new.le old.pos old.le h
  simp only [ne_eq, h, not_false_eq_true, decide_true, if_true]
  refine .read ?_
  have hterm := (replays_termSubExp hlt).map (invRemapProb · old.value)
  rwa [hinv] at hterm

end

/-! ## Round trip -/

lemma run_front {α : Type} {front back : Script} {bytes : List UInt8} {a : α}
    {r : Reader Probability α} (hholds : boolCoder.Holds (bytes.flatMap bitsOf)
      ((framed ws).foldl boolCoder.narrow ⟨0, 255, 0⟩)) (hsplit : framed ws = front ++ back)
    (hr : r.Replays front a) : (r.run boolCoder (initBool bytes)).1 = a := by
  have hfull : ∀ i, boolCoder.Full i → boolCoder.Full (front.foldl boolCoder.narrow i) := by
    intro i hi
    exact foldlRecOn (motive := boolCoder.Full) front _ hi fun i hi w _ => full_narrow hi w
  have hstart : boolCoder.Full ⟨0, 255, 0⟩ := (full_iff _).mpr (by decide)
  rw [hsplit, foldl_append] at hholds
  have hfront := holds_of_foldl (hfull _ hstart) hholds
  exact (run_replays hstart (tracks_initBool bytes) hr hfront).1

/-- Sequences without a carry are written without an exception and read back, with every changed
probability in them; sequences with a carry, up to the length that a position of the stream can
have, end in an exception. -/
theorem round_trip (ws : Script) :
    (carryFree .initial (framed ws) → ∃ bytes, encode ws = .ok bytes ∧
      decodeBits (ws.map Prod.snd) bytes = (false, ws.map Prod.fst) ∧
      ∀ (front back : Script) (new old : Probability),
        ws = front ++ writeProbabilityUpdate new old ++ back →
        decodeUpdate (front.map Prod.snd) old.value bytes = new.value) ∧
    (ws.length + 33 < 2 ^ 31 → carryFree .initial (framed ws) = false →
      encode ws = .error .outOfRange) := by
  refine ⟨fun hfree => ?_, fun hlen hcarry => ?_⟩
  · obtain ⟨bytes, hencode, hholds⟩ := encode_holds hfree
    refine ⟨bytes, hencode, ?_, ?_⟩
    · exact run_front hholds rfl (.read ((Reader.replays_all ws).map (false, ·)))
    · rintro front back new old rfl
      have hall := (Reader.replays_all front).bind (f := fun _ => diffUpdateProb old.value)
        (replays_update new old)
      have hsplit : framed (front ++ writeProbabilityUpdate new old ++ back) =
          ((false, halfProbability) :: (front ++ writeProbabilityUpdate new old)) ++
            (back ++ replicate 32 (false, halfProbability)) := by
        simp [framed]
      exact run_front hholds hsplit (.read hall)
  · have herror : writeAll .initial (framed ws) = .error .outOfRange := by
      refine represents_initial.writeAll_carry hcarry ?_
      simp only [framed, length_cons, length_append, length_replicate]
      change 0 + _ < _
      omega
    rw [encode, herror]
    rfl

/-- A bit and the change of a probability from 128 to 200. -/
def updateSample : Script :=
  [(true, ⟨3, by decide, by decide⟩)] ++
    writeProbabilityUpdate ⟨200, by decide, by decide⟩ halfProbability ++ []

theorem round_trip_updateSample : carryFree .initial (framed updateSample) ∧
    ∃ bytes, encode updateSample = .ok bytes ∧
      decodeUpdate [⟨3, by decide, by decide⟩] 128 bytes = 200 := by
  have hfree : carryFree .initial (framed updateSample) := by decide +kernel
  obtain ⟨bytes, hencode, -, hupdate⟩ := (round_trip updateSample).1 hfree
  exact ⟨hfree, bytes, hencode, hupdate _ _ _ _ rfl⟩

/-- Ten writes after which the zeros of `End` carry into the bytes already written. -/
def carrySample : Script :=
  [(false, ⟨3, by decide, by decide⟩), (true, ⟨1, by decide, by decide⟩),
    (false, halfProbability), (true, ⟨253, by decide, by decide⟩),
    (false, ⟨169, by decide, by decide⟩), (true, halfProbability),
    (false, ⟨3, by decide, by decide⟩), (true, ⟨86, by decide, by decide⟩),
    (false, halfProbability), (true, ⟨254, by decide, by decide⟩)]

theorem encode_carrySample : encode carrySample = .error .outOfRange := by
  rfl

end Drippu.VideoCore.Vp9
