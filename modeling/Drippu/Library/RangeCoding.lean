import Mathlib.Tactic

/-!
# Library - Binary range coding

A range coder keeps an interval of numbers and splits it in two for each bit, the lower part for
a zero.  When the interval gets short it is stretched by a power of two.  The code of a sequence
of bits is any string of bits whose value, read to the precision of the last interval, lies in
it; the decoder follows the same splits with the value.

The coder is given by the width of its range in bits and by the way it splits a range for a
probability.
-/

namespace Drippu.Library.RangeCoding

open Nat

/-! ## Powers of two -/

lemma two_pow_mul {a b c : Nat} (h : a + b = c) : 2 ^ a * 2 ^ b = 2 ^ c := by
  rw [← pow_add, h]

lemma mul_two_pow_lt {x a b c : Nat} (h : x < 2 ^ a) (hc : a + b ≤ c) : x * 2 ^ b < 2 ^ c :=
  calc x * 2 ^ b < 2 ^ a * 2 ^ b := mul_lt_mul_of_pos_right h (Nat.two_pow_pos b)
    _ = 2 ^ (a + b) := two_pow_mul rfl
    _ ≤ 2 ^ c := Nat.pow_le_pow_right (by decide) hc

/-! ## Strings of bits -/

/-- The value of a bit; behind the end of the string there are zeros. -/
def bitAt (bits : List Bool) (i : Nat) : Nat := if bits.getD i false then 1 else 0

/-- The number written by the first bits of a string, the most significant first. -/
def head (bits : List Bool) : Nat → Nat
  | 0 => 0
  | n + 1 => 2 * head bits n + bitAt bits n

lemma bitAt_le (bits : List Bool) (i : Nat) : bitAt bits i ≤ 1 := by
  rw [bitAt]
  split <;> omega

lemma head_add (bits : List Bool) (m n : Nat) :
    head bits m * 2 ^ n ≤ head bits (m + n) ∧ head bits (m + n) < (head bits m + 1) * 2 ^ n := by
  induction n with
  | zero => simp
  | succ n ih =>
    have hbit := bitAt_le bits (m + n)
    rw [← add_assoc, head, pow_succ, ← mul_assoc, ← mul_assoc]
    omega

/-! ## The coder -/

structure Coder (π : Type) where
  /-- A range has this many bits after it is stretched. -/
  width : Nat
  split : Nat → π → Nat
  width_pos : 0 < width
  split_pos : ∀ r p, 0 < split r p
  split_lt : ∀ r p, 2 ^ (width - 1) ≤ r → split r p < r

/-- An interval and how many bits it has been stretched by so far. -/
structure Interval where
  low : Nat
  range : Nat
  shift : Nat
  deriving DecidableEq, Repr

variable {π α β : Type} (c : Coder π)

/-- The bits by which a range is stretched. -/
def Coder.norm (r : Nat) : Nat := c.width - 1 - log2 r

/-- The interval for a bit. -/
def Coder.narrow (i : Interval) (w : Bool × π) : Interval :=
  let s := c.split i.range w.2
  let low := if w.1 then i.low + s else i.low
  let range := if w.1 then i.range - s else s
  ⟨low * 2 ^ c.norm range, range * 2 ^ c.norm range, i.shift + c.norm range⟩

/-- The range has the width of the coder. -/
def Coder.Full (i : Interval) : Prop := 2 ^ (c.width - 1) ≤ i.range ∧ i.range < 2 ^ c.width

def Interval.Contains (i : Interval) (v : Nat) : Prop := i.low ≤ v ∧ v < i.low + i.range

variable {c} {r : Nat}

lemma Coder.norm_bounds (hpos : 0 < r) (hlt : r < 2 ^ c.width) :
    2 ^ (c.width - 1) ≤ r * 2 ^ c.norm r ∧ r * 2 ^ c.norm r < 2 ^ c.width := by
  have hlog : log2 r < c.width := (log2_lt hpos.ne').mpr hlt
  have hle : 2 ^ log2 r ≤ r := log2_self_le hpos.ne'
  have hgt : r < 2 ^ (log2 r + 1) := lt_log2_self
  constructor
  · calc 2 ^ (c.width - 1) = 2 ^ log2 r * 2 ^ (c.width - 1 - log2 r) :=
          (two_pow_mul (by omega)).symm
      _ ≤ r * 2 ^ (c.width - 1 - log2 r) := mul_le_mul_right _ hle
  · exact mul_two_pow_lt hgt (by rw [Coder.norm]; omega)

lemma Coder.norm_of_full (h : 2 ^ (c.width - 1) ≤ r) : c.norm r = 0 := by
  have hpos : 0 < r := lt_of_lt_of_le (Nat.two_pow_pos _) h
  have hlog : c.width - 1 ≤ log2 r := (le_log2 hpos.ne').mpr h
  rw [Coder.norm]
  omega

lemma Coder.norm_double (hpos : 0 < r) (h : r < 2 ^ (c.width - 1)) :
    c.norm r = c.norm (2 * r) + 1 := by
  have hlog : log2 r < c.width - 1 := (log2_lt hpos.ne').mpr h
  have hdouble : log2 (2 * r) = log2 r + 1 := log2_two_mul hpos.ne'
  rw [Coder.norm, Coder.norm, hdouble]
  omega

variable {i : Interval}

lemma Coder.range_narrow_pos (hi : c.Full i) (w : Bool × π) :
    0 < (if w.1 then i.range - c.split i.range w.2 else c.split i.range w.2) := by
  have hpos := c.split_pos i.range w.2
  have hlt := c.split_lt i.range w.2 hi.1
  split <;> omega

lemma Coder.range_narrow_le (hi : c.Full i) (w : Bool × π) :
    (if w.1 then i.range - c.split i.range w.2 else c.split i.range w.2) ≤ i.range := by
  have hlt := c.split_lt i.range w.2 hi.1
  split <;> omega

lemma Coder.full_narrow (hi : c.Full i) (w : Bool × π) : c.Full (c.narrow i w) :=
  Coder.norm_bounds (Coder.range_narrow_pos hi w) (lt_of_le_of_lt (Coder.range_narrow_le hi w) hi.2)

variable {bits : List Bool}

/-- A string whose value lies in a stretched interval has it in the interval before. -/
lemma contains_of_stretched {low range m n : Nat}
    (h : low * 2 ^ n ≤ head bits (m + n) ∧ head bits (m + n) < low * 2 ^ n + range * 2 ^ n) :
    low ≤ head bits m ∧ head bits m < low + range := by
  obtain ⟨hle, hlt⟩ := head_add bits m n
  constructor
  · have : low * 2 ^ n < (head bits m + 1) * 2 ^ n := lt_of_le_of_lt h.1 hlt
    exact Nat.lt_succ_iff.mp (Nat.lt_of_mul_lt_mul_right this)
  · have : head bits m * 2 ^ n < (low + range) * 2 ^ n := by
      rw [add_mul]
      exact lt_of_le_of_lt hle h.2
    exact Nat.lt_of_mul_lt_mul_right this

/-- The value of the string to the precision of an interval lies in it. -/
def Coder.Holds (c : Coder π) (bits : List Bool) (i : Interval) : Prop :=
  i.Contains (head bits (c.width + i.shift))

variable {w : Bool × π}

lemma Coder.contains_of_narrow (h : c.Holds bits (c.narrow i w)) :
    (if w.1 then i.low + c.split i.range w.2 else i.low) ≤ head bits (c.width + i.shift) ∧
      head bits (c.width + i.shift) < (if w.1 then i.low + c.split i.range w.2 else i.low) +
        (if w.1 then i.range - c.split i.range w.2 else c.split i.range w.2) := by
  rw [Coder.Holds, Coder.narrow, Interval.Contains] at h
  rw [← add_assoc] at h
  exact contains_of_stretched h

lemma Coder.holds_of_narrow (hi : c.Full i) (h : c.Holds bits (c.narrow i w)) : c.Holds bits i := by
  have hlt := c.split_lt i.range w.2 hi.1
  have hbounds := Coder.contains_of_narrow h
  rw [Coder.Holds, Interval.Contains]
  split at hbounds <;> omega

lemma Coder.holds_of_foldl (hi : c.Full i) {ws : List (Bool × π)}
    (h : c.Holds bits (ws.foldl c.narrow i)) : c.Holds bits i := by
  induction ws generalizing i with
  | nil => exact h
  | cons w ws ih => exact Coder.holds_of_narrow hi (ih (Coder.full_narrow hi w) h)

/-! ## The decoder -/

structure Decoder where
  value : Nat
  range : Nat
  bits : List Bool
  deriving DecidableEq, Repr

variable (c) in
/-- The loop that stretches the range, with one new bit for each round. -/
def Coder.refill : (rounds : Nat) → Decoder → Decoder
  | 0, d => d
  | rounds + 1, d =>
    if d.range < 2 ^ (c.width - 1) then
      refill rounds ⟨2 * d.value + bitAt d.bits 0, 2 * d.range, d.bits.tail⟩
    else d

variable (c) in
def Coder.read (d : Decoder) (p : π) : Bool × Decoder :=
  let s := c.split d.range p
  if d.value < s then (false, c.refill c.width { d with range := s })
  else (true, c.refill c.width { d with value := d.value - s, range := d.range - s })

/-- The decoder stands where the string is read to the precision of the interval. -/
structure Coder.Tracks (c : Coder π) (bits : List Bool) (i : Interval) (d : Decoder) : Prop where
  range : d.range = i.range
  rest : d.bits = bits.drop (c.width + i.shift)
  value : i.low + d.value = head bits (c.width + i.shift)

lemma bitAt_drop (bits : List Bool) (m : Nat) : bitAt (bits.drop m) 0 = bitAt bits m := by
  simp [bitAt]

lemma Coder.refill_eq (low m rounds : Nat) (d : Decoder) (hpos : 0 < d.range)
    (hrounds : c.norm d.range ≤ rounds) (hbits : d.bits = bits.drop m)
    (hvalue : low + d.value = head bits m) :
    (c.refill rounds d).range = d.range * 2 ^ c.norm d.range ∧
      (c.refill rounds d).bits = bits.drop (m + c.norm d.range) ∧
      low * 2 ^ c.norm d.range + (c.refill rounds d).value = head bits (m + c.norm d.range) := by
  induction rounds generalizing d low m with
  | zero =>
    have hnorm : c.norm d.range = 0 := by omega
    simp [Coder.refill, hnorm, hbits, hvalue]
  | succ rounds ih =>
    rw [Coder.refill]
    by_cases hshort : d.range < 2 ^ (c.width - 1)
    · have hnorm := Coder.norm_double hpos hshort
      have hhead : 2 * low + (2 * d.value + bitAt d.bits 0) = head bits (m + 1) := by
        rw [head, hbits, bitAt_drop, ← hvalue]
        omega
      have hnext := ih (2 * low) (m + 1)
        ⟨2 * d.value + bitAt d.bits 0, 2 * d.range, d.bits.tail⟩ (by dsimp only; omega)
        (by dsimp only; omega) (by rw [hbits, List.tail_drop]) hhead
      dsimp only at hnext
      rw [if_pos hshort, hnorm, pow_succ]
      obtain ⟨h₁, h₂, h₃⟩ := hnext
      refine ⟨by rw [h₁]; ring, by rw [h₂]; congr 1; omega, ?_⟩
      rw [show m + (c.norm (2 * d.range) + 1) = m + 1 + c.norm (2 * d.range) by omega, ← h₃]
      ring
    · have hnorm := Coder.norm_of_full (not_lt.mp hshort)
      simp [hshort, hnorm, hbits, hvalue]

/-- One bit is read back. -/
lemma Coder.read_narrow {d : Decoder} (hi : c.Full i) (hd : c.Tracks bits i d)
    (h : c.Holds bits (c.narrow i w)) :
    (c.read d w.2).1 = w.1 ∧ c.Tracks bits (c.narrow i w) (c.read d w.2).2 := by
  obtain ⟨b, p⟩ := w
  have hbounds := Coder.contains_of_narrow h
  have hrange := Coder.range_narrow_pos hi (b, p)
  have hvalue := hd.value
  have hnorm : ∀ r, c.norm r ≤ c.width := by
    intro r
    rw [Coder.norm]
    omega
  rw [Coder.read, hd.range]
  cases b with
  | false =>
    simp only [Bool.false_eq_true, if_false] at hbounds hrange
    have hsmall : d.value < c.split i.range p := by omega
    rw [if_pos hsmall]
    obtain ⟨h₁, h₂, h₃⟩ := Coder.refill_eq (c := c) i.low _ c.width
      { d with range := c.split i.range p } hrange (hnorm _)
      hd.rest hvalue
    refine ⟨rfl, ⟨h₁, ?_, ?_⟩⟩
    · rw [h₂]
      simp [Coder.narrow, add_assoc]
    · simp only [Coder.narrow, Bool.false_eq_true, if_false, ← add_assoc]
      exact h₃
  | true =>
    simp only [if_true] at hbounds hrange
    have hlarge : ¬ d.value < c.split i.range p := by omega
    rw [if_neg hlarge]
    obtain ⟨h₁, h₂, h₃⟩ := Coder.refill_eq (c := c) (i.low + c.split i.range p) _ c.width
      { d with value := d.value - c.split i.range p, range := i.range - c.split i.range p }
      hrange (hnorm _) hd.rest (by dsimp only; omega)
    refine ⟨rfl, ⟨h₁, ?_, ?_⟩⟩
    · rw [h₂]
      simp [Coder.narrow, add_assoc]
    · simp only [Coder.narrow, if_true, ← add_assoc]
      exact h₃

/-! ## Readers -/

/-- A program that asks for bits, each with a probability that can depend on the bits before. -/
inductive Reader (π α : Type) where
  | done (a : α)
  | read (p : π) (next : Bool → Reader π α)

namespace Reader

protected def bind : Reader π α → (α → Reader π β) → Reader π β
  | done a, f => f a
  | read p next, f => read p fun b => (next b).bind f

instance : Monad (Reader π) where
  pure := done
  bind := Reader.bind

/-- The program that reads one bit. -/
def bit (p : π) : Reader π Bool := read p done

/-- The program that reads a bit for each probability. -/
def all : List π → Reader π (List Bool)
  | [] => done []
  | p :: ps => read p fun b => (all ps).bind fun bs => done (b :: bs)

variable (c) in
/-- The result with the bits of a decoder. -/
def run : Reader π α → Decoder → α × Decoder
  | done a, d => (a, d)
  | read p next, d => ((next (c.read d p).1).run (c.read d p).2)

/-- The program asks for exactly the bits of a sequence and ends with a result. -/
inductive Replays : Reader π α → List (Bool × π) → α → Prop
  | done (a : α) : Replays (.done a) [] a
  | read {b : Bool} {p : π} {next : Bool → Reader π α} {ws : List (Bool × π)} {a : α}
      (h : Replays (next b) ws a) : Replays (.read p next) ((b, p) :: ws) a

lemma Replays.bind {r : Reader π α} {ws ws' : List (Bool × π)} {a : α}
    {f : α → Reader π β} {b : β} (h : Replays r ws a) (h' : Replays (f a) ws' b) :
    Replays (r.bind f) (ws ++ ws') b := by
  induction h with
  | done a => exact h'
  | read _ ih => exact .read (ih h')

lemma Replays.map {r : Reader π α} {ws : List (Bool × π)} {a : α} (h : Replays r ws a)
    (f : α → β) : Replays (r.bind fun a => .done (f a)) ws (f a) := by
  have hbind := h.bind (f := fun a => .done (f a)) (.done (f a))
  rwa [List.append_nil] at hbind

lemma replays_all (ws : List (Bool × π)) :
    Replays (all (ws.map Prod.snd)) ws (ws.map Prod.fst) := by
  induction ws with
  | nil => exact .done []
  | cons w ws ih => exact .read (ih.map (w.1 :: ·))

end Reader

/-- A reader that asks for the bits of a sequence gets them. -/
lemma Coder.run_replays {d : Decoder} (hi : c.Full i) (hd : c.Tracks bits i d) {r : Reader π α}
    {ws : List (Bool × π)} {a : α} (hr : r.Replays ws a) (h : c.Holds bits (ws.foldl c.narrow i)) :
    (r.run c d).1 = a ∧ c.Tracks bits (ws.foldl c.narrow i) (r.run c d).2 := by
  induction hr generalizing i d with
  | done a => exact ⟨rfl, hd⟩
  | @read b p next ws a hnext ih =>
    have hfull := Coder.full_narrow hi (b, p)
    obtain ⟨hbit, htracks⟩ := Coder.read_narrow hi hd (Coder.holds_of_foldl hfull h)
    rw [Reader.run, hbit]
    exact ih hfull htracks h

end Drippu.Library.RangeCoding
