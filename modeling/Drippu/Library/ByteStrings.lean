import Mathlib.Tactic

/-!
# Library - Byte strings

Things programs do with byte strings: numbers written with the most significant byte first or
with the least significant first, one string written over part of another, and a stretch of places
read piece by piece.
-/

namespace Drippu.Library

open List

/-! ## Numbers -/

/-- The number whose bytes are given, the most significant first. -/
def beValue (bytes : List UInt8) : Nat :=
  bytes.foldl (fun acc b => acc * 256 + b.toNat) 0

/-- The last `k` bytes of a number, the most significant first. -/
def beBytes : Nat → Nat → List UInt8
  | 0, _ => []
  | k + 1, n => beBytes k (n / 256) ++ [UInt8.ofNat n]

@[simp]
lemma length_beBytes (k n : Nat) : (beBytes k n).length = k := by
  induction k generalizing n with
  | zero => rfl
  | succ k ih => simp [beBytes, ih]

lemma beValue_append_singleton (bytes : List UInt8) (b : UInt8) :
    beValue (bytes ++ [b]) = beValue bytes * 256 + b.toNat := by
  simp [beValue]

lemma beValue_beBytes {k n : Nat} (h : n < 256 ^ k) : beValue (beBytes k n) = n := by
  induction k generalizing n with
  | zero =>
    have : n = 0 := by simpa using h
    simp [this, beBytes, beValue]
  | succ k ih =>
    have hn : n / 256 < 256 ^ k := by
      rw [Nat.div_lt_iff_lt_mul (by decide)]
      simpa [pow_succ] using h
    rw [beBytes, beValue_append_singleton, ih hn, UInt8.toNat_ofNat']
    omega

/-! ## Writing over part of a string -/

variable {α : Type}

/-- `xs` with `ys` written over it from position `pos` on. -/
def splice (xs : List α) (pos : Nat) (ys : List α) : List α :=
  xs.take pos ++ ys ++ xs.drop (pos + ys.length)

lemma length_splice {xs ys : List α} {pos : Nat} (h : pos + ys.length ≤ xs.length) :
    (splice xs pos ys).length = xs.length := by
  simp only [splice, length_append, length_take, length_drop]
  omega

lemma getElem?_splice {xs ys : List α} {pos : Nat} (h : pos + ys.length ≤ xs.length) {i : Nat} :
    (splice xs pos ys)[i]? = if pos ≤ i ∧ i < pos + ys.length then ys[i - pos]? else xs[i]? := by
  have htake : (xs.take pos).length = pos := by
    rw [length_take]
    omega
  have hfront : (xs.take pos ++ ys).length = pos + ys.length := by
    rw [length_append, htake]
  rw [splice]
  by_cases hlow : i < pos
  · rw [if_neg (by omega), getElem?_append_left (by omega),
      getElem?_append_left (by omega), getElem?_take_of_lt hlow]
  by_cases hhigh : i < pos + ys.length
  · rw [if_pos ⟨by omega, hhigh⟩, getElem?_append_left (by omega),
      getElem?_append_right (by omega), htake]
  · rw [if_neg (by omega), getElem?_append_right (by omega), hfront, getElem?_drop,
      Nat.add_sub_cancel' (by omega)]

/-! ## Stretches -/

/-- What stands at `n` places from `pos` on. -/
def stretch (f : Nat → α) (pos n : Nat) : List α :=
  (range n).map fun i => f (pos + i)

lemma stretch_add (f : Nat → α) (pos m n : Nat) :
    stretch f pos (m + n) = stretch f pos m ++ stretch f (pos + m) n := by
  simp [stretch, range_add, add_assoc]

lemma stretch_congr {f g : Nat → α} {pos n : Nat}
    (h : ∀ i < n, f (pos + i) = g (pos + i)) : stretch f pos n = stretch g pos n :=
  map_congr_left fun i hi => h i (mem_range.mp hi)

end Drippu.Library
