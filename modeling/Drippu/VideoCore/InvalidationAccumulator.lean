import Mathlib.Tactic

/-!
# Video core - Accumulated invalidations

Ranges to invalidate are rounded to units of 32 bytes and joined with the last one while they
follow it.  The size of a range is rounded up from its unrounded start but counted from the
rounded one, so that a range can lose its last bytes, and the start address zero stands for no
range at all.

Main results:

- Theorem `invalidateAll_covers`: what the callback gets when the rounding loses nothing.
-/

namespace Drippu.VideoCore

open List

/-- Ranges are pairs of an address and a size. -/
structure InvalidationAccumulator where
  buffer : List (Nat × Nat) := []
  startAddress : Nat := 0
  accumulatedSize : Nat := 0

namespace InvalidationAccumulator

def atomicitySize : Nat := 1 <<< 5

/-- The mask clears the low bits. -/
def atomicityMask (value : Nat) : Nat := value - value % atomicitySize

def add (acc : InvalidationAccumulator) (address size : Nat) : InvalidationAccumulator :=
  let endAddress := acc.startAddress + acc.accumulatedSize
  if acc.startAddress ≤ address ∧ address + size ≤ endAddress then acc
  else
    let size := atomicityMask (address + size + (atomicitySize - 1)) - address
    let address := atomicityMask address
    if acc.startAddress = 0 then { acc with startAddress := address, accumulatedSize := size }
    else if address ≠ endAddress then
      ⟨acc.buffer ++ [(acc.startAddress, acc.accumulatedSize)], address, size⟩
    else { acc with accumulatedSize := acc.accumulatedSize + size }

/-- The ranges that the callback gets, and the accumulator afterwards. -/
def invalidateAll (acc : InvalidationAccumulator) : List (Nat × Nat) × InvalidationAccumulator :=
  if acc.startAddress > 0 then (acc.buffer ++ [(acc.startAddress, acc.accumulatedSize)], {})
  else ([], acc)

def addAll (ranges : List (Nat × Nat)) : InvalidationAccumulator :=
  ranges.foldl (fun acc range => acc.add range.1 range.2) {}

/-- The byte lies in a range. -/
def Has (x : Nat) (range : Nat × Nat) : Prop := range.1 ≤ x ∧ x < range.1 + range.2

/-- The range is above the first unit, and rounding its end up makes good for rounding its start
down. -/
def Kept (range : Nat × Nat) : Prop :=
  atomicitySize ≤ range.1 ∧ range.1 % atomicitySize ≤
    atomicityMask (range.1 + range.2 + (atomicitySize - 1)) - (range.1 + range.2)

instance (range : Nat × Nat) : Decidable (Kept range) := inferInstanceAs (Decidable (_ ∧ _))

variable {acc : InvalidationAccumulator} {x : Nat} {range : Nat × Nat}

lemma exists_mem_invalidateAll (hstart : 0 < acc.startAddress) :
    (∃ r ∈ acc.invalidateAll.1, Has x r) ↔
      (∃ r ∈ acc.buffer, Has x r) ∨ Has x (acc.startAddress, acc.accumulatedSize) := by
  rw [invalidateAll, if_pos hstart]
  simp only [mem_append, mem_singleton, or_and_right, exists_or, exists_eq_left]

/-- A new range is covered, and with it everything that was covered before. -/
lemma add_covers (hacc : acc = {} ∨ 0 < acc.startAddress) (hkept : Kept range)
    (hsize : 0 < range.2) :
    0 < (acc.add range.1 range.2).startAddress ∧
      ∀ x, (∃ r ∈ acc.invalidateAll.1, Has x r) ∨ Has x range →
        ∃ r ∈ (acc.add range.1 range.2).invalidateAll.1, Has x r := by
  obtain ⟨hlow, hround⟩ := hkept
  -- the rounded range
  have hrounded : 0 < atomicityMask range.1 ∧ ∀ x, Has x range →
      Has x (atomicityMask range.1,
        atomicityMask (range.1 + range.2 + (atomicitySize - 1)) - range.1) := by
    have hunit : atomicitySize = 32 := rfl
    simp only [Has, atomicityMask, hunit] at *
    exact ⟨by omega, fun x hx => by omega⟩
  rcases hacc with rfl | hpos
  · have hfirst : ¬(0 ≤ range.1 ∧ range.1 + range.2 ≤ 0 + 0) := by omega
    simp only [add, if_neg hfirst, if_true]
    refine ⟨hrounded.1, fun x hx => (exists_mem_invalidateAll hrounded.1).2 (.inr ?_)⟩
    rcases hx with ⟨r, hr, -⟩ | hx
    · cases hr
    · exact hrounded.2 x hx
  simp only [add]
  split_ifs with hin hzero hnext
  · refine ⟨hpos, fun x hx => hx.elim id fun hx => (exists_mem_invalidateAll hpos).2 (.inr ?_)⟩
    simp only [Has] at *
    omega
  · omega
  · refine ⟨hrounded.1, fun x hx => (exists_mem_invalidateAll hrounded.1).2 ?_⟩
    rw [invalidateAll, if_pos hpos] at hx
    exact hx.imp id (hrounded.2 x)
  · -- the new range follows the pending one
    refine ⟨hpos, fun x hx => ?_⟩
    rw [exists_mem_invalidateAll hpos] at hx
    rw [exists_mem_invalidateAll (by exact hpos)]
    rcases hx with (hx | hx) | hx
    · exact .inl hx
    · refine .inr ?_
      simp only [Has] at *
      omega
    · have hx := hrounded.2 x hx
      refine .inr ?_
      simp only [Has] at *
      omega

/-- Every byte of every added range is in a range that the callback gets. -/
theorem invalidateAll_covers {ranges : List (Nat × Nat)}
    (hranges : ∀ range ∈ ranges, 0 < range.2 ∧ Kept range) :
    ∀ range ∈ ranges, ∀ x, Has x range → ∃ r ∈ (addAll ranges).invalidateAll.1, Has x r := by
  have hrun : (addAll ranges = {} ∨ 0 < (addAll ranges).startAddress) ∧
      ∀ range ∈ ranges, ∀ x, Has x range → ∃ r ∈ (addAll ranges).invalidateAll.1, Has x r := by
    induction ranges using reverseRecOn with
    | nil => exact ⟨.inl rfl, nofun⟩
    | append_singleton ranges last ih =>
      obtain ⟨hacc, hcovered⟩ := ih fun range hrange => hranges range (by simp [hrange])
      obtain ⟨hsize, hkept⟩ := hranges last (by simp)
      obtain ⟨hpos, hcovers⟩ := add_covers hacc hkept hsize
      rw [addAll, foldl_append]
      refine ⟨.inr hpos, fun range hrange x hx => hcovers x ?_⟩
      rcases mem_append.1 hrange with hrange | hrange
      · exact .inl (hcovered range hrange x hx)
      · exact .inr (mem_singleton.1 hrange ▸ hx)
  exact hrun.2

/-- The second range follows the first one and loses nothing, as it ends in the middle of a
unit. -/
theorem invalidateAll_covers_two :
    ∃ r ∈ (addAll [(64, 32), (100, 20)]).invalidateAll.1, Has 119 r :=
  invalidateAll_covers (by decide) (100, 20) (by decide) 119 ⟨by decide, by decide⟩

/-- The last byte of a range that ends with its unit is lost, and so is a range at zero. -/
theorem invalidateAll_misses :
    (addAll [(33, 31)]).invalidateAll.1 = [(32, 31)] ∧ (addAll [(0, 64)]).invalidateAll.1 = [] := by
  decide

end InvalidationAccumulator
end Drippu.VideoCore
