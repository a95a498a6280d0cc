import Drippu.Kernel.PageHeap
import Drippu.Library.Buddy

/-!
# Kernel - The sizes of the page heap

The page heap seen as a buddy system: at size `i` the address `a` lies in
block `a / getBlockSize i`, and the bitmap of that size says which blocks are
held.  This module relates `PushBlock` and `PopBlock` to the held blocks of
one size.
-/

namespace Drippu.Kernel.KPageHeap

open Library Nat KPageBitmap

variable {R : Type}

/-! ## Sizes -/

/-- How many blocks of a size make one of the next size. -/
def ratio (i : Nat) : Nat :=
  2 ^ (memoryBlockPageShifts (i + 1) - memoryBlockPageShifts i)

variable {i j n : Nat}

lemma shifts_step (hi : i < 6) :
    memoryBlockPageShifts i < memoryBlockPageShifts (i + 1) ∧
      memoryBlockPageShifts (i + 1) ≤ memoryBlockPageShifts i + 5 := by
  revert i
  decide

lemma getBlockSize_pos (i : Nat) : 0 < getBlockSize i :=
  Nat.two_pow_pos _

lemma getBlockSize_zero : getBlockSize 0 = pageSize :=
  rfl

lemma getBlockSize_succ (hi : i < 6) : getBlockSize (i + 1) = getBlockSize i * ratio i := by
  have hstep := shifts_step hi
  rw [getBlockSize, getBlockSize, ratio, ← pow_add]
  congr 1
  omega

lemma div_getBlockSize_succ (hi : i < 6) (a : Nat) :
    a / getBlockSize (i + 1) = a / getBlockSize i / ratio i := by
  rw [getBlockSize_succ hi, Nat.div_div_eq_div_mul]

lemma getBlockSize_dvd (hij : i ≤ j) (hj : j < 7) : getBlockSize i ∣ getBlockSize j := by
  induction j, hij using le_induction with
  | base => exact dvd_refl _
  | succ j _ ih =>
    rw [getBlockSize_succ (by omega)]
    exact Dvd.dvd.mul_right (ih (by omega)) _

lemma ratio_spec (hi : i < 6) : 0 < ratio i ∧ ratio i < 64 ∧ ratio i ∣ 64 := by
  have hstep := shifts_step hi
  refine ⟨Nat.two_pow_pos _, ?_, ?_⟩
  · calc ratio i ≤ 2 ^ 5 := Nat.pow_le_pow_right (by decide) (by omega)
      _ < 64 := by decide
  · rw [show (64 : Nat) = 2 ^ 6 by decide]
    exact pow_dvd_pow 2 (by omega)

/-! ## Levels -/

/-- The number of the first block of a size. -/
def firstBlock (h : KPageHeap R) (i : Nat) : Nat :=
  (h.blocks i).heapAddress / getBlockSize i

/-- Whether a block of a size is held as free. -/
def holds (h : KPageHeap R) (i n : Nat) : Prop :=
  h.firstBlock i ≤ n ∧ (h.blocks i).bitmap.leaf (n - h.firstBlock i) = true

instance (h : KPageHeap R) (i n : Nat) : Decidable (h.holds i n) :=
  inferInstanceAs (Decidable (_ ∧ _))

/-- The layout of a size, and the invariant of its bitmap. -/
structure LevelWF (h : KPageHeap R) (i : Nat) : Prop where
  shift : (h.blocks i).blockShift = memoryBlockPageShifts i
  next : (h.blocks i).nextBlockShift = if i ≠ 6 then memoryBlockPageShifts (i + 1) else 0
  address : (h.blocks i).heapAddress = h.firstBlock i * getBlockSize i
  family : i < 6 → ratio i ∣ h.firstBlock i
  inRange : ∀ n, h.heapAddress ≤ n * getBlockSize i →
    n * getBlockSize i + getBlockSize i ≤ h.heapAddress + h.heapSize →
    h.firstBlock i ≤ n ∧ n - h.firstBlock i < (h.blocks i).endOffset
  bitmap : (h.blocks i).bitmap.WellFormed (h.blocks i).endOffset

variable {h : KPageHeap R}

lemma LevelWF.getSize (hwf : h.LevelWF i) : (h.blocks i).getSize = getBlockSize i := by
  rw [Block.getSize, hwf.shift, getBlockSize]

@[simp]
lemma setBlock_blocks_self (h : KPageHeap R) (i : Nat) (b : Block R) :
    (h.setBlock i b).blocks i = b := by
  simp [setBlock]

lemma setBlock_blocks_of_ne (h : KPageHeap R) (b : Block R) (hne : j ≠ i) :
    (h.setBlock i b).blocks j = h.blocks j := by
  simp [setBlock, hne]

/-- The heap with another bitmap of a size. -/
abbrev withBitmap (h : KPageHeap R) (i : Nat) (bitmap : KPageBitmap R) : KPageHeap R :=
  h.setBlock i ((h.blocks i).withBitmap bitmap)

/-- Writing back a block with another bitmap moves no block of any size. -/
lemma firstBlock_setBlock (h : KPageHeap R) (i j : Nat) (bitmap : KPageBitmap R) :
    (h.withBitmap i bitmap).firstBlock j = h.firstBlock j := by
  by_cases hji : j = i
  · subst hji
    rw [firstBlock, setBlock_blocks_self]
    rfl
  · rw [firstBlock, setBlock_blocks_of_ne _ _ hji, firstBlock]

lemma holds_setBlock_self (h : KPageHeap R) (i m : Nat) (bitmap : KPageBitmap R) :
    (h.withBitmap i bitmap).holds i m ↔
      h.firstBlock i ≤ m ∧ bitmap.leaf (m - h.firstBlock i) = true := by
  rw [holds, firstBlock_setBlock, setBlock_blocks_self]
  rfl

lemma holds_setBlock_of_ne (h : KPageHeap R) (m : Nat) (bitmap : KPageBitmap R) (hne : j ≠ i) :
    (h.withBitmap i bitmap).holds j m ↔ h.holds j m := by
  rw [holds, firstBlock_setBlock, setBlock_blocks_of_ne _ _ hne, holds]

lemma LevelWF.setBlock {bitmap : KPageBitmap R} (hwf : h.LevelWF j)
    (hbitmap : bitmap.WellFormed (h.blocks i).endOffset) :
    (h.withBitmap i bitmap).LevelWF j := by
  by_cases hji : j = i
  · subst hji
    constructor <;> simp only [setBlock_blocks_self, firstBlock_setBlock]
    exacts [hwf.shift, hwf.next, hwf.address, hwf.family, hwf.inRange, hbitmap]
  · constructor <;> simp only [setBlock_blocks_of_ne _ _ hji, firstBlock_setBlock]
    exacts [hwf.shift, hwf.next, hwf.address, hwf.family, hwf.inRange, hwf.bitmap]

/-! ## Pushing and popping -/

/-- The blocks that merge with a block, as offsets from the first block of the size. -/
lemma family_iff {base m r : Nat} (hr : 0 < r) (hbase : r ∣ base) (hn : base ≤ n)
    (hm : base ≤ m) :
    (alignDown (n - base) r ≤ m - base ∧ m - base < alignDown (n - base) r + r) ↔
      m / r = n / r := by
  obtain ⟨k, rfl⟩ := hbase
  obtain ⟨n, rfl⟩ := Nat.exists_eq_add_of_le hn
  obtain ⟨m, rfl⟩ := Nat.exists_eq_add_of_le hm
  rw [Nat.add_sub_cancel_left, Nat.add_sub_cancel_left, alignDown_eq, Nat.mul_add_div hr,
    Nat.mul_add_div hr, ← Buddy.div_eq_iff_range hr]
  omega

lemma family_address {base r s : Nat} (hr : 0 < r) (hbase : r ∣ base) (hn : base ≤ n) :
    base * s + alignDown (n - base) r * s = n / r * (s * r) := by
  obtain ⟨k, rfl⟩ := hbase
  obtain ⟨n, rfl⟩ := Nat.exists_eq_add_of_le hn
  rw [Nat.add_sub_cancel_left, alignDown_eq, Nat.mul_add_div hr]
  ring

/-- `PushBlock` holds the block, or it takes back the family the block completes
and returns the address of the block of the next size. -/
lemma pushBlock_spec (hwf : h.LevelWF i) (hi : i < 7)
    (hn : h.firstBlock i ≤ n ∧ n - h.firstBlock i < (h.blocks i).endOffset)
    (hfresh : ¬ h.holds i n) :
    ∃ next bitmap, (h.blocks i).pushBlock (n * getBlockSize i) =
        .ok (next, (h.blocks i).withBitmap bitmap) ∧
      bitmap.WellFormed (h.blocks i).endOffset ∧
      ((next = 0 ∧ ∀ m, (h.withBitmap i bitmap).holds i m ↔ h.holds i m ∨ m = n) ∨
        (i < 6 ∧ next = n / ratio i * getBlockSize (i + 1) ∧
          (∀ m, m / ratio i = n / ratio i → h.holds i m ∨ m = n) ∧
          ∀ m, (h.withBitmap i bitmap).holds i m ↔ h.holds i m ∧ ¬ m / ratio i = n / ratio i)) := by
  obtain ⟨hbase, hend⟩ := hn
  have hoffset : (n * getBlockSize i - (h.blocks i).heapAddress) / 2 ^ (h.blocks i).blockShift =
      n - h.firstBlock i := by
    rw [hwf.address, ← Nat.sub_mul, hwf.shift]
    exact Nat.mul_div_cancel _ (getBlockSize_pos i)
  have hclear : (h.blocks i).bitmap.leaf (n - h.firstBlock i) = false := by
    rw [← Bool.not_eq_true]
    exact fun hset => hfresh ⟨hbase, hset⟩
  obtain ⟨bitmap₁, hset, hwf₁, hleaf₁⟩ := setBit_spec hwf.bitmap hend hclear
  -- what is held once the bit is set
  have hheld : ∀ m, (h.withBitmap i bitmap₁).holds i m ↔
      h.holds i m ∨ m = n := by
    intro m
    rw [holds_setBlock_self, hleaf₁, Bool.or_eq_true, decide_eq_true_eq, and_or_left, or_comm]
    exact or_congr_right ⟨fun hm => by omega, fun hm => by omega⟩
  simp only [Block.pushBlock, hoffset, hset, hwf.next]
  by_cases hlast : i = 6
  · refine ⟨0, bitmap₁, ?_, hwf₁, .inl ⟨rfl, hheld⟩⟩
    subst hlast
    rfl
  have hi6 : i < 6 := by omega
  obtain ⟨hrpos, hr64, hrdvd⟩ := ratio_spec hi6
  have hnext : memoryBlockPageShifts (i + 1) ≠ 0 := by
    have := (shifts_step hi6).1
    omega
  have hratio : 2 ^ (memoryBlockPageShifts (i + 1) - (h.blocks i).blockShift) = ratio i := by
    rw [hwf.shift, ratio]
  have hword : alignDown (n - h.firstBlock i) (ratio i) % 64 + ratio i ≤ 64 := by
    refine le_of_lt_add_of_dvd (show _ < 64 + ratio i by omega) ?_ hrdvd
    exact dvd_add ((dvd_mod_iff hrdvd).2 (dvd_alignDown _ _)) (dvd_refl _)
  simp only [bind, Except.bind, hlast, ne_eq, not_false_eq_true, if_true, hnext, hratio]
  rcases clearRange_spec hwf₁ hrpos hr64 hword with
    ⟨hall, bitmap₂, hrun, hwf₂, hleaf₂⟩ | ⟨-, hrun⟩
  · refine ⟨_, bitmap₂, by rw [hrun], hwf₂, .inr ⟨hi6, ?_, fun m hm => ?_, fun m => ?_⟩⟩
    · rw [if_pos rfl, hwf.shift, hwf.address, getBlockSize_succ hi6]
      exact family_address hrpos (hwf.family hi6) hbase
    · have hm' : h.firstBlock i ≤ m := by
        have hle := Nat.div_le_div_right (c := ratio i) hbase
        obtain ⟨k, hk⟩ := hwf.family hi6
        rw [hk, Nat.mul_div_cancel_left _ hrpos, ← hm, Nat.le_div_iff_mul_le hrpos,
          mul_comm, ← hk] at hle
        exact hle
      have hrange := (family_iff hrpos (hwf.family hi6) hbase hm').2 hm
      rw [← hheld, holds_setBlock_self]
      exact ⟨hm', hall _ hrange.1 hrange.2⟩
    · have hkept : (h.withBitmap i bitmap₂).holds i m ↔
          (h.withBitmap i bitmap₁).holds i m ∧
            ¬ m / ratio i = n / ratio i := by
        rw [holds_setBlock_self, holds_setBlock_self, hleaf₂, Bool.and_eq_true,
          Bool.not_eq_true', decide_eq_false_iff_not, ← and_assoc]
        exact and_congr_right fun hm => not_congr (family_iff hrpos (hwf.family hi6) hbase hm.1)
      rw [hkept, hheld]
      refine ⟨fun ⟨hm, hother⟩ => ⟨hm.resolve_right ?_, hother⟩, fun hm => ⟨.inl hm.1, hm.2⟩⟩
      rintro rfl
      exact hother rfl
  · rw [hrun]
    exact ⟨0, bitmap₁, rfl, hwf₁, .inl ⟨rfl, hheld⟩⟩

lemma popBlock_spec (G : RandomSource R) (hwf : h.LevelWF i) (random : Bool) :
    ∃ addr bitmap, (h.blocks i).popBlock G random = .ok (addr, (h.blocks i).withBitmap bitmap) ∧
      bitmap.WellFormed (h.blocks i).endOffset ∧
      ((addr = 0 ∧ ∀ m, (h.withBitmap i bitmap).holds i m ↔ h.holds i m) ∨
        ∃ n, addr = n * getBlockSize i ∧ h.holds i n ∧
          ∀ m, (h.withBitmap i bitmap).holds i m ↔ h.holds i m ∧ m ≠ n) := by
  obtain ⟨found, bitmap₁, hrun, hwf₁, hleaf₁, hfound⟩ :=
    findFreeBlock_spec G hwf.bitmap random
  simp only [Block.popBlock, hrun, bind, Except.bind]
  rcases hfound with ⟨rfl, -⟩ | ⟨o, rfl, ho⟩
  · refine ⟨0, bitmap₁, rfl, hwf₁, .inl ⟨rfl, fun m => ?_⟩⟩
    rw [holds_setBlock_self, hleaf₁, holds]
  obtain ⟨bitmap, hclear, hwf', hleaf⟩ := clearBit_spec hwf₁ (by rw [hleaf₁, ho])
  simp only [hclear]
  refine ⟨_, bitmap, rfl, hwf', .inr ⟨h.firstBlock i + o, ?_, ?_, fun m => ?_⟩⟩
  · rw [hwf.address, hwf.shift, add_mul]
    rfl
  · refine ⟨le_add_right _ _, ?_⟩
    rw [Nat.add_sub_cancel_left]
    exact ho
  · rw [holds_setBlock_self, hleaf, hleaf₁, Bool.and_eq_true, Bool.not_eq_true',
      decide_eq_false_iff_not, holds]
    constructor
    · rintro ⟨h1, h2, h3⟩
      exact ⟨⟨h1, h2⟩, by omega⟩
    · rintro ⟨⟨h1, h2⟩, h3⟩
      exact ⟨h1, h2, by omega⟩

/-! ## Initialisation -/

/-- The alignment of the blocks of a size is a multiple of the size, and of the next
one. -/
lemma initialized_align (hi : i < 7) :
    (if (if i ≠ 6 then memoryBlockPageShifts (i + 1) else 0) ≠ 0 then
        2 ^ (if i ≠ 6 then memoryBlockPageShifts (i + 1) else 0)
      else 2 ^ memoryBlockPageShifts i) = getBlockSize (min (i + 1) 6) := by
  revert i
  decide

lemma initialized_level (rngs : Nat → R) (rng : R) (address size : Nat) (hi : i < 7) :
    (initialized rngs rng address size).LevelWF i ∧
      ∀ n, ¬ (initialized rngs rng address size).holds i n := by
  obtain ⟨align, halign⟩ : ∃ align, align = getBlockSize (min (i + 1) 6) := ⟨_, rfl⟩
  have hapos : 0 < align := halign ▸ getBlockSize_pos _
  have hdvd : getBlockSize i ∣ align := halign ▸ getBlockSize_dvd (by omega) (by omega)
  have hblock : (initialized rngs rng address size).blocks i =
      { bitmap := KPageBitmap.initialized (rngs i)
          ((alignUp (address + size) align - alignDown address align) / getBlockSize i)
        heapAddress := alignDown address align
        endOffset := (alignUp (address + size) align - alignDown address align) /
          getBlockSize i
        blockShift := memoryBlockPageShifts i
        nextBlockShift := if i ≠ 6 then memoryBlockPageShifts (i + 1) else 0 } := by
    rw [halign, ← initialized_align hi]
    rfl
  have hfirst : (initialized rngs rng address size).firstBlock i =
      alignDown address align / getBlockSize i := by
    rw [firstBlock, hblock]
  have haddress : alignDown address align / getBlockSize i * getBlockSize i =
      alignDown address align :=
    Nat.div_mul_cancel (hdvd.trans (dvd_alignDown _ _))
  refine ⟨⟨?_, ?_, ?_, ?_, ?_, ?_⟩, ?_⟩
  · rw [hblock]
  · rw [hblock]
  · rw [hfirst, haddress, hblock]
  · intro hi6
    obtain ⟨k, hk⟩ := dvd_alignDown address align
    rw [hfirst, hk, halign, show min (i + 1) 6 = i + 1 by omega, getBlockSize_succ hi6,
      mul_assoc, Nat.mul_div_cancel_left _ (getBlockSize_pos i)]
    exact dvd_mul_right _ _
  · intro n h1 h2
    have hdown := alignDown_le address align
    have hup := le_alignUp (address + size) hapos
    have h1 : address ≤ n * getBlockSize i := h1
    have h2 : n * getBlockSize i + getBlockSize i ≤ address + size := h2
    rw [hfirst, hblock]
    refine ⟨Nat.div_le_of_le_mul (by rw [mul_comm]; omega), ?_⟩
    rw [← succ_le_iff, Nat.le_div_iff_mul_le (getBlockSize_pos i), succ_mul, Nat.sub_mul, haddress]
    omega
  · exact (initialized_wellFormed _ _).1
  · rintro n ⟨-, hleaf⟩
    rw [hblock] at hleaf
    rw [(initialized_wellFormed _ _).2] at hleaf
    cases hleaf

end Drippu.Kernel.KPageHeap
