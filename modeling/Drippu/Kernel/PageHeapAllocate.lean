import Drippu.Kernel.PageHeapFree

/-!
# Kernel - Allocating pages

An allocation pops a block of some size and frees what it does not need of it, so the
addresses that leave the free set are exactly the ones returned.  The last section
puts the calls together into runs of the heap.

Main results:

- Theorem `KPageHeap.runs_correct`: every call from every reachable heap.
-/

namespace Drippu.Kernel.KPageHeap

open Library Nat Finset

variable {R : Type}

/-! ## Popping a block -/

/-- The range was free and has left the free addresses. -/
structure Allocated (h h' : KPageHeap R) (lo hi : Nat) : Prop where
  wasFree : ∀ a, lo ≤ a → a < hi → h.IsFree a
  became : Became h h' fun a => h.IsFree a ∧ ¬ (lo ≤ a ∧ a < hi)

variable {h h' : KPageHeap R}

lemma Allocated.used {lo hi : Nat} (h1 : Allocated h h' lo hi) (hwf : h.WellFormed)
    (hlt : lo < hi) : Used h' lo hi := by
  have hfirst := hwf.inside lo (h1.wasFree lo le_rfl hlt)
  have hlast := hwf.inside (hi - 1) (h1.wasFree (hi - 1) (by omega) (by omega))
  exact h1.became.used hfirst.1 (by omega) fun a ha1 ha2 ha => ha.2 ⟨ha1, ha2⟩

variable {addr i index numPages size : Nat} (G : RandomSource R)

/-- `PopBlock` on the heap: nothing changes, or a held block is allocated. -/
lemma popBlock_became (hwf : h.WellFormed) (hi : i < 7) (random : Bool) :
    ∃ addr b, (h.blocks i).popBlock G random = .ok (addr, b) ∧
      ((addr = 0 ∧ Became h (h.setBlock i b) h.IsFree) ∨
        (0 < addr ∧ getBlockSize i ∣ addr ∧
          Allocated h (h.setBlock i b) addr (addr + getBlockSize i))) := by
  obtain ⟨addr, bitmap, hrun, hbitmap, hcases⟩ := popBlock_spec G (hwf.levels i hi) random
  refine ⟨addr, _, hrun, ?_⟩
  rcases hcases with ⟨rfl, hholds⟩ | ⟨n, rfl, hn, hholds⟩
  · have hnone := remove_became hwf hi hbitmap (fun _ => False.elim) fun m => by
      rw [hholds, not_false_eq_true, and_true]
    exact .inl ⟨rfl, by simpa using hnone⟩
  have hsize := getBlockSize_pos i
  have hrange := fun a => Buddy.div_eq_iff_range (a := a) (n := n) hsize
  have hremove := remove_became hwf hi hbitmap (fun m (hm : m = n) => hm ▸ hn) hholds
  simp only [hrange] at hremove
  have hwas : ∀ a, n * getBlockSize i ≤ a → a < n * getBlockSize i + getBlockSize i →
      h.IsFree a := fun a h1 h2 => ⟨i, hi, by rw [(hrange a).2 ⟨h1, h2⟩]; exact hn⟩
  have haddr := (hwf.inside _ (hwas (n * getBlockSize i) le_rfl (by omega))).1
  have hpos := hwf.address_pos
  exact .inr ⟨by omega, dvd_mul_left _ _, hwas, hremove⟩

/-- Giving back one end of an allocated range. -/
lemma Allocated.freeWhen {h₀ : KPageHeap R} {lo hi : Nat} (halloc : Allocated h₀ h lo hi)
    (hwf₀ : h₀.WellFormed) (condition : Bool) (addr size first last : Nat)
    (hcondition : condition = true ↔ 0 < size) (halign : pageSize ∣ addr) (hsize : pageSize ∣ size)
    (hend : lo = addr ∧ addr + size = first ∧ first ≤ hi ∧ last = hi ∨
      first = lo ∧ lo ≤ addr ∧ last = addr ∧ addr + size = hi) :
    ∃ h', h.freeWhen condition addr (size / pageSize) = .ok h' ∧ Allocated h₀ h' first last := by
  obtain ⟨h', hrun, hfreed⟩ : ∃ h', h.freeWhen condition addr (size / pageSize) = .ok h' ∧
      Freed h h' addr (addr + size) := by
    cases condition with
    | true =>
      have hpos := hcondition.1 rfl
      have hused : Used h addr (addr + size) :=
        (halloc.used hwf₀ (by omega)).mono (by omega) (by omega)
      rw [← Nat.div_mul_cancel hsize] at hused
      have hfree := free_spec halloc.became.wellFormed halign hused
      rwa [Nat.div_mul_cancel hsize] at hfree
    | false =>
      obtain rfl : size = 0 := by simpa using hcondition
      exact ⟨h, rfl, .refl halloc.became.wellFormed addr⟩
  refine ⟨h', hrun, fun a _ _ => halloc.wasFree a (by omega) (by omega),
    halloc.became.trans hfreed fun a => ?_⟩
  rw [halloc.became.isFree_iff]
  have hfree := halloc.wasFree a
  by_cases ha : h₀.IsFree a
  · simp only [ha, true_and]
    omega
  · simp only [ha, false_and, false_or, iff_false]
    exact fun hin => ha (hfree (by omega) (by omega))

/-! ## Linear search -/

/-- An allocation failed without an effect, or returned an aligned range. -/
def Outcome (h h' : KPageHeap R) (addr align size : Nat) : Prop :=
  (addr = 0 ∧ Became h h' h.IsFree) ∨ (0 < addr ∧ align ∣ addr ∧ Allocated h h' addr (addr + size))

lemma pageSize_dvd_getBlockSize (hi : i < 7) : pageSize ∣ getBlockSize i :=
  getBlockSize_dvd (zero_le i) hi

lemma allocateByLinearSearchLoop_spec {levels : Nat} (hindex : index < 7) :
    ∀ {h : KPageHeap R} {i : Nat}, h.WellFormed → index ≤ i →
      levels + i = 7 →
      ∃ addr h', allocateByLinearSearchLoop G (getBlockSize index) levels h i = .ok (addr, h') ∧
        Outcome h h' addr (getBlockSize index) (getBlockSize index) := by
  induction levels with
  | zero =>
    intro h i hwf _ _
    exact ⟨0, h, rfl, .inl ⟨rfl, hwf, rfl, rfl, fun _ => Iff.rfl⟩⟩
  | succ levels ih =>
    intro h i hwf hle hlevels
    have hi : i < 7 := by omega
    obtain ⟨addr, b, hrun, hcases⟩ := popBlock_became G hwf hi false
    simp only [allocateByLinearSearchLoop, hrun, bind, Except.bind]
    rcases hcases with ⟨rfl, hbecame⟩ | ⟨hpos, hdvd, halloc⟩
    · -- no block of this size: the search goes on from a heap with the same free set
      obtain ⟨addr, h', hok, hout⟩ := ih (i := i + 1) hbecame.wellFormed (by omega) (by omega)
      refine ⟨addr, h', hok, ?_⟩
      have hsame := hbecame.isFree_iff
      rcases hout with ⟨rfl, hb⟩ | ⟨hp, hd, ha⟩
      · exact .inl ⟨rfl, hbecame.trans hb hsame⟩
      · exact .inr ⟨hp, hd, fun a h1 h2 => (hsame a).1 (ha.wasFree a h1 h2),
          hbecame.trans ha.became fun a => and_congr_left' (hsame a)⟩
    rw [if_pos (by omega)]
    have hwf₁ := halloc.became.wellFormed
    have hsize := (hwf₁.levels i hi).getSize
    have hdvdsize := getBlockSize_dvd hle hi
    have hlesize := le_of_dvd (getBlockSize_pos i) hdvdsize
    have hpage := pageSize_dvd_getBlockSize hi
    have hneed := pageSize_dvd_getBlockSize hindex
    obtain ⟨h₂, hfree, ha⟩ := halloc.freeWhen hwf (decide (getBlockSize i > getBlockSize index))
      (addr + getBlockSize index) (getBlockSize i - getBlockSize index) addr
      (addr + getBlockSize index) (by rw [decide_eq_true_iff]; omega)
      (dvd_add (hpage.trans hdvd) hneed) (dvd_sub hpage hneed) (by omega)
    simp only [hsize, hfree]
    exact ⟨addr, h₂, rfl, .inr ⟨hpos, hdvdsize.trans hdvd, ha⟩⟩

lemma allocateByLinearSearch_spec (hwf : h.WellFormed) (hindex : index < 7) :
    ∃ addr h', h.allocateByLinearSearch G index = .ok (addr, h') ∧
      Outcome h h' addr (getBlockSize index) (getBlockSize index) := by
  rw [allocateByLinearSearch, (hwf.levels index hindex).getSize, hwf.numBlocks_eq]
  exact allocateByLinearSearchLoop_spec G hindex hwf le_rfl (by omega)

/-! ## Random allocation -/

lemma two_pow_countrZero_dvd {value : Nat} (hlt : value < 2 ^ 64) :
    2 ^ countrZero value ∣ value := by
  have hdvd := two_pow_ctz_dvd (BitVec.ofNat 64 value)
  rwa [BitVec.toNat_ofNat, mod_eq_of_lt hlt] at hdvd

lemma le_countrZero {value k : Nat} (hpos : 0 < value) (hlt : value < 2 ^ 64)
    (hdvd : 2 ^ k ∣ value) : k ≤ countrZero value := by
  by_contra hk
  have hne : BitVec.ofNat 64 value ≠ 0#64 := by
    intro hzero
    have := congrArg BitVec.toNat hzero
    simp at this
    omega
  have hbit := BitVec.getLsbD_true_ctz_of_ne_zero hne
  rw [BitVec.getLsbD, BitVec.toNat_ofNat, mod_eq_of_lt hlt] at hbit
  obtain ⟨c, rfl⟩ := hdvd
  rw [testBit_two_pow_mul] at hbit
  simp only [Bool.and_eq_true, decide_eq_true_eq] at hbit
  exact hk hbit.1

lemma getBlockSize_lt (hi : i < 7) : getBlockSize i < 2 ^ 64 := by
  revert i
  decide

lemma countAlignments_le (h : KPageHeap R) (neededSize alignShift levels : Nat) :
    ∀ i possibleAlignments : Nat,
      (h.countAlignments neededSize alignShift levels i possibleAlignments).2 ≤ i + levels := by
  induction levels with
  | zero =>
    intro i possibleAlignments
    exact le_rfl
  | succ levels ih =>
    intro i possibleAlignments
    simp only [countAlignments]
    split
    · omega
    · exact (ih (i + 1) _).trans (by omega)

lemma selectAlignment_bounds (h : KPageHeap R)
    (neededSize alignShift rnd index levels : Nat) : ∀ i possibleAlignments, index ≤ i →
      index ≤ h.selectAlignment neededSize alignShift rnd index levels i possibleAlignments ∧
        h.selectAlignment neededSize alignShift rnd index levels i possibleAlignments <
          max (index + 1) (i + levels) := by
  induction levels with
  | zero =>
    simp only [selectAlignment]
    omega
  | succ levels ih =>
    intro i possibleAlignments hle
    simp only [selectAlignment]
    split
    · omega
    · have hrec := ih (i + 1)
        (possibleAlignments + h.possibleAlignmentsAt neededSize alignShift i) (by omega)
      omega

/-- The choice of a size changes only the generator, and chooses no smaller size. -/
lemma chooseIndex_spec (hwf : h.WellFormed) (hindex : index < 7) (neededSize alignShift : Nat) :
    ∃ i rng, h.chooseIndex G index neededSize alignShift = (i, { h with rng := rng }) ∧
      index ≤ i ∧ i < 7 := by
  have hnum := hwf.numBlocks_eq
  have hmax := countAlignments_le h neededSize alignShift (h.numBlocks - index) index 0
  simp only [chooseIndex]
  split
  · refine ⟨_, _, rfl, ?_⟩
    have hbounds := selectAlignment_bounds h neededSize alignShift
      (G.generateRandom h.rng
        (h.countAlignments neededSize alignShift (h.numBlocks - index) index 0).1).1 index
      ((h.countAlignments neededSize alignShift (h.numBlocks - index) index 0).2 - index)
      index 0 le_rfl
    exact ⟨hbounds.1, by omega⟩
  · exact ⟨index, h.rng, rfl, le_rfl, hindex⟩

lemma WellFormed.withRng (hwf : h.WellFormed) (rng : R) : { h with rng := rng }.WellFormed :=
  ⟨hwf.numBlocks_eq, hwf.address_pos, fun i hi =>
    have hlevel := hwf.levels i hi
    ⟨hlevel.shift, hlevel.next, hlevel.address, hlevel.family, hlevel.inRange, hlevel.bitmap⟩,
    hwf.exclusive, hwf.inside⟩

/-- Giving back the two ends of a block around a random aligned offset. -/
lemma freeLeftover_spec {h₀ : KPageHeap R} (hwf₀ : h₀.WellFormed)
    {neededSize leftoverSize alignShift : Nat}
    (halloc : Allocated h₀ h addr (addr + (neededSize + leftoverSize))) (hshift : 12 ≤ alignShift)
    (haddr : 2 ^ alignShift ∣ addr) (hneeded : pageSize ∣ neededSize)
    (hrest : pageSize ∣ leftoverSize) :
    ∃ addr' h', h.freeLeftover G addr neededSize leftoverSize alignShift = .ok (addr', h') ∧
      addr ≤ addr' ∧ 2 ^ alignShift ∣ addr' ∧ Allocated h₀ h' addr' (addr' + neededSize) := by
  have hpage : pageSize ∣ 2 ^ alignShift := by
    exact pow_dvd_pow 2 hshift
  obtain ⟨rnd, rng, hrnd⟩ : ∃ rnd rng,
      G.generateRandom h.rng (1 + leftoverSize / 2 ^ alignShift) = (rnd, rng) := ⟨_, _, rfl⟩
  have hlt : rnd < 1 + leftoverSize / 2 ^ alignShift := by
    have := G.generateRandom_lt h.rng (1 + leftoverSize / 2 ^ alignShift)
      (Nat.add_pos_left one_pos _)
    rwa [hrnd] at this
  obtain ⟨offset, hoffset⟩ : ∃ offset, offset = rnd * 2 ^ alignShift := ⟨_, rfl⟩
  have hoffsetdvd : 2 ^ alignShift ∣ offset := hoffset ▸ dvd_mul_left _ _
  have hoffsetle : offset ≤ leftoverSize := by
    rw [hoffset]
    exact (mul_le_mul_right _ (lt_one_add_iff.1 hlt)).trans (div_mul_le_self _ _)
  have hpages := hpage.trans hoffsetdvd
  have haddrpage : pageSize ∣ addr := hpage.trans haddr
  have halloc₁ : Allocated h₀ { h with rng := rng } addr (addr + (neededSize + leftoverSize)) :=
    ⟨halloc.wasFree, halloc.became.wellFormed.withRng rng, halloc.became.address_eq,
      halloc.became.size_eq, halloc.became.isFree_iff⟩
  -- the pages in front of the offset, then those behind the needed ones
  obtain ⟨h₂, hrun₂, halloc₂⟩ := halloc₁.freeWhen hwf₀ (decide (offset ≠ 0)) addr offset
    (addr + offset) _ (by rw [decide_eq_true_iff]; omega) haddrpage hpages
    (.inl ⟨rfl, rfl, by omega, rfl⟩)
  obtain ⟨h₃, hrun₃, halloc₃⟩ := halloc₂.freeWhen hwf₀ (decide (offset ≠ leftoverSize))
    (addr + offset + neededSize) (leftoverSize - offset) (addr + offset) _
    (by rw [decide_eq_true_iff]; omega)
    (dvd_add (dvd_add haddrpage hpages) hneeded) (dvd_sub hrest hpages)
    (.inr ⟨rfl, by omega, rfl, by omega⟩)
  refine ⟨addr + offset, h₃, ?_, Nat.le_add_right _ _, dvd_add haddr hoffsetdvd, halloc₃⟩
  simp only [freeLeftover, hrnd, ← hoffset, hrun₂, hrun₃, bind, Except.bind]

/-- `AllocateByRandom`: the alignment is kept up to the power of two in it. -/
lemma allocateByRandom_spec (hwf : h.WellFormed) {alignPages : Nat} (hindex : index < 7)
    (hneeded : numPages * pageSize ≤ getBlockSize index)
    (halign : alignPages * pageSize ≤ getBlockSize index) (hpos : 0 < alignPages) :
    ∃ addr h', h.allocateByRandom G index numPages alignPages = .ok (addr, h') ∧
      Outcome h h' addr (2 ^ countrZero (alignPages * pageSize)) (numPages * pageSize) := by
  obtain ⟨alignShift, hshift⟩ : ∃ k, k = countrZero (alignPages * pageSize) := ⟨_, rfl⟩
  have hsmall := getBlockSize_lt hindex
  have hspos : 0 < alignPages * pageSize := mul_pos hpos (by decide)
  have hdvd : 2 ^ alignShift ∣ alignPages * pageSize := hshift ▸ two_pow_countrZero_dvd (by omega)
  have h12 : 12 ≤ alignShift := hshift ▸ le_countrZero hspos (by omega) (dvd_mul_left _ _)
  -- the power of two in the alignment divides the size, hence every block address
  have hsizedvd : 2 ^ alignShift ∣ getBlockSize index := by
    refine pow_dvd_pow 2 ((Nat.pow_le_pow_iff_right (by decide : 1 < 2)).1 ?_)
    exact (le_of_dvd hspos hdvd).trans halign
  obtain ⟨i, rng, hchoose, hle, hi⟩ :=
    chooseIndex_spec G hwf hindex (numPages * pageSize) alignShift
  obtain ⟨addr, b, hrun, hcases⟩ := popBlock_became G (hwf.withRng rng) hi true
  simp only [allocateByRandom, ← hshift, hchoose, hrun, bind, Except.bind]
  rcases hcases with ⟨rfl, hbecame⟩ | ⟨haddr, hblock, halloc⟩
  · exact ⟨0, _, rfl, .inl ⟨rfl, hbecame.wellFormed, hbecame.address_eq, hbecame.size_eq,
      hbecame.isFree_iff⟩⟩
  rw [if_pos (by omega)]
  have hsize := (halloc.became.wellFormed.levels i hi).getSize
  have hlesize := le_of_dvd (getBlockSize_pos i) (getBlockSize_dvd hle hi)
  have hfits : numPages * pageSize + (getBlockSize i - numPages * pageSize) =
      getBlockSize i := by omega
  have haligned : 2 ^ alignShift ∣ addr := (hsizedvd.trans (getBlockSize_dvd hle hi)).trans hblock
  have halloc' : Allocated h
      (KPageHeap.setBlock { h with rng := rng } i b) addr
      (addr + (numPages * pageSize + (getBlockSize i - numPages * pageSize))) := by
    rw [hfits]
    exact ⟨halloc.wasFree, halloc.became.wellFormed, halloc.became.address_eq,
      halloc.became.size_eq, halloc.became.isFree_iff⟩
  rw [hsize]
  by_cases hrest : 0 < getBlockSize i - numPages * pageSize
  · rw [if_pos hrest]
    obtain ⟨addr', h', hok, hge, hd, ha⟩ := freeLeftover_spec G hwf halloc' h12 haligned
      (dvd_mul_left _ _)
      (dvd_sub (pageSize_dvd_getBlockSize hi) (dvd_mul_left _ _))
    exact ⟨addr', h', hok, .inr ⟨by omega, hd, ha⟩⟩
  · rw [if_neg hrest]
    refine ⟨addr, _, rfl, .inr ⟨haddr, haligned, ?_⟩⟩
    rwa [Nat.eq_zero_of_not_pos hrest, add_zero] at halloc'

/-! ## Counting free pages -/

/-- The page with a number is free. -/
def FreePage (h : KPageHeap R) (p : Nat) : Prop :=
  h.IsFree (p * pageSize)

instance (h : KPageHeap R) (p : Nat) : Decidable (h.FreePage p) :=
  inferInstanceAs (Decidable (∃ i, i < 7 ∧ h.holds i (p * pageSize / getBlockSize i)))

/-- The pages of the heap. -/
def heapPages (h : KPageHeap R) : Finset Nat :=
  Finset.Ico (h.heapAddress / pageSize) ((h.heapAddress + h.heapSize) / pageSize)

lemma pageSize_mul_div (hi : i < 7) (p : Nat) :
    p * pageSize / getBlockSize i = p / (getBlockSize i / pageSize) := by
  obtain ⟨k, hk⟩ := pageSize_dvd_getBlockSize hi
  rw [hk, Nat.mul_div_cancel_left _ (by decide : 0 < pageSize), mul_comm pageSize k,
    Nat.mul_div_mul_right _ _ (by decide : 0 < pageSize)]

/-- The blocks held at one size. -/
def heldBlocks (h : KPageHeap R) (i : Nat) : Finset Nat :=
  ((h.blocks i).bitmap.leafSet (h.blocks i).endOffset).map (addLeftEmbedding (h.firstBlock i))

lemma mem_heldBlocks {n : Nat} (hwf : h.LevelWF i) : n ∈ h.heldBlocks i ↔ h.holds i n := by
  simp only [heldBlocks, mem_map, addLeftEmbedding_apply,
    KPageBitmap.mem_leafSet hwf.bitmap, holds]
  constructor
  · rintro ⟨o, ho, rfl⟩
    exact ⟨Nat.le_add_right _ _, by rw [Nat.add_sub_cancel_left]; exact ho⟩
  · rintro ⟨hle, hleaf⟩
    exact ⟨n - h.firstBlock i, hleaf, Nat.add_sub_cancel' hle⟩

lemma getNumFreePages_eq (hwf : h.WellFormed) (haddress : pageSize ∣ h.heapAddress)
    (hsize : pageSize ∣ h.heapSize) : h.getNumFreePages = (h.heapPages.filter h.FreePage).card := by
  have hpages : ∀ i, i < 7 → 0 < getBlockSize i / pageSize := fun i hi =>
    div_pos (le_of_dvd (getBlockSize_pos i) (pageSize_dvd_getBlockSize hi)) (by decide)
  have hcovers : ∀ p, Buddy.Covers 7 (fun i => getBlockSize i / pageSize) h.holds p ↔
      h.FreePage p := fun p => by
    refine exists_congr fun i => and_congr_right fun hi => ?_
    rw [pageSize_mul_div hi]
  have hexclusive : Buddy.Exclusive 7 (fun i => getBlockSize i / pageSize) h.holds := by
    intro p i j hi hj hpi hpj
    refine hwf.exclusive (p * pageSize) i j hi hj ?_ ?_
    · rw [pageSize_mul_div hi]
      exact hpi
    · rw [pageSize_mul_div hj]
      exact hpj
  have hcard := hexclusive.card_covered hpages h.heldBlocks
    (fun i n hi => mem_heldBlocks (hwf.levels i hi)) (h.heapPages.filter h.FreePage) fun p => by
      rw [hcovers, mem_filter, heapPages, mem_Ico]
      refine ⟨And.right, fun hp => ⟨?_, hp⟩⟩
      -- free pages lie in the heap
      obtain ⟨h1, h2⟩ := hwf.inside _ hp
      obtain ⟨k, hk⟩ := haddress
      obtain ⟨l, hl⟩ := hsize
      simp only [pageSize] at h1 h2 hk hl ⊢
      omega
  have hsum : h.getNumFreePages =
      ∑ i ∈ range 7, (h.blocks i).getNumFreePages := by
    rw [getNumFreePages, hwf.numBlocks_eq]
    rfl
  rw [hcard, hsum]
  refine sum_congr rfl fun i hi => ?_
  have hlevel := hwf.levels i (mem_range.1 hi)
  rw [Block.getNumFreePages, Block.getNumFreeBlocks, Block.getNumPages, hlevel.getSize,
    hlevel.bitmap.count, heldBlocks, card_map]

/-! ## Runs -/

section
variable (G : RandomSource R)

/-- An aligned request as `GetAlignedBlockIndex` admits it. -/
structure ValidRequest (index numPages alignPages : Nat) : Prop where
  index_lt : index < 7
  align_pos : 0 < alignPages
  fits : max numPages alignPages * pageSize ≤ getBlockSize index

/-- A range of pages of the heap, none of which is free. -/
structure ValidFree (h : KPageHeap R) (addr numPages : Nat) : Prop where
  aligned : pageSize ∣ addr
  le_addr : h.heapAddress ≤ addr
  end_le : addr + numPages * pageSize ≤ h.heapAddress + h.heapSize
  notFree : ∀ p, addr / pageSize ≤ p → p < addr / pageSize + numPages → ¬ h.FreePage p

/-- What one call does to the heap. -/
inductive Step (h : KPageHeap R) : KPageHeap R → Prop
  | allocateBlock {index : Nat} {random : Bool} {addr : Nat} {h' : KPageHeap R}
      (hindex : index < 7) (hrun : h.allocateBlock G index random = .ok (addr, h')) : Step h h'
  | allocateAligned {index numPages alignPages addr : Nat} {h' : KPageHeap R}
      (hvalid : ValidRequest index numPages alignPages)
      (hrun : h.allocateAligned G index numPages alignPages = .ok (addr, h')) : Step h h'
  | free {addr numPages : Nat} {h' : KPageHeap R} (hvalid : h.ValidFree addr numPages)
      (hrun : h.free addr numPages = .ok h') : Step h h'

/-- The runs of a heap over a physical range.  The memory manager asserts that the
range is not empty and does not start at zero, and `Initialize` that it is a
range of pages and that no bitmap gets too deep. -/
def runs (address size : Nat) : TransitionSystem (KPageHeap R) where
  init h := 0 < address ∧ 0 < size ∧ pageSize ∣ address ∧ pageSize ∣ size ∧
    (∀ i, i < 7 → (h.blocks i).bitmap.usedDepths ≤ KPageBitmap.maxDepth) ∧
    ∃ rngs rng, h = initialized rngs rng address size
  step := Step G

end

lemma initialized_wellFormed (rngs : Nat → R) (rng : R) {address : Nat} (hpos : 0 < address) :
    (initialized rngs rng address size).WellFormed := by
  have hlevel := fun i hi => initialized_level rngs rng address size (i := i) hi
  refine ⟨rfl, hpos, fun i hi => (hlevel i hi).1, ?_, ?_⟩
  · intro a i j hi _ hai _
    exact absurd hai ((hlevel i hi).2 _)
  · rintro a ⟨i, hi, hai⟩
    exact absurd hai ((hlevel i hi).2 _)

lemma isFree_iff_freePage {a : Nat} : h.IsFree a ↔ h.FreePage (a / pageSize) := by
  refine exists_congr fun i => and_congr_right fun hi => ?_
  obtain ⟨k, hk⟩ := pageSize_dvd_getBlockSize hi
  rw [pageSize_mul_div hi, hk, Nat.mul_div_cancel_left _ (by decide : 0 < pageSize),
    Nat.div_div_eq_div_mul]

lemma ValidFree.used (hv : h.ValidFree addr numPages) :
    Used h addr (addr + numPages * pageSize) := by
  refine ⟨hv.le_addr, hv.end_le, fun a h1 h2 => ?_⟩
  rw [isFree_iff_freePage]
  obtain ⟨k, rfl⟩ := hv.aligned
  refine hv.notFree _ (Nat.div_le_div_right h1) ?_
  simp only [pageSize] at h2 ⊢
  omega

lemma allocateBlock_spec (hwf : h.WellFormed) (hindex : index < 7) (random : Bool) :
    ∃ addr h', h.allocateBlock G index random = .ok (addr, h') ∧
      Outcome h h' addr (getBlockSize index) (getBlockSize index) := by
  cases random with
  | false => exact allocateByLinearSearch_spec G hwf hindex
  | true =>
    have hpages : (h.blocks index).getNumPages * pageSize = getBlockSize index := by
      rw [Block.getNumPages, (hwf.levels index hindex).getSize]
      exact Nat.div_mul_cancel (pageSize_dvd_getBlockSize hindex)
    have hpos : 0 < (h.blocks index).getNumPages := pos_of_ne_zero fun h0 => by
      have := getBlockSize_pos index
      rw [h0, zero_mul] at hpages
      omega
    obtain ⟨addr, h', hrun, hout⟩ := allocateByRandom_spec G hwf hindex hpages.le hpages.le hpos
    refine ⟨addr, h', hrun, ?_⟩
    -- the alignment is a power of two, so all of it is kept
    have hshift : countrZero (getBlockSize index) = memoryBlockPageShifts index := by
      refine le_antisymm ?_ (le_countrZero (getBlockSize_pos index)
        (getBlockSize_lt hindex) (dvd_refl _))
      exact (pow_dvd_pow_iff_le_right (by decide)).1
        (two_pow_countrZero_dvd (getBlockSize_lt hindex))
    rw [hpages, hshift] at hout
    exact hout

lemma allocateAligned_spec (hwf : h.WellFormed) {alignPages : Nat}
    (hv : ValidRequest index numPages alignPages) :
    ∃ addr h', h.allocateAligned G index numPages alignPages = .ok (addr, h') ∧
      Outcome h h' addr (2 ^ countrZero (alignPages * pageSize)) (numPages * pageSize) := by
  have hfits := hv.fits
  refine allocateByRandom_spec G hwf hv.index_lt (le_trans ?_ hfits) (le_trans ?_ hfits)
    hv.align_pos
  · exact mul_le_mul_right _ (le_max_left _ _)
  · exact mul_le_mul_right _ (le_max_right _ _)

lemma Outcome.became {align : Nat} (hout : Outcome h h' addr align size) :
    ∃ free', Became h h' free' := by
  rcases hout with ⟨-, hb⟩ | ⟨-, -, ha⟩
  · exact ⟨_, hb⟩
  · exact ⟨_, ha.became⟩

lemma Step.became {G : RandomSource R} (hstep : Step G h h') (hwf : h.WellFormed) :
    ∃ free', Became h h' free' := by
  cases hstep with
  | @allocateBlock index random addr _ hindex hrun =>
    obtain ⟨_, _, hrun', hout⟩ := allocateBlock_spec G hwf hindex random
    obtain ⟨rfl, rfl⟩ := Prod.mk.inj (Except.ok.inj (hrun'.symm.trans hrun))
    exact hout.became
  | allocateAligned hvalid hrun =>
    obtain ⟨_, _, hrun', hout⟩ := allocateAligned_spec G hwf hvalid
    obtain ⟨rfl, rfl⟩ := Prod.mk.inj (Except.ok.inj (hrun'.symm.trans hrun))
    exact hout.became
  | free hvalid hrun =>
    obtain ⟨_, hrun', hfreed⟩ := free_spec hwf hvalid.aligned hvalid.used
    obtain rfl := Except.ok.inj (hrun'.symm.trans hrun)
    exact ⟨_, hfreed⟩

lemma runs_wellFormed {G : RandomSource R} {address : Nat}
    (hm : (runs G address size).Reachable h) :
    h.WellFormed ∧ pageSize ∣ h.heapAddress ∧ pageSize ∣ h.heapSize := by
  refine hm.invariant
    (P := fun h => h.WellFormed ∧ pageSize ∣ h.heapAddress ∧ pageSize ∣ h.heapSize) ?_ ?_
  · rintro h ⟨hpos, -, haddress, hsize, -, rngs, rng, rfl⟩
    exact ⟨initialized_wellFormed rngs rng hpos, haddress, hsize⟩
  · rintro h h' - ⟨hwf, ha, hs⟩ hstep
    obtain ⟨_, hbecame⟩ := hstep.became hwf
    exact ⟨hbecame.wellFormed, hbecame.address_eq ▸ ha, hbecame.size_eq ▸ hs⟩

/-- What an allocation of pages owes its caller: a failure leaves the free pages
alone; otherwise the returned address is aligned, its pages were free, and exactly
those leave the free pages. -/
def AllocationCorrect (h h' : KPageHeap R) (addr align numPages : Nat) : Prop :=
  (addr = 0 ∧ ∀ p, h'.FreePage p ↔ h.FreePage p) ∨
    (addr ≠ 0 ∧ align ∣ addr ∧
      (∀ p, addr / pageSize ≤ p → p < addr / pageSize + numPages → h.FreePage p) ∧
      ∀ p, h'.FreePage p ↔ h.FreePage p ∧ ¬ (addr / pageSize ≤ p ∧ p < addr / pageSize + numPages))

lemma page_range_iff (h : pageSize ∣ addr) (numPages p : Nat) :
    (addr ≤ p * pageSize ∧ p * pageSize < addr + numPages * pageSize) ↔
      addr / pageSize ≤ p ∧ p < addr / pageSize + numPages := by
  obtain ⟨k, rfl⟩ := h
  simp only [pageSize]
  omega

lemma Outcome.correct {align : Nat} (hout : Outcome h h' addr align (numPages * pageSize))
    (halign : pageSize ∣ align) : AllocationCorrect h h' addr align numPages := by
  rcases hout with ⟨rfl, hb⟩ | ⟨hpos, hdvd, ha⟩
  · exact .inl ⟨rfl, fun p => hb.isFree_iff _⟩
  have hrange := page_range_iff (halign.trans hdvd) numPages
  refine .inr ⟨by omega, hdvd, fun p h1 h2 => ?_, fun p => ?_⟩
  · obtain ⟨h1, h2⟩ := (hrange p).2 ⟨h1, h2⟩
    exact ha.wasFree _ h1 h2
  · rw [← hrange]
    exact ha.became.isFree_iff _

/-- The page heap is a correct buddy allocator.  In every state of every run a free
page lies in a free block of exactly one size; both allocation calls return and either
change no free page or hand out free pages of the requested size and alignment;
freeing pages that are not free adds exactly those; and the free pages are counted
right. -/
theorem runs_correct (G : RandomSource R) (address size : Nat) {h : KPageHeap R}
    (hm : (runs G address size).Reachable h) :
    (∀ p, h.FreePage p → ∃! i, i < 7 ∧ h.holds i (p * pageSize / getBlockSize i)) ∧
    (∀ index random, index < 7 →
      ∃ addr h', h.allocateBlock G index random = .ok (addr, h') ∧
        AllocationCorrect h h' addr (getBlockSize index) (getBlockSize index / pageSize)) ∧
    (∀ index numPages alignPages, ValidRequest index numPages alignPages →
      ∃ addr h', h.allocateAligned G index numPages alignPages = .ok (addr, h') ∧
        AllocationCorrect h h' addr (2 ^ countrZero (alignPages * pageSize)) numPages ∧
        (alignPages.isPowerOfTwo → alignPages * pageSize ∣ addr)) ∧
    (∀ addr numPages, h.ValidFree addr numPages →
      ∃ h', h.free addr numPages = .ok h' ∧
        ∀ p, h'.FreePage p ↔
          h.FreePage p ∨ (addr / pageSize ≤ p ∧ p < addr / pageSize + numPages)) ∧
    h.getNumFreePages = (h.heapPages.filter h.FreePage).card := by
  obtain ⟨hwf, haddress, hsize⟩ := runs_wellFormed hm
  refine ⟨?_, ?_, ?_, ?_, getNumFreePages_eq hwf haddress hsize⟩
  · rintro p ⟨i, hi, hheld⟩
    exact ⟨i, ⟨hi, hheld⟩, fun j hj => hwf.exclusive _ j i hj.1 hi hj.2 hheld⟩
  · intro index random hindex
    obtain ⟨addr, h', hrun, hout⟩ := allocateBlock_spec G hwf hindex random
    have hpage := pageSize_dvd_getBlockSize hindex
    refine ⟨addr, h', hrun, Outcome.correct ?_ hpage⟩
    rw [Nat.div_mul_cancel hpage]
    exact hout
  · intro index numPages alignPages hv
    obtain ⟨addr, h', hrun, hout⟩ := allocateAligned_spec G hwf hv
    have hsmall := getBlockSize_lt hv.index_lt
    have hfits := (mul_le_mul_right pageSize (le_max_right numPages alignPages)).trans hv.fits
    have hpos : 0 < alignPages * pageSize := mul_pos hv.align_pos (by decide)
    have hpage : pageSize ∣ 2 ^ countrZero (alignPages * pageSize) := by
      rw [show pageSize = 2 ^ 12 by decide]
      exact pow_dvd_pow 2 (le_countrZero hpos (hfits.trans_lt hsmall) (dvd_mul_left _ _))
    refine ⟨addr, h', hrun, hout.correct hpage, ?_⟩
    rintro ⟨k, rfl⟩
    have hpow : 2 ^ k * pageSize = 2 ^ (k + 12) := by
      rw [pow_add, show pageSize = 2 ^ 12 by decide]
    rw [hpow] at hout hpos hfits ⊢
    have hall : 2 ^ (k + 12) ∣ 2 ^ countrZero (2 ^ (k + 12)) :=
      pow_dvd_pow 2 (le_countrZero hpos (hfits.trans_lt hsmall) (dvd_refl _))
    rcases hout with ⟨rfl, -⟩ | ⟨-, hdvd, -⟩
    · exact dvd_zero _
    · exact hall.trans hdvd
  · intro addr numPages hv
    obtain ⟨h', hrun, hfreed⟩ := free_spec hwf hv.aligned hv.used
    refine ⟨h', hrun, fun p => ?_⟩
    rw [← page_range_iff hv.aligned]
    exact hfreed.isFree_iff _

/-- Freeing all of a fresh heap of sixteen pages frees exactly those pages. -/
theorem runs_correct_fresh :
    ∃ h', (initialized (fun _ => ()) () 0x80000000 0x10000).free 0x80000000 16 = .ok h' ∧
      ∀ p, h'.FreePage p ↔
        (initialized (fun _ => ()) () 0x80000000 0x10000).FreePage p ∨
          (0x80000000 / pageSize ≤ p ∧ p < 0x80000000 / pageSize + 16) :=
  (runs_correct ⟨fun _ => (true, ()), fun _ _ => (0, ())⟩ 0x80000000 0x10000
    (.start ⟨by decide, by decide, by decide, by decide, by decide, _, _, rfl⟩)).2.2.2.1
      0x80000000 16 ⟨by decide, by decide, by decide, fun p _ _ hp => by
        obtain ⟨i, hi, hheld⟩ := hp
        exact (initialized_level _ _ _ _ hi).2 _ hheld⟩

end Drippu.Kernel.KPageHeap
