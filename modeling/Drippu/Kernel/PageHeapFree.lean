import Drippu.Kernel.PageHeapLevels

/-!
# Kernel - Freeing pages

The invariant of the page heap is that of a buddy system: no address is covered by
held blocks of two sizes, and only addresses of the heap are covered.  Freeing adds a
range to the covered addresses, whatever the sizes of the blocks it ends up in.
-/

namespace Drippu.Kernel.KPageHeap

open Library
open Nat hiding dvd_sub

open Buddy

variable {R : Type}

/-! ## The invariant -/

/-- The address lies in a free block. -/
def IsFree (h : KPageHeap R) (a : Nat) : Prop :=
  Buddy.Covers 7 getBlockSize h.holds a

/-- The invariant of the page heap. -/
structure WellFormed (h : KPageHeap R) : Prop where
  numBlocks_eq : h.numBlocks = 7
  address_pos : 0 < h.heapAddress
  levels : ∀ i, i < 7 → h.LevelWF i
  exclusive : Buddy.Exclusive 7 getBlockSize h.holds
  inside : ∀ a, h.IsFree a → h.heapAddress ≤ a ∧ a < h.heapAddress + h.heapSize

/-- The range lies in the heap, and none of it is free. -/
structure Used (h : KPageHeap R) (lo hi : Nat) : Prop where
  le_lo : h.heapAddress ≤ lo
  hi_le : hi ≤ h.heapAddress + h.heapSize
  notFree : ∀ a, lo ≤ a → a < hi → ¬ h.IsFree a

/-- The heap is well formed again, over the same range, and exactly the given
addresses are free. -/
structure Became (h h' : KPageHeap R) (free' : Nat → Prop) : Prop where
  wellFormed : h'.WellFormed
  address_eq : h'.heapAddress = h.heapAddress
  size_eq : h'.heapSize = h.heapSize
  isFree_iff : ∀ a, h'.IsFree a ↔ free' a

/-- The range was added to the free addresses. -/
abbrev Freed (h h' : KPageHeap R) (lo hi : Nat) : Prop :=
  Became h h' fun a => h.IsFree a ∨ (lo ≤ a ∧ a < hi)

variable {h : KPageHeap R}

lemma Freed.refl (hwf : h.WellFormed) (lo : Nat) : Freed h h lo lo :=
  ⟨hwf, rfl, rfl, fun a => by
    constructor
    · exact .inl
    · rintro (ha | ha)
      · exact ha
      · omega⟩

lemma Became.trans {h₁ h₂ : KPageHeap R} {P Q free' : Nat → Prop} (h1 : Became h h₁ P)
    (h2 : Became h₁ h₂ Q) (hfree : ∀ a, Q a ↔ free' a) : Became h h₂ free' :=
  ⟨h2.wellFormed, h2.address_eq.trans h1.address_eq, h2.size_eq.trans h1.size_eq,
    fun a => (h2.isFree_iff a).trans (hfree a)⟩

variable {hi hi' i lo lo' n : Nat}

lemma Freed.trans {h₁ h₂ : KPageHeap R} {first last : Nat} (h1 : Freed h h₁ lo hi)
    (h2 : Freed h₁ h₂ lo' hi')
    (hunion : ∀ a, (first ≤ a ∧ a < last) ↔ (lo ≤ a ∧ a < hi) ∨ (lo' ≤ a ∧ a < hi')) :
    Freed h h₂ first last := by
  refine Became.trans h1 h2 fun a => ?_
  rw [h1.isFree_iff, hunion, or_assoc]

/-- A range of the heap that is not free afterwards. -/
lemma Became.used {h' : KPageHeap R} {free' : Nat → Prop} (hb : Became h h' free')
    (hlo : h.heapAddress ≤ lo) (hhi : hi ≤ h.heapAddress + h.heapSize)
    (hnot : ∀ a, lo ≤ a → a < hi → ¬ free' a) : Used h' lo hi := by
  refine ⟨hb.address_eq ▸ hlo, ?_, fun a h1 h2 => ?_⟩
  · rwa [hb.address_eq, hb.size_eq]
  · rw [hb.isFree_iff]
    exact hnot a h1 h2

lemma Used.mono (hused : Used h lo hi) (hlo : lo ≤ lo') (hhi : hi' ≤ hi) : Used h lo' hi' :=
  ⟨hused.le_lo.trans hlo, hhi.trans hused.hi_le, fun a h1 h2 =>
    hused.notFree a (hlo.trans h1) (lt_of_lt_of_le h2 hhi)⟩

variable {bitmap : KPageBitmap R}

section
variable (hwf : h.WellFormed)
include hwf

lemma WellFormed.setBlock (hbitmap : bitmap.WellFormed (h.blocks i).endOffset)
    (hexclusive : Buddy.Exclusive 7 getBlockSize (h.withBitmap i bitmap).holds)
    (hinside : ∀ a, (h.withBitmap i bitmap).IsFree a →
      h.heapAddress ≤ a ∧ a < h.heapAddress + h.heapSize) : (h.withBitmap i bitmap).WellFormed :=
  ⟨hwf.numBlocks_eq, hwf.address_pos, fun j hj => (hwf.levels j hj).setBlock hbitmap, hexclusive,
    hinside⟩

/-- Blocks of one size leave the held ones. -/
lemma remove_became (hi : i < 7) (hbitmap : bitmap.WellFormed (h.blocks i).endOffset)
    {gone : Nat → Prop} (hgone : ∀ m, gone m → h.holds i m)
    (hholds : ∀ m, (h.withBitmap i bitmap).holds i m ↔ h.holds i m ∧ ¬ gone m) :
    Became h (h.withBitmap i bitmap) fun a => h.IsFree a ∧ ¬ gone (a / getBlockSize i) := by
  have hheld : ∀ j m, (h.withBitmap i bitmap).holds j m ↔ h.holds j m ∧ ¬ (j = i ∧ gone m) := by
    intro j m
    by_cases hji : j = i
    · subst hji
      simp [hholds]
    · simp [holds_setBlock_of_ne _ _ _ hji, hji]
  have hfree := fun a => covers_remove (a := a) gone hwf.exclusive hi (hgone _) hheld
  exact ⟨hwf.setBlock hbitmap (hwf.exclusive.mono fun j m hm => ((hheld j m).1 hm).1)
    fun a ha => hwf.inside a ((hfree a).1 ha).1, rfl, rfl, hfree⟩

/-! ## Freeing one block -/

lemma push_became (hi : i < 7) (hbitmap : bitmap.WellFormed (h.blocks i).endOffset)
    (hused : Used h (n * getBlockSize i) (n * getBlockSize i + getBlockSize i))
    (hholds : ∀ m, (h.withBitmap i bitmap).holds i m ↔ h.holds i m ∨ m = n) :
    Freed h (h.withBitmap i bitmap) (n * getBlockSize i) (n * getBlockSize i + getBlockSize i) := by
  have hrange := fun a => div_eq_iff_range (a := a) (n := n) (getBlockSize_pos i)
  have hheld : ∀ j m, (h.withBitmap i bitmap).holds j m ↔
      h.holds j m ∨ (j = i ∧ m = n) := by
    intro j m
    by_cases hji : j = i
    · subst hji
      simp [hholds]
    · simp [holds_setBlock_of_ne _ _ _ hji, hji]
  have hfree : ∀ a, (h.withBitmap i bitmap).IsFree a ↔
      h.IsFree a ∨ (n * getBlockSize i ≤ a ∧ a < n * getBlockSize i + getBlockSize i) := by
    intro a
    rw [IsFree, covers_insert hi hheld, hrange, IsFree]
  refine ⟨hwf.setBlock hbitmap ?_ ?_, rfl, rfl, hfree⟩
  · refine hwf.exclusive.insert (fun a ha => ?_) hheld
    rw [hrange] at ha
    exact hused.notFree a ha.1 ha.2
  · intro a ha
    rcases (hfree a).1 ha with ha | ha
    · exact hwf.inside a ha
    · have h1 := hused.le_lo
      have h2 := hused.hi_le
      omega

end

/-- The addresses of the block of the next size are those of the family: they are
free, or they belong to the block that completes it. -/
lemma family_free {a : Nat} (hi : i < 6)
    (hfamily : ∀ m, m / ratio i = n / ratio i → h.holds i m ∨ m = n)
    (ha : a / getBlockSize (i + 1) = n / ratio i) :
    h.holds i (a / getBlockSize i) ∨
      (n * getBlockSize i ≤ a ∧ a < n * getBlockSize i + getBlockSize i) := by
  rw [div_getBlockSize_succ hi] at ha
  rcases hfamily _ ha with hheld | heq
  · exact .inl hheld
  · exact .inr ((div_eq_iff_range (getBlockSize_pos i)).1 heq)

lemma merge_became (hwf : h.WellFormed) (hi : i < 6)
    (hbitmap : bitmap.WellFormed (h.blocks i).endOffset)
    (hused : Used h (n * getBlockSize i) (n * getBlockSize i + getBlockSize i))
    (hfamily : ∀ m, m / ratio i = n / ratio i → h.holds i m ∨ m = n)
    (hholds : ∀ m, (h.withBitmap i bitmap).holds i m ↔ h.holds i m ∧ ¬ m / ratio i = n / ratio i) :
    Became h (h.withBitmap i bitmap) fun a =>
      h.IsFree a ∧ ¬ a / getBlockSize (i + 1) = n / ratio i := by
  have hremove := remove_became hwf (by omega) hbitmap
    (fun m (hm : h.holds i m ∧ m / ratio i = n / ratio i) => hm.1) fun m => by
      rw [hholds]
      tauto
  refine ⟨hremove.wellFormed, rfl, rfl, fun a => ?_⟩
  rw [hremove.isFree_iff, ← div_getBlockSize_succ hi]
  refine and_congr_right fun ha => not_congr ⟨And.right, fun hparent => ⟨?_, hparent⟩⟩
  rcases family_free hi hfamily hparent with hheld | hblock
  · exact hheld
  · exact absurd ha (hused.notFree a hblock.1 hblock.2)

/-- Freeing one block adds exactly its addresses, through all merges. -/
lemma freeBlockLoop_spec {levels : Nat} : ∀ {h : KPageHeap R} {i n : Nat}, h.WellFormed →
    levels + i = 7 → 0 < levels →
    Used h (n * getBlockSize i) (n * getBlockSize i + getBlockSize i) →
    ∃ h', freeBlockLoop levels h (n * getBlockSize i) i = .ok h' ∧
      Freed h h' (n * getBlockSize i) (n * getBlockSize i + getBlockSize i) := by
  induction levels with
  | zero =>
    intro h i n _ _ hpos _
    exact absurd hpos (lt_irrefl 0)
  | succ levels ih =>
    intro h i n hwf hlevels _ hused
    have hi : i < 7 := by omega
    have hlevel := hwf.levels i hi
    have hsize := getBlockSize_pos i
    have hfresh : ¬ h.holds i n := fun hn =>
      hused.notFree (n * getBlockSize i) le_rfl (by omega)
        ⟨i, hi, by rw [Nat.mul_div_cancel _ hsize]; exact hn⟩
    obtain ⟨next, bitmap, hrun, hbitmap, hcases⟩ :=
      pushBlock_spec hlevel hi (hlevel.inRange n hused.le_lo hused.hi_le) hfresh
    simp only [freeBlockLoop, hrun, bind, Except.bind]
    rcases hcases with ⟨rfl, hholds⟩ | ⟨hi6, rfl, hfamily, hholds⟩
    · exact ⟨_, rfl, push_became hwf hi hbitmap hused hholds⟩
    have hmerge := merge_became hwf hi6 hbitmap hused hfamily hholds
    have hparent := fun a => div_eq_iff_range (a := a) (n := n / ratio i)
      (getBlockSize_pos (i + 1))
    have hinside : ∀ a, a / getBlockSize (i + 1) = n / ratio i →
        h.heapAddress ≤ a ∧ a < h.heapAddress + h.heapSize := by
      intro a ha
      rcases family_free hi6 hfamily ha with hheld | hblock
      · exact hwf.inside a ⟨i, hi, hheld⟩
      · have h1 := hused.le_lo
        have h2 := hused.hi_le
        omega
    have hpos := getBlockSize_pos (i + 1)
    have hfirst := hinside (n / ratio i * getBlockSize (i + 1)) ((hparent _).2 (by omega))
    have hlast := hinside (n / ratio i * getBlockSize (i + 1) + getBlockSize (i + 1) - 1)
      ((hparent _).2 (by omega))
    have hused₁ := hmerge.used hfirst.1 (by omega) fun a h1 h2 ha => ha.2 ((hparent a).2 ⟨h1, h2⟩)
    obtain ⟨h', hok, hfreed⟩ := ih hmerge.wellFormed (by omega) (by omega) hused₁
    have haddr := hwf.address_pos
    rw [if_pos (by omega)]
    refine ⟨h', hok, hmerge.trans hfreed fun a => ?_⟩
    rw [hmerge.isFree_iff, ← hparent]
    constructor
    · rintro (ha | ha)
      · exact .inl ha.1
      · rcases family_free hi6 hfamily ha with hheld | hblock
        · exact .inl ⟨i, hi, hheld⟩
        · exact .inr hblock
    · rintro (ha | ha)
      · by_cases hp : a / getBlockSize (i + 1) = n / ratio i
        · exact .inr hp
        · exact .inl ⟨ha, hp⟩
      · rw [← div_eq_iff_range hsize] at ha
        rw [div_getBlockSize_succ hi6, ha]
        exact .inr rfl

/-- A step of `Free` that frees a range, in every heap that uses it. -/
def Frees (f : KPageHeap R → Except PageFault (KPageHeap R)) (lo hi : Nat) : Prop :=
  ∀ ⦃h : KPageHeap R⦄, h.WellFormed → Used h lo hi → ∃ h', f h = .ok h' ∧ Freed h h' lo hi

lemma frees_ok (lo : Nat) : Frees (.ok : KPageHeap R → _) lo lo := fun h hwf _ =>
  ⟨h, rfl, .refl hwf lo⟩

/-- Two steps free two ranges next to each other. -/
lemma Frees.bind {f g : KPageHeap R → Except PageFault (KPageHeap R)} {first last : Nat}
    (hf : Frees f lo hi) (hg : Frees g lo' hi')
    (hsplit : first = lo ∧ hi = lo' ∧ hi' = last ∨ first = lo' ∧ hi' = lo ∧ hi = last)
    (hle : lo ≤ hi ∧ lo' ≤ hi') : Frees (fun h => f h >>= g) first last := by
  intro h hwf hused
  obtain ⟨h₁, hrun₁, hfreed₁⟩ := hf hwf (hused.mono (by omega) (by omega))
  have hrest : Used h lo' hi' := hused.mono (by omega) (by omega)
  obtain ⟨h', hrun, hfreed⟩ := hg hfreed₁.wellFormed (hfreed₁.used hrest.le_lo hrest.hi_le
    fun a h1 h2 ha => ha.elim (hrest.notFree a h1 h2) (by omega))
  refine ⟨h', ?_, hfreed₁.trans hfreed fun a => by omega⟩
  simp only [hrun₁]
  exact hrun

lemma freeBlock_frees {block : Nat} (hi : i < 7) (halign : getBlockSize i ∣ block) :
    Frees (R := R) (·.freeBlock block i) block (block + getBlockSize i) := by
  intro h hwf hused
  obtain ⟨n, rfl⟩ := halign
  rw [mul_comm] at hused ⊢
  simp only [freeBlock, hwf.numBlocks_eq]
  exact freeBlockLoop_spec hwf (by omega) (by omega) hused

/-! ## Freeing a range -/

lemma freeBlocksUp_frees (hi : i < 7) (count : Nat) : ∀ {block : Nat}, getBlockSize i ∣ block →
    Frees (R := R) (freeBlocksUp (getBlockSize i) i count · block) block
      (block + count * getBlockSize i) := by
  induction count with
  | zero =>
    intro block _
    rw [zero_mul]
    exact frees_ok block
  | succ count ih =>
    intro block halign
    rw [succ_mul]
    exact (freeBlock_frees hi halign).bind (ih (dvd_add halign (dvd_refl _))) (by omega)
      (by omega)

lemma freeBlocksDown_frees (hi : i < 7) (count : Nat) : ∀ {block : Nat},
    getBlockSize i ∣ block → count * getBlockSize i ≤ block →
    Frees (R := R) (freeBlocksDown (getBlockSize i) i count · block)
      (block - count * getBlockSize i) block := by
  induction count with
  | zero =>
    intro block _ _
    rw [zero_mul]
    exact frees_ok block
  | succ count ih =>
    intro block halign hle
    rw [succ_mul] at hle ⊢
    have hdvd : getBlockSize i ∣ block - getBlockSize i := Nat.dvd_sub halign (dvd_refl _)
    exact (freeBlock_frees hi hdvd).bind (ih hdvd (by omega)) (by omega) (by omega)

/-- The space before the big blocks is freed completely: after each size, less than
one block of it is left, and pages divide everything. -/
lemma freeBefore_frees (index : Nat) : ∀ (start stop : Nat), index ≤ 7 →
    (0 < index → getBlockSize (index - 1) ∣ stop) → pageSize ∣ start → start ≤ stop →
    (index = 0 → start = stop) → Frees (R := R) (freeBefore index · start stop) start stop := by
  induction index with
  | zero =>
    intro start stop _ _ _ _ hempty
    obtain rfl := hempty rfl
    exact frees_ok start
  | succ index ih =>
    intro start stop hindex hstop hstart hle _ h hwf hused
    have hstop : getBlockSize index ∣ stop := hstop (by omega)
    have hfits := div_mul_le_self (stop - start) (getBlockSize index)
    have hstop' := Nat.dvd_sub hstop
      (dvd_mul_left (getBlockSize index) ((stop - start) / getBlockSize index))
    have hrest := ih start _ (by omega)
      (fun hpos => (getBlockSize_dvd (by omega) (by omega)).trans hstop') hstart (by omega)
      (fun hzero => by
        subst hzero
        have := Nat.div_mul_cancel (Nat.dvd_sub hstop hstart : getBlockSize 0 ∣ stop - start)
        omega)
    simp only [freeBefore, (hwf.levels index (by omega)).getSize]
    exact (freeBlocksDown_frees (by omega) _ hstop (by omega)).bind hrest (by omega) (by omega)
      hwf hused

lemma freeAfter_frees (index : Nat) : ∀ (start stop : Nat), index ≤ 7 →
    (0 < index → getBlockSize (index - 1) ∣ start) → pageSize ∣ stop → start ≤ stop →
    (index = 0 → start = stop) → Frees (R := R) (freeAfter index · start stop) start stop := by
  induction index with
  | zero =>
    intro start stop _ _ _ _ hempty
    obtain rfl := hempty rfl
    exact frees_ok start
  | succ index ih =>
    intro start stop hindex hstart hstop hle _ h hwf hused
    have hstart : getBlockSize index ∣ start := hstart (by omega)
    have hfits := div_mul_le_self (stop - start) (getBlockSize index)
    have hstart' := dvd_add hstart
      (dvd_mul_left (getBlockSize index) ((stop - start) / getBlockSize index))
    have hrest := ih _ stop (by omega)
      (fun hpos => (getBlockSize_dvd (by omega) (by omega)).trans hstart') hstop (by omega)
      (fun hzero => by
        subst hzero
        have := Nat.div_mul_cancel (Nat.dvd_sub hstop hstart : getBlockSize 0 ∣ stop - start)
        omega)
    simp only [freeAfter, (hwf.levels index (by omega)).getSize]
    exact (freeBlocksUp_frees (by omega) _ hstart).bind hrest (by omega) (by omega) hwf hused

lemma findBigIndex_spec (hwf : h.WellFormed) {start stop : Nat} (hstart : pageSize ∣ start)
    (hstop : pageSize ∣ stop) (hlt : start < stop) (index : Nat) :
    index < 7 → ∃ i bigStart bigEnd,
      h.findBigIndex start stop (index + 1) = some (i, bigStart, bigEnd) ∧ i < 7 ∧
      getBlockSize i ∣ bigStart ∧ getBlockSize i ∣ bigEnd ∧ start ≤ bigStart ∧
      bigStart < bigEnd ∧ bigEnd ≤ stop ∧ (i = 0 → bigStart = start ∧ bigEnd = stop) := by
  induction index with
  | zero =>
    intro _
    have hsize := (hwf.levels 0 (by omega)).getSize
    rw [getBlockSize_zero] at hsize
    refine ⟨0, start, stop, ?_, by omega, hstart, hstop, le_rfl, hlt, le_rfl, fun _ => ⟨rfl, rfl⟩⟩
    rw [findBigIndex, hsize]
    simp [alignUp_of_dvd hstart, alignDown_of_dvd hstop, if_pos hlt]
  | succ index ih =>
    intro hindex
    have hsize := (hwf.levels (index + 1) hindex).getSize
    rw [findBigIndex, hsize]
    by_cases hbig : alignUp start (getBlockSize (index + 1)) <
        alignDown stop (getBlockSize (index + 1))
    · refine ⟨index + 1, _, _, if_pos hbig, hindex, dvd_alignUp _ _, dvd_alignDown _ _,
        le_alignUp _ (getBlockSize_pos _), hbig, alignDown_le _ _, by omega⟩
    · simp only [if_neg hbig]
      exact ih (by omega)

lemma free_spec (hwf : h.WellFormed) {addr numPages : Nat} (halign : pageSize ∣ addr)
    (hused : Used h addr (addr + numPages * pageSize)) :
    ∃ h', h.free addr numPages = .ok h' ∧ Freed h h' addr (addr + numPages * pageSize) := by
  unfold free
  by_cases hzero : numPages = 0
  · subst hzero
    exact ⟨h, rfl, by simpa using Freed.refl hwf addr⟩
  have hlt : addr < addr + numPages * pageSize := by
    simp only [pageSize]
    omega
  have hstop : pageSize ∣ addr + numPages * pageSize := dvd_add halign (dvd_mul_left _ _)
  obtain ⟨i, bigStart, bigEnd, hfind, hi, hd1, hd2, hle1, hbig, hle2, hpage⟩ :=
    findBigIndex_spec hwf halign hstop hlt 6 (by omega)
  have hcount : (bigEnd - bigStart) / getBlockSize i * getBlockSize i = bigEnd - bigStart :=
    Nat.div_mul_cancel (Nat.dvd_sub hd2 hd1)
  have hsmaller : ∀ b, getBlockSize i ∣ b → 0 < i → getBlockSize (i - 1) ∣ b := fun b hb _ =>
    (getBlockSize_dvd (sub_le i 1) hi).trans hb
  have hbefore := freeBefore_frees (R := R) i _ _ hi.le (hsmaller _ hd1) halign hle1 fun h0 =>
    (hpage h0).1.symm
  have hafter := freeAfter_frees (R := R) i _ _ hi.le (hsmaller _ hd2) hstop hle2 fun h0 =>
    (hpage h0).2
  have hbig := freeBlocksUp_frees (R := R) hi ((bigEnd - bigStart) / getBlockSize i) hd1
  have hmiddle : Frees _ addr bigEnd := hbig.bind hbefore (by omega) (by omega)
  rw [if_neg hzero, hwf.numBlocks_eq]
  simp only [hfind, (hwf.levels i hi).getSize]
  simpa only [bind_assoc] using hmiddle.bind hafter (by omega) (by omega) hwf hused

end Drippu.Kernel.KPageHeap
