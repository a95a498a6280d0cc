import Drippu.VideoCore.WordManagerPages

/-!
# Video core - What the device tracker counts

An operation that changes the untracked bits of pages tells the device tracker.  The runs
that it collects hold exactly the pages whose bit changes, each once.
-/

namespace Drippu.VideoCore.WordManager

open Library Runs List

/-! ## The counts of the device tracker -/

/-- How often a batch counts a page. -/
def batchCount (b : Batch) (p : Nat) : Int :=
  b.delta * b.ranges.countP fun r =>
    decide (r.1 / bytesPerPage ≤ p ∧ p < (r.1 + r.2 + bytesPerPage - 1) / bytesPerPage)

/-- The net count of a page. -/
def counted (batches : List Batch) (p : Nat) : Int :=
  (batches.map fun b => batchCount b p).sum

@[simp]
lemma counted_nil (p : Nat) : counted [] p = 0 :=
  rfl

lemma counted_append (bs cs : List Batch) (p : Nat) :
    counted (bs ++ cs) p = counted bs p + counted cs p := by
  simp [counted]

/-- The pages of some runs of a region are counted once. -/
lemma counted_applyCollectedRanges {runs : List (Nat × Nat)} (h : Runs.Ascending runs)
    (base : Nat) (delta : Int) (p : Nat) :
    counted (applyCollectedRanges (runs.map (place (base * bytesPerPage) bytesPerPage)) delta)
        p = if base ≤ p ∧ Runs.Covered runs (p - base) then delta else 0 := by
  cases hruns : runs with
  | nil => simp [applyCollectedRanges]
  | cons r rs =>
    rw [← hruns]
    have hsorted : (runs.map (place (base * bytesPerPage) bytesPerPage)).Pairwise
        fun a b => decide (a.1 ≤ b.1) = true := by
      refine pairwise_map.2 (h.sorted.imp fun hle => decide_eq_true ?_)
      simp only [place, bytesPerPage]
      omega
    have hpage : ∀ r : Nat × Nat,
        (place (base * bytesPerPage) bytesPerPage r).1 / bytesPerPage ≤ p ∧
          p < ((place (base * bytesPerPage) bytesPerPage r).1 +
            (place (base * bytesPerPage) bytesPerPage r).2 + bytesPerPage - 1) /
              bytesPerPage ↔ base ≤ p ∧ Runs.Has r (p - base) := fun r => by
      simp only [place, Runs.Has, bytesPerPage]
      omega
    have hne : (runs.map (place (base * bytesPerPage) bytesPerPage)).isEmpty = false := by
      rw [hruns]
      rfl
    rw [applyCollectedRanges, hne, if_neg Bool.false_ne_true,
      mergeSort_of_pairwise hsorted, coalesce_map_place (by decide), counted,
      map_singleton, sum_singleton, batchCount, countP_map]
    simp only [Function.comp_def, hpage]
    by_cases hbase : base ≤ p
    · have hcount := h.coalesce.ascending.countP_eq (p - base)
      simp only [covered_coalesce] at hcount
      simp only [hbase, true_and, hcount]
      split <;> simp
    · simp [hbase]

/-- What the device tracker should hold for a page. -/
def level (p : Page) : Int :=
  if p .untracked then 0 else 1

/-- The calls of the device tracker follow the untracked bits of the pages of a region. -/
def Balanced (base : Nat) (m m' : WordManager) (batches : List Batch) : Prop :=
  ∀ p, counted batches p =
    if base ≤ p ∧ p < base + numWords * pagesPerWord then
      level (m'.page (p - base)) - level (m.page (p - base))
    else 0

lemma Balanced.of_level_eq {base : Nat} {m m' : WordManager}
    (h : ∀ q, level (m'.page q) = level (m.page q)) : Balanced base m m' [] := by
  intro p
  simp [h]

lemma map_collectChangedRanges (m : WordManager) (addToTracker : Bool)
    (words : List (Nat × BitVec 64)) (currentBits : Nat → BitVec 64) :
    (words.flatMap fun w => m.collectChangedRanges addToTracker w.1 (currentBits w.1) w.2) =
      (wordRuns (words.map fun w =>
        (w.1, (if addToTracker then currentBits w.1 else ~~~currentBits w.1) &&& w.2))).map
        (place m.cpuAddr bytesPerPage) := by
  rw [wordRuns, flatMap_map, map_flatMap]
  refine flatMap_congr fun w _ => ?_
  rw [collectChangedRanges, map_map]
  refine map_congr_left fun r _ => ?_
  simp only [place, toPages, Function.comp_apply, bytesPerWord]
  rw [add_mul, ← mul_assoc, add_assoc]

/-! ## Operations -/

section
variable {m : WordManager} {base : Nat} (hbase : m.cpuAddr = base * bytesPerPage)
include hbase

section
variable {offset size : Nat} (hsize : 0 < size) (hend : offset + size ≤ sizeBytes)
include hsize hend

/-- The runs of the touched pages whose untracked bit is to change. -/
lemma balanced_of_touched {m' : WordManager} (addToTracker : Bool) {delta : Int}
    (hlevel : ∀ q, level (m'.page q) - level (m.page q) =
      if Touches offset size q ∧ m.page q .untracked = addToTracker then delta else 0) :
    Balanced base m m' (applyCollectedRanges ((iterateWords offset size).flatMap fun w =>
      m.collectChangedRanges addToTracker w.1 (m.words w.1 .untracked) w.2) delta) := by
  intro p
  let changed i mask : BitVec 64 :=
    (if addToTracker then m.words i .untracked else ~~~m.words i .untracked) &&& mask
  have hword : ∀ q mask, (changed (q / pagesPerWord) mask).getLsbD (q % pagesPerWord) =
      (mask.getLsbD (q % pagesPerWord) && (m.page q .untracked == addToTracker)) := by
    intro q mask
    have hlt : q % pagesPerWord < 64 := Nat.mod_lt q (by decide)
    cases addToTracker <;> simp [changed, page, columnPage, hlt, Bool.and_comm]
  have hcovered := covered_touched hsize hend changed hword
  rw [map_collectChangedRanges m addToTracker _ (fun i => m.words i .untracked), hbase,
    counted_applyCollectedRanges (ascending_touched hsize hend changed) base delta p]
  simp only [hcovered, beq_iff_eq, hlevel]
  have hregion : Touches offset size (p - base) → p - base < numWords * pagesPerWord := by
    simp only [Touches, bytesPerPage, numWords, pagesPerWord, bytesPerWord, sizeBytes] at hend ⊢
    omega
  by_cases hp : base ≤ p ∧ p < base + numWords * pagesPerWord
  · rw [if_pos hp]
    simp [hp.1]
  · rw [if_neg hp, if_neg]
    rintro ⟨hle, hq, -⟩
    have := hregion hq
    omega

omit hbase in
lemma changeRegionState_batches (type : PageType) (enable : Bool) :
    (m.changeRegionState type enable (m.cpuAddr + offset) size).2 =
      if tracked type then applyCollectedRanges ((iterateWords offset size).flatMap fun w =>
        m.collectChangedRanges (!enable) w.1 (m.words w.1 .untracked) w.2)
          (if enable then -1 else 1)
      else [] := by
  rw [changeRegionState, Nat.add_sub_cancel_left]
  simp only [sweep_snd (iterateWords_nodup hsize hend)]
  cases tracked type with
  | true => simp [flatMap_def]
  | false => simp [applyCollectedRanges]

lemma changeRegionState_balanced {type : PageType} (htype : type ≠ .untracked) (enable : Bool) :
    Balanced base m (m.changeRegionState type enable (m.cpuAddr + offset) size).1
      (m.changeRegionState type enable (m.cpuAddr + offset) size).2 := by
  have hpage := changeRegionState_page m hsize hend htype enable
  rw [changeRegionState_batches hsize hend]
  cases htracked : tracked type with
  | true =>
    refine balanced_of_touched hbase hsize hend _ fun q => ?_
    rw [hpage]
    by_cases hq : Touches offset size q
    · cases enable <;> cases hbit : m.page q .untracked <;>
        simp [hq, hbit, level, Page.change, htracked]
    · simp [hq]
  | false =>
    refine Balanced.of_level_eq fun q => ?_
    rw [hpage]
    split
    · simp [level, Page.change, htracked, htype]
    · rfl

lemma forEachModifiedRange_balanced {type : PageType} (htype : type ≠ .untracked) (clear : Bool) :
    Balanced base m (m.forEachModifiedRange type clear (m.cpuAddr + offset) size).1
      (m.forEachModifiedRange type clear (m.cpuAddr + offset) size).2.2 := by
  have hpage := forEachModifiedRange_page m hsize hend htype clear
  rw [forEachModifiedRange_snd m hsize hend]
  cases htracked : clear && tracked type with
  | true =>
    obtain ⟨rfl, htype'⟩ := Bool.and_eq_true_iff.1 htracked
    have hgpu : type ≠ .gpu := fun h => by simp [h, tracked] at htype'
    simp only [if_true, foldl_append_eq_append, nil_append, ← flatMap_def, pageMask, if_neg hgpu]
    refine balanced_of_touched hbase hsize hend true fun q => ?_
    rw [hpage]
    by_cases hq : Touches offset size q
    · cases hbit : m.page q .untracked <;>
        simp [hq, hbit, level, Page.take, Page.change, htype', hgpu]
    · simp [hq]
  | false =>
    have hnone : ∀ ranges : List (Nat × Nat), (iterateWords offset size).foldl
        (fun ranges _ => ranges) ranges = ranges := fun ranges => by simp
    simp only [Bool.false_eq_true, if_false, hnone]
    refine Balanced.of_level_eq fun q => ?_
    rw [hpage]
    split <;> rename_i hq
    · rw [hq.1, Bool.true_and] at htracked
      rw [Page.take]
      split
      · rfl
      · simp [level, Page.change, htracked, htype]
    · rfl

end

/-- A flush tells the device tracker about the cached pages that are tracked. -/
lemma flushCachedWrites_balanced :
    Balanced base m m.flushCachedWrites.1 m.flushCachedWrites.2 := by
  let words := (List.range numWords).map fun i => (i, m.words i .cachedCpu)
  let changed := words.map fun w => (w.1, ~~~m.words w.1 .untracked &&& w.2)
  have hbatches : m.flushCachedWrites.2 = applyCollectedRanges
      ((wordRuns changed).map (place (base * bytesPerPage) bytesPerPage)) (-1) := by
    have hnodup : ((List.range numWords).map id).Nodup := by
      rw [map_id]
      exact nodup_range
    have hcollect := map_collectChangedRanges m false words fun i => m.words i .untracked
    simp only [words, flatMap_map, Bool.false_eq_true, if_false] at hcollect
    simp only [flushCachedWrites, sweep_snd hnodup, foldl_append_eq_append, nil_append,
      ← flatMap_def, id, hcollect, hbase, changed, words]
  have hsorted : Runs.Ascending (wordRuns changed) := by
    refine ascending_wordRuns (pairwise_map.2 (pairwise_map.2 ?_))
    exact pairwise_lt_range
  have hcovered : ∀ q, Runs.Covered (wordRuns changed) q ↔ q < numWords * pagesPerWord ∧
      m.page q .untracked = false ∧ m.page q .cachedCpu = true := fun q => by
    have hlt : q % pagesPerWord < 64 := Nat.mod_lt q (by decide)
    have hword : q / pagesPerWord < numWords ↔ q < numWords * pagesPerWord :=
      Nat.div_lt_iff_lt_mul (by decide)
    rw [covered_wordRuns, ← hword]
    simp [changed, words, page, columnPage, hlt]
  intro p
  rw [hbatches, counted_applyCollectedRanges hsorted]
  by_cases hp : base ≤ p ∧ p < base + numWords * pagesPerWord
  · have hq : p - base < numWords * pagesPerWord := by omega
    rw [if_pos hp, flushCachedWrites_page m hq]
    simp only [hp.1, true_and, hcovered, hq]
    cases huntracked : m.page (p - base) .untracked <;>
      cases hcached : m.page (p - base) .cachedCpu <;>
      simp [level, Page.flush, huntracked, hcached]
  · rw [if_neg hp, if_neg]
    rintro ⟨hle, hq⟩
    have := ((hcovered _).1 hq).1
    omega

end
end Drippu.VideoCore.WordManager
