import Drippu.VideoCore.WordManagerMasks

/-!
# Video core - The pages of a word manager

Every operation of a word manager acts on the pages that its range touches one by one.  The
state of a page is its bit of each type.
-/

namespace Drippu.VideoCore

open Library List BitVec Runs

/-! ## Pages -/

/-- The bits of a page. -/
abbrev Page := PageType → Bool

namespace Page

open WordManager

/-- A page of a new manager. -/
def initial : Page
  | .cpu | .untracked => true
  | _ => false

/-- A bit is set or cleared.  Modifications by the CPU stop the tracking, and take over from
cached writes. -/
def change (type : PageType) (enable : Bool) (p : Page) : Page
  | .cachedCpu =>
    if type = .cachedCpu then enable
    else if type = .cpu then p .cachedCpu && !enable && !p .cpu
    else p .cachedCpu
  | .untracked => if type = .untracked ∨ tracked type then enable else p .untracked
  | t => if t = type then enable else p t

/-- Cached writes become modifications by the CPU. -/
def flush (p : Page) : Page
  | .untracked => p .untracked || p .cachedCpu
  | .cpu => p .cpu || p .cachedCpu
  | .cachedCpu => false
  | t => p t

/-- A page counts as modified.  A page that is modified by the GPU has to be tracked. -/
def modified (type : PageType) (p : Page) : Bool :=
  p type && !(decide (type = .gpu) && p .untracked)

/-- A modified page is taken. -/
def take (type : PageType) (p : Page) : Page :=
  if type = .gpu ∧ p .untracked = true then p else p.change type false

end Page

namespace WordManager

/-- The bits of a page in the words of an index. -/
def columnPage (c : Column) (b : Nat) : Page := fun t => (c t).getLsbD b

/-- The bits of a page of a manager. -/
def page (m : WordManager) (q : Nat) : Page :=
  columnPage (m.words (q / pagesPerWord)) (q % pagesPerWord)

lemma new_page (cpuAddr q : Nat) : (new cpuAddr).page q = Page.initial := by
  have hones : ∀ i, (if i = numWords - 1 then lastWord else allOnes 64) =
      allOnes 64 := fun i => by
    rw [show lastWord = allOnes 64 by decide, ite_self]
  have hbit : (allOnes 64).getLsbD (q % pagesPerWord) = true := by
    rw [getLsbD_allOnes]
    exact decide_eq_true (Nat.mod_lt _ (by decide))
  funext t
  cases t <;> simp only [page, columnPage, new, Page.initial, hones, hbit, getLsbD_zero]

/-! ## Words -/

section
variable {mask : BitVec 64} {c : Column} {b : Nat} (hb : b < 64)
include hb

lemma columnPage_changeColumn (type : PageType) (htype : type ≠ .untracked) (enable : Bool) :
    columnPage (changeColumn type enable mask c) b =
      if mask.getLsbD b then (columnPage c b).change type enable else columnPage c b := by
  funext t
  cases type <;> cases enable <;> cases t <;> cases hmask : mask.getLsbD b <;>
    simp_all [columnPage, changeColumn, Page.change, tracked]

lemma columnPage_clearColumn (type : PageType) (htype : type ≠ .untracked) :
    columnPage (clearColumn type (pageMask type mask c) c) b =
      if mask.getLsbD b then (columnPage c b).take type else columnPage c b := by
  funext t
  cases type <;> cases t <;> cases hmask : mask.getLsbD b <;>
    cases htracked : (c .untracked).getLsbD b <;>
    simp_all [columnPage, clearColumn, pageMask, Page.change, Page.take, tracked]

omit hb in
lemma columnPage_flushColumn : columnPage (flushColumn c) b = (columnPage c b).flush := by
  funext t
  cases t <;> simp [columnPage, flushColumn, Page.flush]

lemma getLsbD_modified (type : PageType) :
    (c type &&& pageMask type mask c).getLsbD b =
      (mask.getLsbD b && (columnPage c b).modified type) := by
  cases type <;> simp [pageMask, Page.modified, columnPage, hb, Bool.and_comm, Bool.and_left_comm]

end

/-! ## Sweeps over the words of a range -/

variable (m : WordManager) {offset size : Nat} (hsize : 0 < size)
  (hend : offset + size ≤ sizeBytes)

section
include hsize hend

lemma iterateWords_sorted : (iterateWords offset size).Pairwise fun v w => v.1 < w.1 := by
  rw [iterateWords_eq hsize hend]
  exact pairwise_map.2 pairwise_lt_range'

lemma iterateWords_nodup : ((iterateWords offset size).map Prod.fst).Nodup := by
  refine pairwise_map.2 ((iterateWords_sorted hsize hend).imp fun hlt => ?_)
  exact ne_of_lt hlt

/-- The word of a touched page is visited, with the mask of the touched pages. -/
lemma mem_iterateWords {w : Nat × BitVec 64} (hw : w ∈ iterateWords offset size) :
    w.2 = touchedMask offset size w.1 := by
  rw [iterateWords_eq hsize hend] at hw
  obtain ⟨j, -, rfl⟩ := mem_map.1 hw
  rfl

lemma iterateWords_of_touches {q : Nat} (hq : Touches offset size q) :
    (q / pagesPerWord, touchedMask offset size (q / pagesPerWord)) ∈ iterateWords offset size := by
  rw [iterateWords_eq hsize hend]
  refine mem_map.2 ⟨q / pagesPerWord, mem_range'_1.2 ?_, rfl⟩
  simp only [Touches, touchedWords, bytesPerWord, bytesPerPage, pagesPerWord, sizeBytes] at *
  omega

omit hend in
lemma getLsbD_touchedMask_mod (q : Nat) :
    (touchedMask offset size (q / pagesPerWord)).getLsbD (q % pagesPerWord) =
      decide (Touches offset size q) := by
  have hlt : q % pagesPerWord < 64 := Nat.mod_lt q (by decide)
  rw [getLsbD_touchedMask hsize _ hlt, Nat.div_add_mod']

/-- A sweep that acts on the masked pages of each word acts on the touched pages. -/
lemma sweep_page {β : Type} {write : BitVec 64 → Column → Column} {f : Page → Page}
    (hwrite : ∀ mask c b, b < 64 → columnPage (write mask c) b =
      if mask.getLsbD b then f (columnPage c b) else columnPage c b)
    (collect : Nat × BitVec 64 → Column → β → β) (m : WordManager) (acc : β) (q : Nat) :
    columnPage ((sweep Prod.fst (fun w c => write w.2 c) collect (iterateWords offset size)
        m.words acc).1 (q / pagesPerWord)) (q % pagesPerWord) =
      if Touches offset size q then f (m.page q) else m.page q := by
  have hlt : q % pagesPerWord < 64 := Nat.mod_lt q (by decide)
  by_cases hword : ∃ w ∈ iterateWords offset size, w.1 = q / pagesPerWord
  · obtain ⟨w, hw, hindex⟩ := hword
    have hcell : (sweep Prod.fst (fun w c => write w.2 c) collect (iterateWords offset size)
        m.words acc).1 w.1 = write w.2 (m.words w.1) :=
      sweep_fst_of_mem (iterateWords_nodup hsize hend) hw
    rw [← hindex, hcell, hwrite _ _ _ hlt, mem_iterateWords hsize hend hw, hindex,
      getLsbD_touchedMask_mod hsize]
    simp [page]
  -- a word that is not visited has no touched page
  have hcell : (sweep Prod.fst (fun w c => write w.2 c) collect (iterateWords offset size)
      m.words acc).1 (q / pagesPerWord) = m.words (q / pagesPerWord) :=
    sweep_fst_of_not_mem fun w hw hindex => hword ⟨w, hw, hindex⟩
  have hq : ¬ Touches offset size q := fun hq =>
    hword ⟨_, iterateWords_of_touches hsize hend hq, rfl⟩
  rw [hcell, if_neg hq, page]

lemma covered_touched (word : Nat → BitVec 64 → BitVec 64) {P : Nat → Bool}
    (hword : ∀ q mask, (word (q / pagesPerWord) mask).getLsbD (q % pagesPerWord) =
      (mask.getLsbD (q % pagesPerWord) && P q)) (q : Nat) :
    Runs.Covered (wordRuns ((iterateWords offset size).map fun w => (w.1, word w.1 w.2))) q ↔
      Touches offset size q ∧ P q = true := by
  rw [covered_wordRuns]
  constructor
  · rintro ⟨v, hv, hindex, hbit⟩
    obtain ⟨w, hw, rfl⟩ := mem_map.1 hv
    rw [mem_iterateWords hsize hend hw, ← hindex, hword, Bool.and_eq_true,
      getLsbD_touchedMask_mod hsize, decide_eq_true_eq] at hbit
    exact hbit
  · rintro ⟨hq, hP⟩
    refine ⟨_, mem_map_of_mem (iterateWords_of_touches hsize hend hq), rfl, ?_⟩
    rw [hword, Bool.and_eq_true, getLsbD_touchedMask_mod hsize, decide_eq_true_eq]
    exact ⟨hq, hP⟩

lemma ascending_touched (word : Nat → BitVec 64 → BitVec 64) :
    Runs.Ascending (wordRuns ((iterateWords offset size).map fun w => (w.1, word w.1 w.2))) :=
  ascending_wordRuns (pairwise_map.2 (iterateWords_sorted hsize hend))

end

/-! ## Operations -/

section
include hsize hend

lemma changeRegionState_page {type : PageType} (htype : type ≠ .untracked) (enable : Bool)
    (q : Nat) :
    (m.changeRegionState type enable (m.cpuAddr + offset) size).1.page q =
      if Touches offset size q then (m.page q).change type enable else m.page q := by
  rw [changeRegionState, Nat.add_sub_cancel_left]
  exact sweep_page hsize hend (fun mask c b hb => columnPage_changeColumn hb type htype enable)
    _ m _ q

/-- Taking the modified ranges with a clear takes the touched pages. -/
lemma forEachModifiedRange_page {type : PageType} (htype : type ≠ .untracked) (clear : Bool)
    (q : Nat) :
    (m.forEachModifiedRange type clear (m.cpuAddr + offset) size).1.page q =
      if clear = true ∧ Touches offset size q then (m.page q).take type else m.page q := by
  rw [forEachModifiedRange, Nat.add_sub_cancel_left]
  cases clear with
  | true =>
    simp only [if_true, true_and]
    exact sweep_page hsize hend (fun mask c b hb => columnPage_clearColumn hb type htype) _ m _ q
  | false =>
    exact congrArg (fun words : Nat → Column =>
      columnPage (words (q / pagesPerWord)) (q % pagesPerWord)) (sweep_fst_of_keep fun _ _ => rfl)

end

/-! ## Reports -/

/-- The report of the runs of some pages is the report of their maximal runs. -/
lemma releaseAll_foldl (m : WordManager) (runs : List (Nat × Nat)) (r : Reports)
    (hpending : ∀ p ∈ r.pending, p.1 ≤ p.2) :
    m.releaseAll (runs.foldl (m.reportPages 0) r) =
      r.calls ++ (match r.pending with
        | none => coalesce runs
        | some p => coalesceFrom (p.1, p.2 - p.1) runs).map
          (place m.cpuAddr bytesPerPage) := by
  induction runs generalizing r with
  | nil =>
    obtain ⟨pending, calls⟩ := r
    cases pending <;> rfl
  | cons run runs ih =>
    obtain ⟨pending, calls⟩ := r
    rw [foldl_cons]
    cases pending with
    | none =>
      have hstep : m.reportPages 0 ⟨none, calls⟩ run =
          ⟨some (run.1, run.1 + run.2), calls⟩ := by
        simp [reportPages]
      rw [hstep, ih _ (by simp)]
      simp only [Nat.add_sub_cancel_left]
      rfl
    | some p =>
      have hle : p.1 ≤ p.2 := hpending p rfl
      by_cases htouch : p.2 = run.1
      · -- the run extends the pending one
        have hstep : m.reportPages 0 ⟨some p, calls⟩ run =
            ⟨some (p.1, p.2 + run.2), calls⟩ := by
          simp [reportPages, if_pos htouch]
        rw [hstep, ih _ (by simp; omega)]
        simp only [coalesceFrom]
        rw [if_pos (by omega), show p.2 + run.2 - p.1 = p.2 - p.1 + run.2 by omega]
      have hstep : m.reportPages 0 ⟨some p, calls⟩ run =
          ⟨some (run.1, run.1 + run.2), calls ++ [m.release p]⟩ := by
        simp [reportPages, if_neg htouch]
      rw [hstep, ih _ (by simp)]
      simp only [coalesceFrom, Nat.add_sub_cancel_left]
      rw [if_neg (by omega), map_cons, List.append_assoc]
      rfl

lemma foldl_reportPages (m : WordManager) (wordIndex : Nat) (pages : List (Nat × Nat))
    (r : Reports) :
    pages.foldl (m.reportPages (wordIndex * pagesPerWord)) r =
      (pages.map (toPages wordIndex)).foldl (m.reportPages 0) r := by
  rw [foldl_map]
  congr 1
  funext r pages
  simp [reportPages, toPages]

section
variable (type : PageType)
include hsize hend

omit hsize hend in
lemma getLsbD_modified_mod (q : Nat) (mask : BitVec 64) :
    (m.words (q / pagesPerWord) type &&& pageMask type mask (m.words (q / pagesPerWord))).getLsbD
        (q % pagesPerWord) =
      (mask.getLsbD (q % pagesPerWord) && (m.page q).modified type) := by
  have hlt : q % pagesPerWord < 64 := Nat.mod_lt q (by decide)
  exact getLsbD_modified hlt type

/-- The calls of the function and of the device tracker, by themselves. -/
lemma forEachModifiedRange_snd (clear : Bool) :
    (m.forEachModifiedRange type clear (m.cpuAddr + offset) size).2 =
      (m.releaseAll ((iterateWords offset size).foldl (fun r w =>
          (iteratePages (m.words w.1 type &&& pageMask type w.2 (m.words w.1))).foldl
            (m.reportPages (w.1 * pagesPerWord)) r) ⟨none, []⟩),
        applyCollectedRanges ((iterateWords offset size).foldl (fun ranges w =>
          if clear && tracked type then
            ranges ++ m.collectChangedRanges true w.1 (m.words w.1 .untracked)
              (pageMask type w.2 (m.words w.1))
          else ranges) []) 1) := by
  rw [forEachModifiedRange, Nat.add_sub_cancel_left]
  simp only [sweep_snd (iterateWords_nodup hsize hend)]
  rw [foldl_hom₂ _ Prod.mk
    (fun (r : Reports) (w : Nat × BitVec 64) =>
      (iteratePages (m.words w.1 type &&& pageMask type w.2 (m.words w.1))).foldl
        (m.reportPages (w.1 * pagesPerWord)) r)
    (fun ranges w => if clear && tracked type then
        ranges ++ m.collectChangedRanges true w.1 (m.words w.1 .untracked)
          (pageMask type w.2 (m.words w.1))
      else ranges)]
  exact fun _ _ _ => rfl

/-- The modified pages are reported as maximal runs. -/
lemma forEachModifiedRange_calls (clear : Bool) :
    ∃ runs, (m.forEachModifiedRange type clear (m.cpuAddr + offset) size).2.1 =
        runs.map (place m.cpuAddr bytesPerPage) ∧ Runs.Maximal runs ∧
      ∀ q, Runs.Covered runs q ↔ Touches offset size q ∧ (m.page q).modified type = true := by
  let word i mask : BitVec 64 := m.words i type &&& pageMask type mask (m.words i)
  let runs := wordRuns ((iterateWords offset size).map fun w => (w.1, word w.1 w.2))
  refine ⟨coalesce runs, ?_, (ascending_touched hsize hend word).coalesce, fun q => ?_⟩
  · have hfold : (iterateWords offset size).foldl (fun r w => (iteratePages (word w.1 w.2)).foldl
        (m.reportPages (w.1 * pagesPerWord)) r) ⟨none, []⟩ =
          runs.foldl (m.reportPages 0) ⟨none, []⟩ := by
      simp [runs, wordRuns, flatMap_map, foldl_flatMap, foldl_reportPages]
    rw [forEachModifiedRange_snd m hsize hend type clear]
    refine (congrArg m.releaseAll hfold).trans ?_
    rw [releaseAll_foldl m runs ⟨none, []⟩ (by simp)]
    rfl
  · rw [covered_coalesce]
    exact covered_touched hsize hend word (getLsbD_modified_mod m type) q

/-- A region is modified when one of the touched pages is. -/
lemma isRegionModified_iff :
    m.isRegionModified type offset size = true ↔
      ∃ q, Touches offset size q ∧ (m.page q).modified type = true := by
  let word i mask : BitVec 64 := m.words i type &&& pageMask type mask (m.words i)
  have hcovered := covered_touched hsize hend word (getLsbD_modified_mod m type)
  simp only [← hcovered, exists_covered_wordRuns]
  rw [isRegionModified, any_eq_true]
  simp [word]

/-- The modified region is the hull of the modified pages, in bytes. -/
lemma modifiedRegion_spec :
    (m.modifiedRegion type offset size = (0, 0) ∧
        ∀ q, ¬ (Touches offset size q ∧ (m.page q).modified type = true)) ∨
      ∃ lo hi, m.modifiedRegion type offset size = (lo * bytesPerPage, (hi + 1) * bytesPerPage) ∧
        Runs.IsHull (fun q => Touches offset size q ∧ (m.page q).modified type = true) lo hi := by
  let word i mask : BitVec 64 := m.words i type &&& pageMask type mask (m.words i)
  let words := (iterateWords offset size).map fun w => (w.1, word w.1 w.2)
  have hcovered := covered_touched hsize hend word (getLsbD_modified_mod m type)
  have hsorted : words.Pairwise fun v w => v.1 < w.1 :=
    pairwise_map.2 (iterateWords_sorted hsize hend)
  have hsmall : ∀ w ∈ words, w.1 < numWords := by
    intro w hw
    obtain ⟨v, hv, rfl⟩ := mem_map.1 hw
    rw [iterateWords_eq hsize hend] at hv
    obtain ⟨j, hj, rfl⟩ := mem_map.1 hv
    have hj := mem_range'_1.1 hj
    simp only [touchedWords, numWords, pagesPerWord, sizeBytes, bytesPerWord, bytesPerPage]
      at hj hend ⊢
    omega
  have hregion : m.modifiedRegion type offset size =
      if (words.foldl hullStep (2 ^ 64 - 1, 0)).1 < (words.foldl hullStep (2 ^ 64 - 1, 0)).2 then
        ((words.foldl hullStep (2 ^ 64 - 1, 0)).1 * bytesPerPage,
          (words.foldl hullStep (2 ^ 64 - 1, 0)).2 * bytesPerPage)
      else (0, 0) := by
    simp only [words, foldl_map]
    rfl
  rw [hregion]
  rcases foldl_hullStep hsorted hsmall with ⟨heq, hnone⟩ | ⟨lo, hi, heq, hhull⟩
  · rw [heq]
    exact .inl ⟨if_neg (Nat.not_lt_zero _), fun q hq => hnone q ((hcovered q).2 hq)⟩
  · have hle := (hhull.bounds lo hhull.lo_mem).2
    rw [heq, if_pos (by omega)]
    exact .inr ⟨lo, hi, rfl, hhull.congr hcovered⟩

end

/-! ## Flushes -/

lemma flushCachedWrites_page (m : WordManager) {q : Nat} (hq : q < numWords * pagesPerWord) :
    m.flushCachedWrites.1.page q = (m.page q).flush := by
  have hword : q / pagesPerWord ∈ List.range numWords := by
    rw [mem_range, Nat.div_lt_iff_lt_mul (by decide)]
    exact hq
  have hnodup : ((List.range numWords).map id).Nodup := by
    rw [map_id]
    exact nodup_range
  have hcell : ∀ collect : Nat → Column → List (Nat × Nat) → List (Nat × Nat),
      (sweep id (fun _ c => flushColumn c) collect (List.range numWords) m.words []).1
        (q / pagesPerWord) = flushColumn (m.words (q / pagesPerWord)) :=
    fun collect => sweep_fst_of_mem hnodup hword
  rw [page, page, ← columnPage_flushColumn]
  simp [flushCachedWrites, hcell]

end WordManager
end Drippu.VideoCore
