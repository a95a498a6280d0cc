import Drippu.VideoCore.MemoryTrackerAnswers

/-!
# Video core - The memory tracker refines its pages

What a memory tracker is for can be said without its managers and words: there is a state
for every page, an operation acts on the pages that it reaches, and a query looks at the
modified pages of its range.

Main results:

- Theorem `refines_pages`: the same for every run, and a write of the CPU lasts until
  it is unmarked or uploaded.
- Theorem `counted_updates`: the device tracker counts the tracked pages once.
-/

namespace Drippu.VideoCore.MemoryTracker

open Library WordManager Page
open List hiding take

/-! ## The operations on pages -/

/-- What an operation does to a page that it reaches. -/
def Op.action : Op → Page → Page
  | .markRegionAsCpuModified => change .cpu true
  | .unmarkRegionAsCpuModified => change .cpu false
  | .markRegionAsGpuModified => change .gpu true
  | .markRegionAsPreflushable => change .preflushable true
  | .unmarkRegionAsGpuModified => change .gpu false
  | .unmarkRegionAsPreflushable => change .preflushable false
  | .cachedCpuWrite => change .cachedCpu true
  | .flushCachedWritesIn | .flushCachedWrites => flush
  | .forEachUploadRange => take .cpu
  | .forEachDownloadRange true | .forEachDownloadRangeAndClear => take .gpu
  | _ => id

/-- The pages that an operation reaches.  A flush of a range reaches the whole regions of
its pages. -/
def Op.Reaches (addr size : Nat) : Op → Nat → Prop
  | .flushCachedWrites, _ => True
  | .flushCachedWritesIn, p => ∃ q, Touches addr size q ∧ q / pagesPerRegion = p / pagesPerRegion
  | _, p => Touches addr size p

/-- The pages before and after an operation. -/
def Op.Step (op : Op) (addr size : Nat) (pages pages' : Nat → Page) : Prop :=
  ∀ p, (op.Reaches addr size p → pages' p = op.action (pages p)) ∧
    (¬ op.Reaches addr size p → pages' p = pages p)

/-- The modified pages of a range. -/
def Modified (pages : Nat → Page) (addr size : Nat) (type : PageType) (p : Nat) : Prop :=
  Touches addr size p ∧ (pages p).modified type = true

/-- The answer says whether there are pages. -/
def AnswersFlag (S : Nat → Prop) (a : Answer) : Prop :=
  ∃ b, a = .flag b ∧ (b = true ↔ ∃ p, S p)

/-- The answer is the hull of the pages in bytes. -/
def AnswersHull (S : Nat → Prop) (a : Answer) : Prop :=
  ((∀ p, ¬ S p) ∧ a = .region 0 0) ∨
    ∃ lo hi, Runs.IsHull S lo hi ∧ a = .region (lo * bytesPerPage) ((hi + 1) * bytesPerPage)

/-- The answer is the runs of the pages in bytes. -/
def AnswersRuns (S : Nat → Prop) (a : Answer) : Prop :=
  ∃ runs, a = .ranges (runs.map (Runs.place 0 bytesPerPage)) ∧ RegionRuns S runs

/-- What an operation answers. -/
def Op.Answers (pages : Nat → Page) (addr size : Nat) : Op → Answer → Prop
  | .modifiedCpuRegion => AnswersHull (Modified pages addr size .cpu)
  | .modifiedGpuRegion => AnswersHull (Modified pages addr size .gpu)
  | .isRegionCpuModified => AnswersFlag (Modified pages addr size .cpu)
  | .isRegionGpuModified => AnswersFlag (Modified pages addr size .gpu)
  | .isRegionPreflushable => AnswersFlag (Modified pages addr size .preflushable)
  | .forEachUploadRange => AnswersRuns (Modified pages addr size .cpu)
  | .forEachDownloadRange _ | .forEachDownloadRangeAndClear =>
    AnswersRuns (Modified pages addr size .gpu)
  | _ => fun a => a = .nothing

/-! ## One operation -/

/-- The regions with cached writes are remembered, once each. -/
structure Invariant (t : MemoryTracker) : Prop where
  sound : Sound t
  nodup : t.cachedPages.Nodup
  created : ∀ i ∈ t.cachedPages, t.topTier i ≠ none
  cached : ∀ p, t.page p .cachedCpu = true → p / pagesPerRegion ∈ t.cachedPages

lemma invariant_empty : Invariant empty where
  sound := ⟨nofun, fun p => rfl, fun batches hbatches p => by
    rw [prefix_nil.1 hbatches]
    exact ⟨le_rfl, Int.zero_le_ofNat 1, fun _ => rfl⟩⟩
  nodup := nodup_nil
  created := nofun
  cached p hp := by cases hp

/-- An operation acts and answers as the pages say. -/
structure Refines (t : MemoryTracker) (addr size : Nat) (op : Op) (r : MemoryTracker × Answer) :
    Prop where
  invariant : Invariant r.1
  step : op.Step addr size t.page r.1.page
  answers : op.Answers t.page addr size r.2

variable {t t' : MemoryTracker}

lemma Acts.invariant {create : Bool} {rs : List Region} {Q : Nat → Nat → Nat → Prop}
    {g : Page → Page} (h : Acts create rs Q g t t') (ht : Invariant t)
    (hg : ∀ pg : Page, g pg .cachedCpu = true → pg .cachedCpu = true) : Invariant t' where
  sound := h.sound
  nodup := h.cachedPages ▸ ht.nodup
  created i hi := h.kept i (ht.created i (h.cachedPages ▸ hi))
  cached p hp := by
    rw [h.cachedPages]
    by_cases hhit : Hit Q rs p
    · exact ht.cached p (hg _ (h.hit p hhit ▸ hp))
    · exact ht.cached p (h.miss p hhit ▸ hp)

variable {op : Op}

lemma Acts.step {create : Bool} {rs : List Region} {Q : Nat → Nat → Nat → Prop}
    {addr size : Nat} (h : Acts create rs Q op.action t t')
    (hreaches : ∀ p, op.Reaches addr size p ↔ Hit Q rs p) : op.Step addr size t.page t'.page :=
  fun p => ⟨fun hp => h.hit p ((hreaches p).1 hp),
    fun hp => h.miss p fun hhit => hp ((hreaches p).2 hhit)⟩

lemma Same.invariant (h : Same t t') (ht : Invariant t) : Invariant t' where
  sound := h.sound
  nodup := h.cachedPages ▸ ht.nodup
  created i hi := h.kept i (ht.created i (h.cachedPages ▸ hi))
  cached p hp := by
    rw [h.cachedPages]
    exact ht.cached p (h.page p ▸ hp)

lemma Same.step (h : Same t t') (hop : op.action = id) (addr size : Nat) :
    op.Step addr size t.page t'.page := by
  intro p
  rw [h.page, hop]
  exact ⟨fun _ => rfl, fun _ => rfl⟩

variable {type : PageType}

lemma change_cached (htype : type ≠ .cachedCpu) (enable : Bool) (pg : Page)
    (h : pg.change type enable .cachedCpu = true) : pg .cachedCpu = true := by
  simp only [change, if_neg htype] at h
  split at h
  · simp only [Bool.and_eq_true] at h
    exact h.1.1
  · exact h

lemma take_cached (htype : type ≠ .cachedCpu) (pg : Page) (h : pg.take type .cachedCpu = true) :
    pg .cachedCpu = true := by
  rw [take] at h
  split at h
  · exact h
  · exact change_cached htype false pg h

section
variable {t : MemoryTracker} {addr size : Nat} (hend : addr + size ≤ 2 ^ maxCpuPageBits)
include hend

variable {type : PageType}

lemma changeRegions_acts (h : Sound t) (htype : type ≠ .untracked) (enable : Bool) :
    Acts true (regions addr size) Touches (change type enable) t
      (t.changeRegions addr size type enable) :=
  foldl_visitRegion_acts (changeVisit_pageVisit htype enable) (.inl rfl) (regions_nodup addr size)
    (fun _ hr => mem_regions hend hr) h []

variable {op : Op}

lemma changeRegions_refines (h : Invariant t) (htype : type ≠ .untracked)
    (hcached : type ≠ .cachedCpu) (enable : Bool) (haction : op.action = change type enable)
    (hreaches : ∀ p, op.Reaches addr size p ↔ Touches addr size p)
    (hanswers : op.Answers t.page addr size .nothing) :
    Refines t addr size op (t.changeRegions addr size type enable, .nothing) := by
  have hacts := changeRegions_acts hend h.sound htype enable
  refine ⟨hacts.invariant h (change_cached hcached enable), ?_, hanswers⟩
  rw [← haction] at hacts
  exact hacts.step fun p => (hreaches p).trans (exists_region_iff addr size p).symm

omit hend in
lemma mem_foldl_insert (rs : List Region) (pages : List Nat) (i : Nat) :
    i ∈ rs.foldl (fun pages r => pages.insert r.index) pages ↔
      i ∈ pages ∨ ∃ r ∈ rs, i = r.index := by
  induction rs generalizing pages with
  | nil => simp
  | cons r rs ih =>
    rw [foldl_cons, ih, mem_insert_iff]
    simp only [mem_cons, exists_eq_or_imp]
    tauto

omit hend in
lemma nodup_foldl_insert (rs : List Region) {pages : List Nat} (h : pages.Nodup) :
    (rs.foldl (fun pages r => pages.insert r.index) pages).Nodup := by
  induction rs generalizing pages with
  | nil => exact h
  | cons r rs ih => exact ih h.insert

lemma cachedCpuWrite_refines (h : Invariant t) :
    Refines t addr size .cachedCpuWrite (t.cachedCpuWrite addr size, .nothing) := by
  have hacts : Acts true (regions addr size) Touches (Op.action .cachedCpuWrite) t _ :=
    changeRegions_acts hend h.sound (by decide) true
  refine ⟨⟨⟨hacts.sound.addr, hacts.sound.balance, hacts.sound.calls⟩, nodup_foldl_insert _ ?_,
    fun i hi => ?_, fun p hp => ?_⟩,
    hacts.step fun p => (exists_region_iff addr size p).symm, rfl⟩
  · rw [hacts.cachedPages]
    exact h.nodup
  · rcases (mem_foldl_insert _ _ i).1 hi with hi | ⟨r, hr, rfl⟩
    · rw [hacts.cachedPages] at hi
      exact hacts.kept i (h.created i hi)
    · exact hacts.created rfl r hr
  · refine (mem_foldl_insert _ _ _).2 ?_
    by_cases hhit : Hit Touches (regions addr size) p
    · obtain ⟨r, hr, hindex, -⟩ := hhit
      exact .inr ⟨r, hr, hindex⟩
    · refine .inl (hacts.cachedPages ▸ h.cached p ?_)
      rw [← hacts.miss p hhit]
      exact hp

lemma hit_region_iff (p : Nat) :
    (∃ q, Touches addr size q ∧ q / pagesPerRegion = p / pagesPerRegion) ↔
      Hit (fun _ _ _ => True) (regions addr size) p := by
  constructor
  · rintro ⟨q, hq, hindex⟩
    obtain ⟨r, hr, hq, -⟩ := (exists_region_iff addr size q).2 hq
    exact ⟨r, hr, hindex ▸ hq, trivial⟩
  rintro ⟨r, hr, hindex, -⟩
  obtain ⟨hin, -⟩ := mem_regions hend hr
  have htouches : Touches r.offset r.size (r.offset / bytesPerPage) := by
    have hsize := hin.1
    simp only [Touches, bytesPerPage]
    omega
  obtain ⟨hdiv, hmod⟩ := page_number (i := r.index) (touches_lt hin htouches)
  refine ⟨r.index * pagesPerRegion + r.offset / bytesPerPage,
    (exists_region_iff addr size _).1 ⟨r, hr, hdiv, ?_⟩, hdiv.trans hindex.symm⟩
  rw [hmod]
  exact htouches

omit hend in
lemma flush_eq_self {pg : Page} (h : pg .cachedCpu = false) : pg.flush = pg := by
  funext type
  cases type <;> simp [flush, h]

omit hend in
lemma flush_cached (pg : Page) (h : pg.flush .cachedCpu = true) : pg .cachedCpu = true := by
  cases h

lemma flushCachedWritesIn_refines (h : Invariant t) :
    Refines t addr size .flushCachedWritesIn (t.flushCachedWritesIn addr size, .nothing) := by
  have hacts : Acts false (regions addr size) _ (Op.action .flushCachedWritesIn) t
      (t.flushCachedWritesIn addr size) :=
    foldl_visitRegion_acts flushVisit_pageVisit (.inr (flush_eq_self rfl))
      (regions_nodup addr size) (fun _ hr => ⟨trivial, (mem_regions hend hr).2⟩) h.sound []
  exact ⟨hacts.invariant h flush_cached, hacts.step (hit_region_iff hend), rfl⟩

omit hend in
/-- The flush of everything reaches every cached page, because its region is remembered. -/
lemma flushCachedWrites_refines (h : Invariant t) :
    Refines t addr size .flushCachedWrites (t.flushCachedWrites, .nothing) := by
  have hacts : Acts false (t.cachedPages.map fun i => ⟨i, 0, 0⟩) (fun _ _ _ => True) flush t
      ((t.cachedPages.map fun i => (⟨i, 0, 0⟩ : Region)).foldl (visitRegion false flushVisit)
        (t, [])).1 := by
    refine foldl_visitRegion_acts flushVisit_pageVisit (.inr (flush_eq_self rfl)) ?_
      (fun r hr => ⟨trivial, ?_⟩) h.sound []
    · rw [map_map]
      exact (map_id' t.cachedPages).symm ▸ h.nodup
    · obtain ⟨i, hi, rfl⟩ := mem_map.1 hr
      obtain ⟨m, hm⟩ := Option.ne_none_iff_exists'.1 (h.created i hi)
      exact (h.sound.addr i m hm).2
  have hpage : ∀ p, t.flushCachedWrites.page p = (t.page p).flush := fun p => by
    rw [foldl_map] at hacts
    by_cases hhit : Hit (fun _ _ _ => True) (t.cachedPages.map fun i => ⟨i, 0, 0⟩) p
    · exact hacts.hit p hhit
    · refine (hacts.miss p hhit).trans (flush_eq_self ?_).symm
      refine Bool.eq_false_iff.2 fun hcached => hhit ?_
      exact ⟨_, mem_map_of_mem (h.cached p hcached), rfl, trivial⟩
  rw [foldl_map] at hacts
  refine ⟨⟨⟨hacts.sound.addr, hacts.sound.balance, hacts.sound.calls⟩, nodup_nil, nofun,
    fun p hp => ?_⟩, fun p => ⟨fun _ => hpage p, fun hp => (hp trivial).elim⟩, rfl⟩
  rw [hpage] at hp
  cases hp

omit hend in
lemma found_regions_iff (type : PageType) (p : Nat) :
    Found t type (regions addr size) p ↔ Modified t.page addr size type p :=
  and_congr_left fun _ => exists_region_iff addr size p

variable {create : Bool} (h : Invariant t)
  (hcreate : create = true ∨ initial.modified type = false)
include h hcreate

lemma anyRegion_refines (haction : op.action = id)
    (hanswers : op.Answers t.page addr size = AnswersFlag (Modified t.page addr size type)) :
    Refines t addr size op
      ((anyRegion create (fun m => m.isRegionModified type) t (regions addr size)).2,
        .flag (anyRegion create (fun m => m.isRegionModified type) t (regions addr size)).1) := by
  obtain ⟨hsame, hiff⟩ := anyRegion_spec hcreate h.sound (fun _ hr => mem_regions hend hr)
  refine ⟨hsame.invariant h, hsame.step haction addr size, ?_⟩
  rw [hanswers]
  exact ⟨_, rfl, hiff.trans (exists_congr (found_regions_iff type))⟩

lemma iteratePairs_refines (haction : op.action = id)
    (hanswers : op.Answers t.page addr size = AnswersHull (Modified t.page addr size type)) :
    Refines t addr size op
      ((iteratePairs create (fun m => m.modifiedRegion type) t addr size).2,
        .region (iteratePairs create (fun m => m.modifiedRegion type) t addr size).1.1
          (iteratePairs create (fun m => m.modifiedRegion type) t addr size).1.2) := by
  obtain ⟨hsame, hhull⟩ := foldl_pairRegion hcreate (fun _ hr => mem_regions hend hr) h.sound
    (.inl ⟨fun _ => not_false, rfl⟩ : HoldsHull (fun _ => False) (2 ^ 64 - 1, 0))
  refine ⟨hsame.invariant h, hsame.step haction addr size, ?_⟩
  rw [hanswers]
  simp only [false_or] at hhull
  rcases hhull.congr (found_regions_iff type) with ⟨hnone, heq⟩ | ⟨lo, hi, hhull, heq⟩
  · refine .inl ⟨hnone, ?_⟩
    simp only [iteratePairs, heq]
    rfl
  · refine .inr ⟨lo, hi, hhull, ?_⟩
    have hle := (hhull.bounds lo hhull.lo_mem).2
    simp only [iteratePairs, heq]
    rw [if_pos (by simp only [bytesPerPage]; omega)]

lemma rangesVisit_refines (htype : type ≠ .untracked) (hcached : type ≠ .cachedCpu)
    (htake : create = true ∨ initial.take type = initial) (clear : Bool)
    (haction : op.action = if clear then take type else id)
    (hreaches : ∀ p, op.Reaches addr size p ↔ Touches addr size p)
    (hanswers : op.Answers t.page addr size = AnswersRuns (Modified t.page addr size type)) :
    Refines t addr size op ((iteratePages create (rangesVisit type clear) t addr size).1,
      .ranges (iteratePages create (rangesVisit type clear) t addr size).2) := by
  have hacts : Acts create (regions addr size) _ (take type) t
      (iteratePages create (rangesVisit type clear) t addr size).1 :=
    foldl_visitRegion_acts (rangesVisit_pageVisit htype clear) htake (regions_nodup addr size)
      (fun _ hr => mem_regions hend hr) h.sound []
  refine ⟨hacts.invariant h (take_cached hcached), fun p => ?_, ?_⟩
  · rw [hreaches, haction]
    cases clear with
    | true =>
      have hhit : Hit (fun offset size q => true = true ∧ Touches offset size q)
          (regions addr size) p ↔ Touches addr size p := by
        simp only [true_and]
        exact exists_region_iff addr size p
      exact ⟨fun hp => hacts.hit p (hhit.2 hp), fun hp => hacts.miss p (mt hhit.1 hp)⟩
    | false =>
      have hmiss := hacts.miss p (by simp [Hit])
      exact ⟨fun _ => hmiss, fun _ => hmiss⟩
  · obtain ⟨runs, hranges, hruns⟩ := foldl_rangesVisit hcreate htype htake clear
      (regionsFrom_sorted (offset_lt addr)) (fun _ hr => mem_regions hend hr) h.sound []
    rw [hanswers]
    exact ⟨runs, congrArg Answer.ranges hranges, hruns.congr (found_regions_iff type)⟩

omit hcreate in
lemma exec_refines (op : Op) : Refines t addr size op (t.exec addr size op) := by
  cases op with
  | modifiedCpuRegion => exact iteratePairs_refines hend h (.inl rfl) rfl rfl
  | modifiedGpuRegion => exact iteratePairs_refines hend h (.inr rfl) rfl rfl
  | isRegionCpuModified => exact anyRegion_refines hend h (.inl rfl) rfl rfl
  | isRegionGpuModified | isRegionPreflushable => exact anyRegion_refines hend h (.inr rfl) rfl rfl
  | markRegionAsCpuModified | unmarkRegionAsCpuModified | markRegionAsGpuModified
  | markRegionAsPreflushable | unmarkRegionAsGpuModified | unmarkRegionAsPreflushable =>
    exact changeRegions_refines hend h (by decide) (by decide) _ rfl (fun _ => Iff.rfl) rfl
  | cachedCpuWrite => exact cachedCpuWrite_refines hend h
  | flushCachedWritesIn => exact flushCachedWritesIn_refines hend h
  | flushCachedWrites => exact flushCachedWrites_refines h
  | forEachUploadRange =>
    exact rangesVisit_refines hend h (.inl rfl) (by decide) (by decide) (.inl rfl) true rfl
      (fun _ => Iff.rfl) rfl
  | forEachDownloadRange clear =>
    refine rangesVisit_refines hend h (.inr rfl) (by decide) (by decide) (.inr rfl) clear ?_
      (fun _ => Iff.rfl) rfl
    cases clear <;> rfl
  | forEachDownloadRangeAndClear =>
    exact rangesVisit_refines hend h (.inr rfl) (by decide) (by decide) (.inr rfl) true rfl
      (fun _ => Iff.rfl) rfl

end

/-! ## Runs -/

lemma reachable_invariant (ht : system.Reachable t) : Invariant t := by
  refine ht.invariant (P := Invariant) ?_ ?_
  · rintro t rfl
    exact invariant_empty
  · rintro t t' - h ⟨addr, size, op, hend, rfl⟩
    exact (exec_refines hend h op).invariant

/-- The CPU wrote a page. -/
def Written (pg : Page) : Prop :=
  pg .cpu = true ∨ pg .cachedCpu = true

/-- The operations that take back what the CPU wrote. -/
def Op.takesWrites : Op → Bool
  | .unmarkRegionAsCpuModified | .forEachUploadRange => true
  | _ => false

/-- A step that does not take the writes of a page. -/
def LeavesWrites (p : Nat) (t t' : MemoryTracker) : Prop :=
  ∃ addr size op, addr + size ≤ 2 ^ maxCpuPageBits ∧ (t.exec addr size op).1 = t' ∧
    ¬ (op.takesWrites = true ∧ Touches addr size p)

variable {pg : Page}

section
variable (h : Written pg)
include h

lemma change_written {enable : Bool} (htype : type = .gpu ∨ type = .preflushable ∨ enable = true) :
    Written (pg.change type enable) := by
  rcases htype with rfl | rfl | rfl
  · exact h
  · exact h
  · cases type with
    | cpu => exact .inl rfl
    | cachedCpu => exact .inr rfl
    | _ => exact h

lemma take_written : Written (pg.take .gpu) := by
  rw [take]
  split
  · exact h
  · exact change_written h (.inl rfl)

lemma flush_written : Written pg.flush := by
  simpa [Written, flush] using h

lemma action_written (hop : op.takesWrites = false) : Written (op.action pg) := by
  cases op with
  | unmarkRegionAsCpuModified | forEachUploadRange => cases hop
  | modifiedCpuRegion | modifiedGpuRegion | isRegionCpuModified | isRegionGpuModified
  | isRegionPreflushable => exact h
  | markRegionAsCpuModified | cachedCpuWrite => exact change_written h (.inr (.inr rfl))
  | markRegionAsGpuModified | unmarkRegionAsGpuModified => exact change_written h (.inl rfl)
  | markRegionAsPreflushable | unmarkRegionAsPreflushable =>
    exact change_written h (.inr (.inl rfl))
  | flushCachedWritesIn | flushCachedWrites => exact flush_written h
  | forEachDownloadRange clear =>
    cases clear with
    | true => exact take_written h
    | false => exact h
  | forEachDownloadRangeAndClear => exact take_written h

end

lemma leavesWrites_written {p : Nat} (ht : Invariant t) (h : Written (t.page p))
    (hstep : LeavesWrites p t t') : Invariant t' ∧ Written (t'.page p) := by
  obtain ⟨addr, size, op, hend, rfl, hop⟩ := hstep
  have hrefines := exec_refines hend ht op
  refine ⟨hrefines.invariant, ?_⟩
  by_cases hreaches : op.Reaches addr size p
  · rw [(hrefines.step p).1 hreaches]
    cases htakes : op.takesWrites with
    | false => exact action_written h htakes
    | true =>
      refine (hop ⟨htakes, ?_⟩).elim
      cases op <;> first | exact hreaches | cases htakes
  · rw [(hrefines.step p).2 hreaches]
    exact h

lemma run_written {p : Nat} (ht : Invariant t) (h : Written (t.page p))
    (hrun : Relation.ReflTransGen (LeavesWrites p) t t') : Invariant t' ∧ Written (t'.page p) := by
  induction hrun with
  | refl => exact ⟨ht, h⟩
  | tail _ hstep ih => exact leavesWrites_written ih.1 ih.2 hstep

/-- In every run an operation acts on the pages that it reaches and answers from the modified
pages of its range.  What the CPU writes stays written until it is unmarked or uploaded. -/
theorem refines_pages {t : MemoryTracker} (ht : system.Reachable t) {addr size : Nat}
    (hend : addr + size ≤ 2 ^ maxCpuPageBits) (op : Op) :
    op.Step addr size t.page (t.exec addr size op).1.page ∧
      op.Answers t.page addr size (t.exec addr size op).2 ∧
      ((op = .markRegionAsCpuModified ∨ op = .cachedCpuWrite) → ∀ p, Touches addr size p →
        ∀ t', Relation.ReflTransGen (LeavesWrites p) (t.exec addr size op).1 t' →
          Written (t'.page p)) := by
  have hrefines := exec_refines hend (reachable_invariant ht) op
  refine ⟨hrefines.step, hrefines.answers, fun hop p hp t' hrun => ?_⟩
  refine (run_written hrefines.invariant ?_ hrun).2
  rcases hop with rfl | rfl
  · rw [(hrefines.step p).1 hp]
    exact .inl rfl
  · rw [(hrefines.step p).1 hp]
    exact .inr rfl

/-- A write of two pages of two regions in a new tracker. -/
theorem refines_pages_write :
    Op.Step .cachedCpuWrite 0x3ff000 0x2000 empty.page
      (empty.exec 0x3ff000 0x2000 .cachedCpuWrite).1.page :=
  (refines_pages (TransitionSystem.Reachable.start rfl) (by decide) .cachedCpuWrite).1

/-- A page of a new tracker that the GPU modifies is not reported as modified: the bit is set,
but the page is not tracked. -/
theorem gpu_modified_untracked :
    (empty.markRegionAsGpuModified 0 1).page 0 .gpu = true ∧
      ((empty.markRegionAsGpuModified 0 1).isRegionGpuModified 0 1).1 = false := by
  decide

/-- The device tracker counts a page once when it is tracked, and otherwise not at all.  Its
counts are in their bounds after every call, and pages beyond the address space are never
counted. -/
theorem counted_updates {t : MemoryTracker} (ht : system.Reachable t) (p : Nat) :
    counted t.updates p = (if t.page p .untracked then 0 else 1) ∧
      ∀ batches, batches <+: t.updates →
        0 ≤ counted batches p ∧ counted batches p ≤ 1 ∧
          (numHighPages * pagesPerRegion ≤ p → counted batches p = 0) := by
  have hsound := (reachable_invariant ht).sound
  exact ⟨hsound.balance p, fun batches hbatches => hsound.calls batches hbatches p⟩

/-- A page that was unmarked is tracked and counted. -/
theorem counted_updates_unmark : counted (empty.unmarkRegionAsCpuModified 0 1).updates 0 = 1 :=
  (counted_updates (t := empty.unmarkRegionAsCpuModified 0 1)
    (.next (.start rfl) ⟨0, 1, .unmarkRegionAsCpuModified, by decide, rfl⟩) 0).1.trans (by decide)

end Drippu.VideoCore.MemoryTracker
