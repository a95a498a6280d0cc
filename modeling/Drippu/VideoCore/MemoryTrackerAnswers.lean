import Drippu.VideoCore.MemoryTrackerPages

/-!
# Video core - What the memory tracker answers

The queries and the reported ranges of a tracker, in terms of its pages.  A query may
create managers, which does not change the pages.
-/

namespace Drippu.VideoCore.MemoryTracker

open Library WordManager List Function

/-! ## Queries -/

/-- A tracker whose pages are the same. -/
structure Same (t t' : MemoryTracker) : Prop where
  sound : Sound t'
  cachedPages : t'.cachedPages = t.cachedPages
  kept : ∀ i, t.topTier i ≠ none → t'.topTier i ≠ none
  page : ∀ p, t'.page p = t.page p

variable {t : MemoryTracker}

lemma Same.refl (h : Sound t) : Same t t :=
  ⟨h, rfl, fun _ hi => hi, fun _ => rfl⟩

lemma Same.trans {t₁ t₂ : MemoryTracker} (h : Same t t₁) (h' : Same t₁ t₂) : Same t t₂ :=
  ⟨h'.sound, h'.cachedPages.trans h.cachedPages, fun i hi => h'.kept i (h.kept i hi),
    fun p => (h'.page p).trans (h.page p)⟩

variable {i : Nat} {m : WordManager}

lemma same_store (h : Sound t) {create : Bool} (hm : getRegion create i (t.topTier i) = some m)
    (hi : i < numHighPages) : Same t (t.store i m []) := by
  have hpage : ∀ p, (t.store i m []).page p = t.page p := fun p => by
    rw [page_store]
    split <;> rename_i hp
    · rw [← hp] at hm
      exact (page_eq hm).symm
    · rfl
  refine ⟨h.extend rfl (Nat.zero_le 1) (fun j m' hm' => ?_) fun p => ?_, rfl, fun j hj => ?_, hpage⟩
  · by_cases hji : j = i
    · subst hji
      simp only [store, update_self, Option.some.injEq] at hm'
      rw [← hm', h.getRegion hm, mul_assoc]
      exact ⟨rfl, hi⟩
    · simp only [store, update_of_ne hji] at hm'
      exact h.addr j m' hm'
  · change counted (t.updates ++ []) p = _
    rw [append_nil, h.balance, hpage]
  · by_cases hji : j = i
    · subst hji
      simp [store]
    · simpa [store, update_of_ne hji] using hj

/-- The pages that a query looks for. -/
def Found (t : MemoryTracker) (type : PageType) (rs : List Region) (p : Nat) : Prop :=
  Hit Touches rs p ∧ (t.page p).modified type = true

lemma Same.found {t' : MemoryTracker} (h : Same t t') (type : PageType) (rs : List Region)
    (p : Nat) : Found t' type rs p ↔ Found t type rs p := by
  rw [Found, Found, h.page]

variable {create : Bool} {type : PageType} {r : Region} {rs : List Region} {p : Nat}
  (hcreate : create = true ∨ Page.initial.modified type = false)

lemma found_cons {r : Region} :
    Found t type (r :: rs) p ↔ Found t type [r] p ∨ Found t type rs p := by
  rw [Found, hit_cons, or_and_right]
  rfl

lemma exists_found_cons {r : Region} :
    (∃ p, Found t type (r :: rs) p) ↔ (∃ p, Found t type [r] p) ∨ ∃ p, Found t type rs p := by
  rw [← exists_or]
  exact exists_congr fun p => found_cons

lemma not_found_nil : ¬ Found t type [] p := by
  simp [Found, Hit]

lemma not_found_of_none (hcreate : create = true ∨ Page.initial.modified type = false)
    (h : getRegion create r.index (t.topTier r.index) = none) (p : Nat) :
    ¬ Found t type [r] p := by
  rintro ⟨⟨_, hr, hp, -⟩, hmodified⟩
  rw [mem_singleton.1 hr] at hp
  cases htop : t.topTier r.index with
  | some m => simp [htop, getRegion] at h
  | none =>
    have hfalse : create = false := by simpa [htop, getRegion] using h
    rw [page, hp, htop, hcreate.resolve_left (by rw [hfalse]; exact Bool.false_ne_true)]
      at hmodified
    cases hmodified

lemma found_singleton_iff (h : getRegion create r.index (t.topTier r.index) = some m) (p : Nat) :
    Found t type [r] p ↔ p / pagesPerRegion = r.index ∧
      Touches r.offset r.size (p % pagesPerRegion) ∧
      (m.page (p % pagesPerRegion)).modified type = true := by
  constructor
  · rintro ⟨⟨_, hr, hp, hq⟩, hmodified⟩
    rw [mem_singleton.1 hr] at hp hq
    rw [← hp] at h
    rw [page_eq h] at hmodified
    exact ⟨hp, hq, hmodified⟩
  · rintro ⟨hp, hq, hmodified⟩
    rw [← hp] at h
    refine ⟨⟨r, by simp, hp, hq⟩, ?_⟩
    rw [page_eq h]
    exact hmodified

lemma touches_lt {offset size q : Nat} (hin : Inside offset size) (hq : Touches offset size q) :
    q < pagesPerRegion := by
  simp only [Inside, Touches, sizeBytes_eq, bytesPerPage, pagesPerRegion_eq] at *
  omega

lemma page_number {q : Nat} (hq : q < pagesPerRegion) :
    (i * pagesPerRegion + q) / pagesPerRegion = i ∧
      (i * pagesPerRegion + q) % pagesPerRegion = q := by
  rw [pagesPerRegion_eq] at *
  omega

lemma isHull_found (hin : Inside r.offset r.size)
    (h : getRegion create r.index (t.topTier r.index) = some m) {lo hi : Nat}
    (hhull : Runs.IsHull (fun q => Touches r.offset r.size q ∧ (m.page q).modified type = true)
      lo hi) :
    Runs.IsHull (Found t type [r]) (r.index * pagesPerRegion + lo)
      (r.index * pagesPerRegion + hi) := by
  have hmem : ∀ q, Touches r.offset r.size q ∧ (m.page q).modified type = true →
      Found t type [r] (r.index * pagesPerRegion + q) := fun q hq => by
    obtain ⟨hdiv, hmod⟩ := page_number (i := r.index) (touches_lt hin hq.1)
    rw [found_singleton_iff h, hmod]
    exact ⟨hdiv, hq⟩
  refine ⟨hmem lo hhull.lo_mem, hmem hi hhull.hi_mem, fun p hp => ?_⟩
  obtain ⟨hdiv, hq⟩ := (found_singleton_iff h p).1 hp
  have hbounds := hhull.bounds _ hq
  have hp := Nat.div_add_mod' p pagesPerRegion
  rw [hdiv] at hp
  omega

section
include hcreate

lemma anyRegion_spec (h : Sound t) {rs : List Region}
    (hok : ∀ r ∈ rs, Inside r.offset r.size ∧ r.index < numHighPages) :
    Same t (anyRegion create (fun m => m.isRegionModified type) t rs).2 ∧
      ((anyRegion create (fun m => m.isRegionModified type) t rs).1 = true ↔
        ∃ p, Found t type rs p) := by
  induction rs generalizing t with
  | nil => exact ⟨Same.refl h, by simp [anyRegion, not_found_nil]⟩
  | cons r rs ih =>
    obtain ⟨⟨hin, hindex⟩, hok⟩ := forall_mem_cons.1 hok
    rw [exists_found_cons, anyRegion]
    cases hregion : getRegion create r.index (t.topTier r.index) with
    | none =>
      obtain ⟨hsame, hiff⟩ := ih h hok
      refine ⟨hsame, hiff.trans ⟨.inr, fun hp => hp.resolve_left ?_⟩⟩
      rintro ⟨p, hp⟩
      exact not_found_of_none hcreate hregion p hp
    | some m =>
      have hstore := same_store h hregion hindex
      have hhere : m.isRegionModified type r.offset r.size = true ↔
          ∃ p, Found t type [r] p := by
        rw [isRegionModified_iff m hin.1 hin.2]
        simp only [found_singleton_iff hregion]
        constructor
        · rintro ⟨q, hq, hmodified⟩
          obtain ⟨hdiv, hmod⟩ := page_number (i := r.index) (touches_lt hin hq)
          refine ⟨r.index * pagesPerRegion + q, hdiv, ?_⟩
          rw [hmod]
          exact ⟨hq, hmodified⟩
        · rintro ⟨p, -, hq, hmodified⟩
          exact ⟨_, hq, hmodified⟩
      rw [← hhere]
      cases hfound : m.isRegionModified type r.offset r.size with
      | true =>
        simp only [hfound, if_true, true_or]
        exact ⟨hstore, trivial⟩
      | false =>
        obtain ⟨hsame, hiff⟩ := ih hstore.sound hok
        simp only [hstore.found] at hiff
        simp only [hfound, Bool.false_eq_true, if_false, false_or]
        exact ⟨hstore.trans hsame, hiff⟩

/-- A pair of byte addresses holds the hull of some pages, or its initial value when there
are none. -/
def HoldsHull (S : Nat → Prop) (r : Nat × Nat) : Prop :=
  ((∀ p, ¬ S p) ∧ r = (2 ^ 64 - 1, 0)) ∨
    ∃ lo hi, Runs.IsHull S lo hi ∧ r = (lo * bytesPerPage, (hi + 1) * bytesPerPage)

variable {S : Nat → Prop}

omit hcreate in
lemma HoldsHull.congr {T : Nat → Prop} {r : Nat × Nat} (h : HoldsHull S r) (hST : ∀ p, S p ↔ T p) :
    HoldsHull T r := by
  rcases h with ⟨hnone, hr⟩ | ⟨lo, hi, hhull, hr⟩
  · exact .inl ⟨fun p hp => hnone p ((hST p).2 hp), hr⟩
  · exact .inr ⟨lo, hi, hhull.congr hST, hr⟩

lemma pairRegion_spec (h : Sound t) {r : Region} (hin : Inside r.offset r.size)
    (hindex : r.index < numHighPages) {pair : Nat × Nat} (hpair : HoldsHull S pair) :
    Same t (pairRegion create (fun m => m.modifiedRegion type) (t, pair) r).1 ∧
      HoldsHull (fun p => S p ∨ Found t type [r] p)
        (pairRegion create (fun m => m.modifiedRegion type) (t, pair) r).2 := by
  rw [pairRegion]
  cases hregion : getRegion create r.index (t.topTier r.index) with
  | none =>
    refine ⟨Same.refl h, hpair.congr fun p => ⟨.inl, fun hp => hp.resolve_right ?_⟩⟩
    exact not_found_of_none hcreate hregion p
  | some m =>
    refine ⟨same_store h hregion hindex, ?_⟩
    simp only
    rcases modifiedRegion_spec m hin.1 hin.2 type with ⟨heq, hnone⟩ | ⟨lo, hi, heq, hhull⟩
    · rw [heq, if_neg (by simp)]
      refine hpair.congr fun p => ⟨.inl, fun hp => hp.resolve_right fun hfound => ?_⟩
      obtain ⟨-, hq⟩ := (found_singleton_iff hregion p).1 hfound
      exact hnone _ hq
    have hfound := isHull_found hin hregion hhull
    have hlo : lo * bytesPerPage + r.index * higherPageSize =
        (r.index * pagesPerRegion + lo) * bytesPerPage := by
      simp only [pagesPerRegion_eq, higherPageSize_eq, bytesPerPage]
      omega
    have hhi : (hi + 1) * bytesPerPage + r.index * higherPageSize =
        (r.index * pagesPerRegion + hi + 1) * bytesPerPage := by
      simp only [pagesPerRegion_eq, higherPageSize_eq, bytesPerPage]
      omega
    rw [heq, if_pos (.inr (by simp [bytesPerPage])), hlo, hhi]
    rcases hpair with ⟨hnone, rfl⟩ | ⟨lo', hi', hhull', rfl⟩
    · refine .inr ⟨_, _, hfound.congr fun p => ⟨.inr, fun hp => hp.resolve_left (hnone p)⟩, ?_⟩
      have hlt := touches_lt hin hhull.lo_mem.1
      simp only [show numHighPages = 4096 from rfl, pagesPerRegion_eq, bytesPerPage] at *
      rw [min_eq_left (by omega), max_eq_left (Nat.zero_le _)]
    · refine .inr ⟨_, _, hhull'.union hfound, ?_⟩
      simp only [pagesPerRegion_eq, bytesPerPage, Prod.mk.injEq]
      omega

/-- The loop over pairs computes the hull of the modified pages. -/
lemma foldl_pairRegion {rs : List Region}
    (hok : ∀ r ∈ rs, Inside r.offset r.size ∧ r.index < numHighPages) (h : Sound t)
    {pair : Nat × Nat} (hpair : HoldsHull S pair) :
    Same t (rs.foldl (pairRegion create fun m => m.modifiedRegion type) (t, pair)).1 ∧
      HoldsHull (fun p => S p ∨ Found t type rs p)
        (rs.foldl (pairRegion create fun m => m.modifiedRegion type) (t, pair)).2 := by
  induction rs generalizing t S pair with
  | nil => exact ⟨Same.refl h, hpair.congr fun p => by simp [not_found_nil]⟩
  | cons r rs ih =>
    obtain ⟨⟨hin, hindex⟩, hok⟩ := forall_mem_cons.1 hok
    obtain ⟨hsame, hstep⟩ := pairRegion_spec hcreate h hin hindex hpair
    obtain ⟨hsame', hrest⟩ := ih hok hsame.sound hstep
    refine ⟨hsame.trans hsame', hrest.congr fun p => ?_⟩
    rw [hsame.found, or_assoc]
    exact or_congr_right found_cons.symm

end

/-! ## Reported ranges -/

/-- Runs of the pages of a set, each inside of a region, that only touch where a region
begins. -/
structure RegionRuns (S : Nat → Prop) (runs : List (Nat × Nat)) : Prop where
  ascending : Runs.Ascending runs
  within : ∀ r ∈ runs, (r.1 + r.2 - 1) / pagesPerRegion = r.1 / pagesPerRegion
  maximal : runs.Pairwise fun r s => r.1 + r.2 = s.1 → s.1 % pagesPerRegion = 0
  covered : ∀ p, Runs.Covered runs p ↔ S p

variable {S : Nat → Prop} {runs : List (Nat × Nat)}

section
variable (h : RegionRuns S runs)
include h

lemma RegionRuns.congr {T : Nat → Prop} (hST : ∀ p, S p ↔ T p) : RegionRuns T runs :=
  { h with covered := fun p => (h.covered p).trans (hST p) }

lemma RegionRuns.start_mem {r : Nat × Nat} (hr : r ∈ runs) : S r.1 :=
  (h.covered r.1).1 ⟨r, hr, le_rfl, Nat.lt_add_of_pos_right (h.ascending.pos r hr)⟩

lemma RegionRuns.append {T : Nat → Prop} {runs' : List (Nat × Nat)} (h' : RegionRuns T runs')
    (hS : ∀ p, S p → p / pagesPerRegion = i) (hT : ∀ p, T p → i < p / pagesPerRegion) :
    RegionRuns (fun p => S p ∨ T p) (runs ++ runs') := by
  have hcross : ∀ r ∈ runs, ∀ s ∈ runs', r.1 + r.2 ≤ (i + 1) * pagesPerRegion ∧
      (i + 1) * pagesPerRegion ≤ s.1 := fun r hr s hs => by
    have hstart := hS _ (h.start_mem hr)
    have hstop := h.within r hr
    have hnext := hT _ (h'.start_mem hs)
    rw [pagesPerRegion_eq] at *
    omega
  refine ⟨h.ascending.append h'.ascending fun r hr s hs => ?_, fun r hr => ?_,
    pairwise_append.2 ⟨h.maximal, h'.maximal, fun r hr s hs heq => ?_⟩, fun p => ?_⟩
  · obtain ⟨hle, hge⟩ := hcross r hr s hs
    exact hle.trans hge
  · exact (mem_append.1 hr).elim (h.within r) (h'.within r)
  · obtain ⟨hle, hge⟩ := hcross r hr s hs
    rw [show s.1 = (i + 1) * pagesPerRegion by omega, Nat.mul_mod_left]
  · rw [Runs.covered_append, h.covered, h'.covered]

end

/-- The maximal runs of the pages of a region, numbered in the tracker. -/
lemma regionRuns_of_maximal (h : Runs.Maximal runs) (hcovered : ∀ q, Runs.Covered runs q ↔ S q)
    (hlt : ∀ q, S q → q < pagesPerRegion) (i : Nat) :
    RegionRuns (fun p => p / pagesPerRegion = i ∧ S (p % pagesPerRegion))
      (runs.map fun r => (i * pagesPerRegion + r.1, r.2)) := by
  have hbound : ∀ r ∈ runs, r.1 + r.2 ≤ pagesPerRegion := fun r hr => by
    have hpos := h.pos r hr
    have hlast := hlt (r.1 + r.2 - 1) ((hcovered _).1 ⟨r, hr, by omega, by omega⟩)
    omega
  refine ⟨⟨fun _ hmem => ?_, ?_⟩, fun _ hmem => ?_, ?_, fun p => ?_⟩
  · obtain ⟨r, hr, rfl⟩ := mem_map.1 hmem
    exact h.pos r hr
  · refine pairwise_map.2 (h.sorted.imp fun hlt => ?_)
    omega
  · obtain ⟨r, hr, rfl⟩ := mem_map.1 hmem
    have hpos := h.pos r hr
    have hle := hbound r hr
    simp only [pagesPerRegion_eq] at hle ⊢
    omega
  · refine pairwise_map.2 (h.sorted.imp fun hlt heq => ?_)
    omega
  · constructor
    · rintro ⟨_, hmem, hp⟩
      obtain ⟨r, hr, rfl⟩ := mem_map.1 hmem
      have hle := hbound r hr
      simp only [Runs.Has, pagesPerRegion_eq] at hp hle ⊢
      refine ⟨by omega, (hcovered _).1 ⟨r, hr, ?_⟩⟩
      simp only [Runs.Has]
      omega
    · rintro ⟨hp, hq⟩
      obtain ⟨r, hr, hrq⟩ := (hcovered _).2 hq
      refine ⟨_, mem_map_of_mem hr, ?_⟩
      simp only [Runs.Has, pagesPerRegion_eq] at hp hrq ⊢
      omega

lemma Found.index (h : Found t type rs p) : ∃ r ∈ rs, p / pagesPerRegion = r.index := by
  obtain ⟨⟨r, hr, hp, -⟩, -⟩ := h
  exact ⟨r, hr, hp⟩

section
include hcreate

lemma visitRegion_ranges (clear : Bool) {t : MemoryTracker} (h : Sound t) {r : Region}
    (hin : Inside r.offset r.size) (ranges : List (Nat × Nat)) :
    ∃ runs, (visitRegion create (rangesVisit type clear) (t, ranges) r).2 =
        ranges ++ runs.map (Runs.place 0 bytesPerPage) ∧ RegionRuns (Found t type [r]) runs := by
  rw [visitRegion]
  cases hregion : getRegion create r.index (t.topTier r.index) with
  | none =>
    refine ⟨[], by simp, .nil, by simp, List.Pairwise.nil, fun p => ?_⟩
    simp [not_found_of_none hcreate hregion p]
  | some m =>
    obtain ⟨runs, hcalls, hmaximal, hcovered⟩ :=
      forEachModifiedRange_calls m hin.1 hin.2 type clear
    refine ⟨runs.map fun q => (r.index * pagesPerRegion + q.1, q.2), ?_,
      (regionRuns_of_maximal hmaximal hcovered (fun q hq => touches_lt hin hq.1) r.index).congr
        fun p => (found_singleton_iff hregion p).symm⟩
    rw [h.getRegion hregion] at hcalls
    simp only [rangesVisit, h.getRegion hregion, hcalls, map_map]
    congr 1
    refine map_congr_left fun q _ => ?_
    simp [Runs.place, add_mul]

/-- A loop reports the modified pages as runs. -/
lemma foldl_rangesVisit (htype : type ≠ .untracked)
    (htake : create = true ∨ Page.initial.take type = Page.initial) (clear : Bool)
    {rs : List Region} (hsorted : rs.Pairwise fun r s => r.index < s.index)
    (hok : ∀ r ∈ rs, Inside r.offset r.size ∧ r.index < numHighPages) {t : MemoryTracker}
    (h : Sound t) (ranges : List (Nat × Nat)) :
    ∃ runs, (rs.foldl (visitRegion create (rangesVisit type clear)) (t, ranges)).2 =
        ranges ++ runs.map (Runs.place 0 bytesPerPage) ∧ RegionRuns (Found t type rs) runs := by
  induction rs generalizing t ranges with
  | nil => exact ⟨[], by simp, ⟨.nil, nofun, List.Pairwise.nil, fun p => by
    simp [not_found_nil]⟩⟩
  | cons r rs ih =>
    obtain ⟨⟨hin, hindex⟩, hok⟩ := forall_mem_cons.1 hok
    obtain ⟨hr, hsorted⟩ := pairwise_cons.1 hsorted
    have hacts := visitRegion_acts (rangesVisit_pageVisit htype clear) htake h ranges hin hindex
    obtain ⟨runs, hranges, hruns⟩ := visitRegion_ranges hcreate clear h hin ranges
    obtain ⟨runs', hranges', hruns'⟩ := ih hsorted hok hacts.sound
      (visitRegion create (rangesVisit type clear) (t, ranges) r).2
    have hlater : ∀ p, Hit Touches rs p → r.index < p / pagesPerRegion := by
      rintro p ⟨s, hs, hp, -⟩
      exact hp ▸ hr s hs
    -- the visit keeps the pages of the later regions
    have hsame : ∀ p, Found (visitRegion create (rangesVisit type clear) (t, ranges) r).1 type rs
        p ↔ Found t type rs p := fun p => by
      refine and_congr_right fun hp => ?_
      rw [hacts.miss p]
      rintro ⟨_, hmem, hp', -⟩
      have := hlater p hp
      rw [mem_singleton.1 hmem] at hp'
      omega
    refine ⟨runs ++ runs', ?_, ((hruns.append (hruns'.congr hsame) (fun p hp => ?_)
      fun p hp => hlater p hp.1)).congr fun p => found_cons.symm⟩
    · rw [foldl_cons, hranges', hranges, map_append, List.append_assoc]
    · obtain ⟨s, hs, hp⟩ := hp.index
      rw [hp, mem_singleton.1 hs]

end
end Drippu.VideoCore.MemoryTracker
