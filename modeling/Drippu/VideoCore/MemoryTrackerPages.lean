import Drippu.VideoCore.MemoryTracker

/-!
# Video core - The pages of the memory tracker

The pages of a tracker are those of its managers; the pages of a region that was not
created are in their initial state.  A visit acts on the pages of its region, and a loop
over the regions of a range of bytes on the pages that the range touches.
-/

namespace Drippu.VideoCore

open Library WordManager List Nat Function Page

def pagesPerRegion : Nat := numWords * pagesPerWord

lemma pagesPerRegion_eq : pagesPerRegion = 1024 := by decide

lemma higherPageSize_eq : higherPageSize = 4194304 := by decide

lemma sizeBytes_eq : sizeBytes = 4194304 := by decide

namespace MemoryTracker

/-! ## Regions -/

/-- A stretch of bytes inside of a region. -/
def Inside (offset size : Nat) : Prop :=
  0 < size ∧ offset + size ≤ sizeBytes

variable {fuel i offset size : Nat} {r : Region}

section
variable (hoffset : offset < higherPageSize)
include hoffset

lemma mem_regionsFrom (hr : r ∈ regionsFrom fuel i offset size) :
    i ≤ r.index ∧ Inside r.offset r.size ∧
      r.index * higherPageSize + r.offset + r.size ≤ i * higherPageSize + offset + size := by
  induction fuel generalizing i offset size with
  | zero => cases hr
  | succ fuel ih =>
    rw [regionsFrom] at hr
    split at hr
    · cases hr
    simp only [Inside, higherPageSize_eq, sizeBytes_eq] at hoffset ih ⊢
    rcases mem_cons.1 hr with rfl | hr
    · simp only [higherPageSize_eq]
      omega
    · obtain ⟨hle, hin, hend⟩ := ih (by omega) hr
      simp only [higherPageSize_eq] at hend
      omega

lemma regionsFrom_sorted :
    (regionsFrom fuel i offset size).Pairwise fun r s => r.index < s.index := by
  induction fuel generalizing i offset size with
  | zero => exact List.Pairwise.nil
  | succ fuel ih =>
    have hzero : 0 < higherPageSize := by decide
    rw [regionsFrom]
    split
    · exact List.Pairwise.nil
    · exact pairwise_cons.2
        ⟨fun r hr => lt_of_succ_le (mem_regionsFrom hzero hr).1, ih hzero⟩

lemma exists_regionsFrom_iff (hfuel : size ≤ fuel) (p : Nat) :
    (∃ r ∈ regionsFrom fuel i offset size, p / pagesPerRegion = r.index ∧
      Touches r.offset r.size (p % pagesPerRegion)) ↔
        Touches (i * higherPageSize + offset) size p := by
  induction fuel generalizing i offset size with
  | zero =>
    obtain rfl : size = 0 := by omega
    simp [regionsFrom, Touches]
  | succ fuel ih =>
    rw [regionsFrom]
    split
    · rename_i hsize
      simp [hsize, Touches]
    have hzero : 0 < higherPageSize := by decide
    simp only [mem_cons, exists_eq_or_imp]
    rw [ih hzero (by omega)]
    simp only [Touches, pagesPerRegion_eq, higherPageSize_eq, bytesPerPage] at hoffset ⊢
    omega

end

section
variable {addr size : Nat}

lemma offset_lt (addr : Nat) : addr % higherPageSize < higherPageSize :=
  mod_lt _ (by decide)

lemma regions_nodup (addr size : Nat) : ((regions addr size).map Region.index).Nodup :=
  pairwise_map.2 ((regionsFrom_sorted (offset_lt addr)).imp fun hlt => ne_of_lt hlt)

/-- The regions of a range inside of the address space exist, and their stretches are not
empty. -/
lemma mem_regions (hend : addr + size ≤ 2 ^ maxCpuPageBits) {r : Region}
    (hr : r ∈ regions addr size) :
    Inside r.offset r.size ∧ r.index < numHighPages := by
  obtain ⟨-, hin, hle⟩ := mem_regionsFrom (offset_lt addr) hr
  refine ⟨hin, ?_⟩
  have hsize := hin.1
  have hdiv := div_add_mod addr higherPageSize
  simp only [higherPageSize_eq, show numHighPages = 4096 from rfl,
    show 2 ^ maxCpuPageBits = 17179869184 from rfl] at hle hend hdiv ⊢
  omega

lemma exists_region_iff (addr size p : Nat) :
    (∃ r ∈ regions addr size, p / pagesPerRegion = r.index ∧
      Touches r.offset r.size (p % pagesPerRegion)) ↔ Touches addr size p := by
  rw [regions, exists_regionsFrom_iff (offset_lt addr) le_rfl, div_add_mod']

end

/-! ## Pages -/

/-- The bits of a page. -/
def page (t : MemoryTracker) (p : Nat) : Page :=
  match t.topTier (p / pagesPerRegion) with
  | some m => m.page (p % pagesPerRegion)
  | none => initial

variable {create : Bool} {m : WordManager}

lemma getRegion_eq_some {cell : Option WordManager} (h : getRegion create i cell = some m) :
    cell = some m ∨ cell = none ∧ m = WordManager.new (i * higherPageSize) := by
  cases cell with
  | some m' => exact .inl h
  | none =>
    cases create with
    | true => exact .inr ⟨rfl, (Option.some.inj h).symm⟩
    | false => cases h

variable {t : MemoryTracker}

lemma page_eq {p : Nat}
    (h : getRegion create (p / pagesPerRegion) (t.topTier (p / pagesPerRegion)) = some m) :
    t.page p = m.page (p % pagesPerRegion) := by
  rw [page]
  rcases getRegion_eq_some h with htop | ⟨htop, rfl⟩
  · rw [htop]
  · rw [htop, new_page]

lemma page_store (t : MemoryTracker) (i : Nat) (m : WordManager) (batches : List Batch) (p : Nat) :
    (t.store i m batches).page p =
      if p / pagesPerRegion = i then m.page (p % pagesPerRegion) else t.page p := by
  rw [page, store]
  by_cases hp : p / pagesPerRegion = i
  · subst hp
    simp
  · simp only [update_of_ne hp, if_neg hp]
    rfl

/-- A page is counted at most once, and only if it is below 2^34. -/
def CountOk (p : Nat) (count : Int) : Prop :=
  0 ≤ count ∧ count ≤ 1 ∧ (numHighPages * pagesPerRegion ≤ p → count = 0)

/-- The managers are at their addresses, and the device tracker is in step with the pages.
Its counts are in their bounds after every call. -/
structure Sound (t : MemoryTracker) : Prop where
  addr : ∀ i m, t.topTier i = some m → m.cpuAddr = i * higherPageSize ∧ i < numHighPages
  balance : ∀ p, counted t.updates p = level (t.page p)
  calls : ∀ batches, batches <+: t.updates → ∀ p, CountOk p (counted batches p)

lemma countOk_level
    (haddr : ∀ i m, t.topTier i = some m → m.cpuAddr = i * higherPageSize ∧ i < numHighPages)
    (p : Nat) : CountOk p (level (t.page p)) := by
  refine ⟨?_, ?_, fun hp => ?_⟩
  · rw [level]
    omega
  · rw [level]
    omega
  have htop : t.topTier (p / pagesPerRegion) = none := by
    cases htop : t.topTier (p / pagesPerRegion) with
    | none => rfl
    | some m =>
      have hlt := (haddr _ m htop).2
      rw [div_lt_iff_lt_mul (by decide)] at hlt
      omega
  rw [page, htop]
  rfl

lemma Sound.extend {t' : MemoryTracker} (h : Sound t) {batches : List Batch}
    (hupdates : t'.updates = t.updates ++ batches) (hsingle : batches.length ≤ 1)
    (haddr : ∀ i m, t'.topTier i = some m → m.cpuAddr = i * higherPageSize ∧ i < numHighPages)
    (hbalance : ∀ p, counted t'.updates p = level (t'.page p)) : Sound t' := by
  refine ⟨haddr, hbalance, fun bs hbs p => ?_⟩
  have hwhole : CountOk p (counted t'.updates p) := hbalance p ▸ countOk_level haddr p
  match batches, hsingle with
  | [], _ =>
    rw [hupdates, append_nil] at hbs
    exact h.calls bs hbs p
  | [b], _ =>
    rw [hupdates] at hbs hwhole
    rcases prefix_concat_iff.1 hbs with rfl | hbs
    · exact hwhole
    · exact h.calls bs hbs p

lemma Sound.getRegion (h : Sound t) (hm : getRegion create i (t.topTier i) = some m) :
    m.cpuAddr = i * pagesPerRegion * bytesPerPage := by
  have hsize : i * pagesPerRegion * bytesPerPage = i * higherPageSize := by
    rw [mul_assoc]
    rfl
  rw [hsize]
  rcases getRegion_eq_some hm with htop | ⟨-, rfl⟩
  · exact (h.addr i m htop).1
  · rfl

/-- A visit that leaves a manager where it is and acts on its pages as a function on some of
them. -/
structure PageVisit (ok : Nat → Nat → Prop) (f : WordManager → Nat → Nat → Visit)
    (Q : Nat → Nat → Nat → Prop) (g : Page → Page) : Prop where
  addr : ∀ m offset size, (f m offset size).manager.cpuAddr = m.cpuAddr
  page : ∀ m offset size, ok offset size → ∀ q < pagesPerRegion,
    (Q offset size q → (f m offset size).manager.page q = g (m.page q)) ∧
      (¬ Q offset size q → (f m offset size).manager.page q = m.page q)
  single : ∀ m offset size, (f m offset size).batches.length ≤ 1
  balanced : ∀ m base offset size, ok offset size → m.cpuAddr = base * bytesPerPage →
    Balanced base m (f m offset size).manager (f m offset size).batches

lemma length_applyCollectedRanges (ranges : List (Nat × Nat)) (delta : Int) :
    (applyCollectedRanges ranges delta).length ≤ 1 := by
  rw [applyCollectedRanges]
  split
  · exact zero_le 1
  · exact le_rfl

lemma changeVisit_pageVisit {type : PageType} (htype : type ≠ .untracked) (enable : Bool) :
    PageVisit Inside (changeVisit type enable) Touches (change type enable) where
  addr m offset size := rfl
  page m offset size hok q _ := by
    have hpage := changeRegionState_page m hok.1 hok.2 htype enable q
    exact ⟨fun hq => hpage.trans (if_pos hq), fun hq => hpage.trans (if_neg hq)⟩
  single m offset size := length_applyCollectedRanges _ _
  balanced m base offset size hok hbase := changeRegionState_balanced hbase hok.1 hok.2 htype enable

lemma rangesVisit_pageVisit {type : PageType} (htype : type ≠ .untracked) (clear : Bool) :
    PageVisit Inside (rangesVisit type clear) (fun offset size q => clear = true ∧
      Touches offset size q) (take type) where
  addr m offset size := rfl
  page m offset size hok q _ := by
    have hpage := forEachModifiedRange_page m hok.1 hok.2 htype clear q
    exact ⟨fun hq => hpage.trans (if_pos hq), fun hq => hpage.trans (if_neg hq)⟩
  single m offset size := length_applyCollectedRanges _ _
  balanced m base offset size hok hbase :=
    forEachModifiedRange_balanced hbase hok.1 hok.2 htype clear

lemma flushVisit_pageVisit :
    PageVisit (fun _ _ => True) flushVisit (fun _ _ _ => True) flush where
  addr m offset size := rfl
  page m offset size _ q hq := by
    simp only [flushVisit, true_implies, not_true_eq_false, false_implies, and_true]
    exact flushCachedWrites_page m hq
  single m offset size := by
    simp only [flushVisit, WordManager.flushCachedWrites]
    exact length_applyCollectedRanges _ _
  balanced m base offset size _ hbase := by
    simp only [flushVisit]
    exact flushCachedWrites_balanced hbase

/-! ## Loops of visits -/

/-- A page is among the pages of some stretches that are acted on. -/
def Hit (Q : Nat → Nat → Nat → Prop) (rs : List Region) (p : Nat) : Prop :=
  ∃ r ∈ rs, p / pagesPerRegion = r.index ∧ Q r.offset r.size (p % pagesPerRegion)

/-- What a loop of visits does. -/
structure Acts (create : Bool) (rs : List Region) (Q : Nat → Nat → Nat → Prop) (g : Page → Page)
    (t t' : MemoryTracker) : Prop where
  sound : Sound t'
  cachedPages : t'.cachedPages = t.cachedPages
  kept : ∀ i, t.topTier i ≠ none → t'.topTier i ≠ none
  created : create = true → ∀ r ∈ rs, t'.topTier r.index ≠ none
  hit : ∀ p, Hit Q rs p → t'.page p = g (t.page p)
  miss : ∀ p, ¬ Hit Q rs p → t'.page p = t.page p

variable {rs : List Region}

lemma hit_cons {Q : Nat → Nat → Nat → Prop} {p : Nat} :
    Hit Q (r :: rs) p ↔ Hit Q [r] p ∨ Hit Q rs p := by
  simp [Hit]

/-- The regions of a loop are distinct, so that every page is acted on once. -/
lemma Acts.cons {Q : Nat → Nat → Nat → Prop} {g : Page → Page} {t₁ t₂ : MemoryTracker}
    (h : Acts create [r] Q g t t₁) (h' : Acts create rs Q g t₁ t₂)
    (hne : ∀ s ∈ rs, s.index ≠ r.index) :
    Acts create (r :: rs) Q g t t₂ where
  sound := h'.sound
  cachedPages := h'.cachedPages.trans h.cachedPages
  kept i hi := h'.kept i (h.kept i hi)
  created hcreate := forall_mem_cons.2
    ⟨h'.kept _ (h.created hcreate r (by simp)), h'.created hcreate⟩
  hit p hp := by
    rcases hit_cons.1 hp with hr | hrs
    · have hmiss : ¬ Hit Q rs p := by
        rintro ⟨s, hs, hindex, -⟩
        obtain ⟨_, hr, hindex', -⟩ := hr
        rw [mem_singleton.1 hr] at hindex'
        exact hne s hs (hindex.symm.trans hindex')
      rw [h'.miss p hmiss, h.hit p hr]
    have hmiss : ¬ Hit Q [r] p := by
      rintro ⟨_, hr, hindex, -⟩
      obtain ⟨s, hs, hindex', -⟩ := hrs
      rw [mem_singleton.1 hr] at hindex
      exact hne s hs (hindex'.symm.trans hindex)
    rw [h'.hit p hrs, h.miss p hmiss]
  miss p hp := by
    rw [hit_cons, not_or] at hp
    rw [h'.miss p hp.2, h.miss p hp.1]

section
variable {create : Bool} {ok : Nat → Nat → Prop} {f : WordManager → Nat → Nat → Visit}
  {Q : Nat → Nat → Nat → Prop} {g : Page → Page} (hv : PageVisit ok f Q g)
  (hg : create = true ∨ g initial = initial)
include hv hg

/-- One visit. -/
lemma visitRegion_acts {t : MemoryTracker} (h : Sound t) (ranges : List (Nat × Nat)) {r : Region}
    (hok : ok r.offset r.size) (hindex : r.index < numHighPages) :
    Acts create [r] Q g t (visitRegion create f (t, ranges) r).1 := by
  rw [visitRegion]
  cases hregion : getRegion create r.index (t.topTier r.index) with
  | none =>
    -- the region stays without a manager, and its pages in their initial state
    obtain ⟨htop, hcreate⟩ : t.topTier r.index = none ∧ create = false := by
      cases htop : t.topTier r.index with
      | some m => simp [htop, getRegion] at hregion
      | none => simpa [htop, getRegion] using hregion
    refine ⟨h, rfl, fun i hi => hi, fun hc => ?_, fun p hp => ?_, fun p _ => rfl⟩
    · rw [hcreate] at hc
      cases hc
    · obtain ⟨_, hr, hp, -⟩ := hp
      rw [mem_singleton.1 hr] at hp
      have hpage : t.page p = initial := by rw [page, hp, htop]
      rw [hpage, hg.resolve_left (by rw [hcreate]; exact Bool.false_ne_true)]
  | some m =>
    have haddr := h.getRegion hregion
    have hbalanced := hv.balanced m _ r.offset r.size hok haddr
    have hpage := page_store t r.index (f m r.offset r.size).manager (f m r.offset r.size).batches
    have hold : ∀ p, p / pagesPerRegion = r.index → t.page p = m.page (p % pagesPerRegion) :=
      fun p hp => by
        rw [← hp] at hregion
        exact page_eq hregion
    have hlt : ∀ p, p % pagesPerRegion < pagesPerRegion := fun p => mod_lt p (by decide)
    refine ⟨h.extend rfl (hv.single m r.offset r.size) (fun i m' hm' => ?_) fun p => ?_, rfl,
      fun i hi => ?_, fun _ => ?_, fun p hp => ?_, fun p hp => ?_⟩
    · by_cases hi : i = r.index
      · subst hi
        simp only [store, update_self, Option.some.injEq] at hm'
        rw [← hm', hv.addr, haddr, mul_assoc]
        exact ⟨rfl, hindex⟩
      · simp only [store, update_of_ne hi] at hm'
        exact h.addr i m' hm'
    · change counted (t.updates ++ (f m r.offset r.size).batches) p = _
      rw [counted_append, h.balance, hbalanced p, hpage]
      by_cases hp : p / pagesPerRegion = r.index
      · have hmod := div_add_mod' p pagesPerRegion
        rw [hp] at hmod
        rw [if_pos hp, hold p hp, if_pos (by have := hlt p; simp only [pagesPerRegion] at *; omega),
          show p - r.index * pagesPerRegion = p % pagesPerRegion by omega]
        omega
      rw [if_neg hp, if_neg]
      · omega
      · rintro ⟨hle, hlt⟩
        exact hp ((Nat.div_eq_iff (by decide)).2 ⟨hle, by
          simp only [pagesPerRegion] at *
          omega⟩)
    · by_cases hir : i = r.index
      · subst hir
        simp [store]
      · simpa [store, update_of_ne hir] using hi
    · simp [store]
    · obtain ⟨_, hr, hp, hq⟩ := hp
      rw [mem_singleton.1 hr] at hp hq
      rw [hpage, if_pos hp, hold p hp]
      exact (hv.page m _ _ hok _ (hlt p)).1 hq
    · rw [hpage]
      split <;> rename_i hr
      · rw [hold p hr]
        exact (hv.page m _ _ hok _ (hlt p)).2 fun hq => hp ⟨r, by simp, hr, hq⟩
      · rfl

/-- A loop of visits. -/
lemma foldl_visitRegion_acts (hnodup : (rs.map Region.index).Nodup)
    (hok : ∀ r ∈ rs, ok r.offset r.size ∧ r.index < numHighPages) {t : MemoryTracker} (h : Sound t)
    (ranges : List (Nat × Nat)) :
    Acts create rs Q g t (rs.foldl (visitRegion create f) (t, ranges)).1 := by
  induction rs generalizing t ranges with
  | nil => exact ⟨h, rfl, fun _ hi => hi, fun _ => nofun, fun p hp => by simp [Hit] at hp,
      fun _ _ => rfl⟩
  | cons r rs ih =>
    rw [map_cons, nodup_cons] at hnodup
    obtain ⟨hr, hok⟩ := forall_mem_cons.1 hok
    have hvisit := visitRegion_acts hv hg h ranges hr.1 hr.2
    exact hvisit.cons (ih hnodup.2 hok hvisit.sound _) fun s hs heq =>
      hnodup.1 (heq ▸ mem_map_of_mem hs)

end
end MemoryTracker
end Drippu.VideoCore
