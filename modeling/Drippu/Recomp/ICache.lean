import Drippu.Library.Breakpoints

/-!
# Recomp - Invalidated ranges of recompiled code

Code that was written to is rejected page by page, together with the page before it, which may
hold a block that runs into it.  The ranges are half-open; one that reaches the end of the
address space stops at the last address, which no instruction has.

Main results:

- Theorem `invalidated_exact`: exactly the pages of the calls are rejected.
-/

namespace Drippu

open Library List

structure RecompICache.Range where
  start : Nat
  stop : Nat

structure RecompICache where
  aotRejected : Bool
  hasInvalidatedRanges : Bool
  invalidatedRanges : List RecompICache.Range

namespace RecompICache

def u64Max : Nat := 2 ^ 64 - 1

def pageSize : Nat := 0x1000

/-- The pages of a byte range that is not empty. -/
def pageRange (start length : Nat) : Range :=
  let originalEnd := if u64Max - start < length then u64Max else start + length
  let start := start - start % pageSize
  let start := if pageSize ≤ start then start - pageSize else start
  let stop :=
    if u64Max - (pageSize - 1) < originalEnd then u64Max
    else originalEnd + pageSize - 1 - (originalEnd + pageSize - 1) % pageSize
  ⟨start, stop⟩

/-- The loop over the published ranges: those that touch the new one are merged into it. -/
def mergeRanges : List Range → List Range → Range → List Range
  | [], kept, merged => kept ++ [merged]
  | range :: rest, kept, merged =>
    if range.stop < merged.start ∨ merged.stop < range.start then
      mergeRanges rest (kept ++ [range]) merged
    else mergeRanges rest kept ⟨min merged.start range.start, max merged.stop range.stop⟩

def invalidateRange (c : RecompICache) (call : Nat × Nat) : RecompICache :=
  if call.2 = 0 then c
  else
    let kept := mergeRanges c.invalidatedRanges [] (pageRange call.1 call.2)
    { c with
      invalidatedRanges := kept.mergeSort (fun a b => a.start ≤ b.start)
      hasInvalidatedRanges := true }

def allowsAotAt (c : RecompICache) (pc : Nat) : Bool :=
  if c.aotRejected then false
  else if !c.hasInvalidatedRanges then true
  else
    let it := upperBound Range.start c.invalidatedRanges pc
    it == 0 || c.invalidatedRanges[it - 1]?.all fun range => range.stop ≤ pc

/-- A new cache after some calls. -/
def run (calls : List (Nat × Nat)) : RecompICache :=
  calls.foldl invalidateRange ⟨false, false, []⟩

/-! ## Ranges -/

def Range.Has (r : Range) (x : Nat) : Prop := r.start ≤ x ∧ x < r.stop

/-- Two ranges that do not even touch. -/
def Apart (a b : Range) : Prop := a.stop < b.start ∨ b.stop < a.start

/-- Sorted, disjoint and non-touching. -/
def Separated (l : List Range) : Prop :=
  (∀ r ∈ l, r.start ≤ r.stop) ∧ l.Pairwise fun a b => a.stop < b.start

/-- What the loop returns: ranges apart from each other, with the addresses of the old ranges and
of the new one. -/
lemma mergeRanges_spec {l kept : List Range} {m : Range} (hsep : Separated (kept ++ l))
    (hm : m.start ≤ m.stop) (hkept : ∀ r ∈ kept, Apart r m) :
    (∀ r ∈ mergeRanges l kept m, r.start ≤ r.stop) ∧ (mergeRanges l kept m).Pairwise Apart ∧
      ∀ x, (∃ r ∈ mergeRanges l kept m, r.Has x) ↔ (∃ r ∈ kept ++ l, r.Has x) ∨ m.Has x := by
  induction l generalizing kept m with
  | nil =>
    rw [append_nil] at hsep
    refine ⟨?_, pairwise_append.2 ⟨hsep.2.imp .inl, pairwise_singleton _ _, ?_⟩, ?_⟩
    · simpa [mergeRanges, or_imp, forall_and] using ⟨hsep.1, hm⟩
    · simpa using hkept
    · simp [mergeRanges, or_and_right, exists_or]
  | cons r rest ih =>
    rw [mergeRanges]
    split
    · rename_i hapart
      have hmore : ∀ s ∈ kept ++ [r], Apart s m := by
        simpa [or_imp, forall_and] using ⟨hkept, hapart⟩
      have hsep' : Separated (kept ++ [r] ++ rest) := by simpa using hsep
      simpa using ih hsep' hm hmore
    rename_i htouch
    have hrest : Separated (kept ++ rest) :=
      ⟨fun s hs => hsep.1 s (by simp at hs ⊢; tauto),
        hsep.2.sublist ((sublist_cons_self r rest).append_left kept)⟩
    -- a kept range lies in front of the merged one
    have hmore : ∀ s ∈ kept, Apart s ⟨min m.start r.start, max m.stop r.stop⟩ := by
      intro s hs
      have hbefore := (pairwise_append.1 hsep.2).2.2 s hs r (by simp)
      have hle := hsep.1 s (by simp [hs])
      have := hkept s hs
      simp only [Apart] at this ⊢
      omega
    obtain ⟨hle, hpair, hhas⟩ := ih hrest (by simp; omega) hmore
    refine ⟨hle, hpair, fun x => (hhas x).trans ?_⟩
    have hunion : Range.Has ⟨min m.start r.start, max m.stop r.stop⟩ x ↔ m.Has x ∨ r.Has x := by
      simp only [Range.Has]
      omega
    rw [hunion]
    simp only [mem_append, mem_cons, or_and_right, exists_or, exists_eq_left]
    grind

lemma separated_mergeSort {l : List Range} (hle : ∀ r ∈ l, r.start ≤ r.stop)
    (hpair : l.Pairwise Apart) : Separated (l.mergeSort fun a b => a.start ≤ b.start) := by
  have hperm := mergeSort_perm l fun a b => decide (a.start ≤ b.start)
  have hmem : ∀ r ∈ l.mergeSort (fun a b => a.start ≤ b.start), r.start ≤ r.stop := fun r hr =>
    hle r (hperm.mem_iff.1 hr)
  have hsorted : (l.mergeSort fun a b => a.start ≤ b.start).Pairwise fun a b => a.start ≤ b.start :=
    (pairwise_mergeSort (fun a b c hab hbc => by simp at hab hbc ⊢; omega)
      (fun a b => by simp; omega) l).imp fun h => of_decide_eq_true h
  refine ⟨hmem, ?_⟩
  have hapart := (hperm.pairwise_iff (R := Apart) fun h => Or.symm h).2 hpair
  refine (hsorted.and hapart).imp_of_mem fun ha hb h => ?_
  have := hmem _ hb
  have := h.2
  simp only [Apart] at this
  omega

/-- The lookup finds the range that holds an address. -/
lemma allowsAotAt_eq_false_iff {l : List Range} (hsep : Separated l) (pc : Nat) :
    allowsAotAt ⟨false, true, l⟩ pc = false ↔ ∃ r ∈ l, r.Has pc := by
  have hsorted : l.Pairwise fun a b => a.start < b.start := hsep.2.imp_of_mem fun {a b} ha _ h =>
    (hsep.1 a ha).trans_lt h
  obtain ⟨front, mid, back, rfl, hfront, hmid, hback⟩ :=
    exists_split_of_sorted hsorted (pc + 1) (pc + 1)
  obtain rfl : mid = [] := eq_nil_iff_forall_not_mem.2 fun r hr => by
    have := hmid r hr
    omega
  have hupper : upperBound Range.start (front ++ back) pc = front.length :=
    upperBound_append (fun r hr => Nat.le_of_lt_succ (hfront r hr)) hback
  rw [nil_append] at hsep ⊢
  simp only [allowsAotAt, hupper]
  rcases eq_nil_or_concat' front with rfl | ⟨before, last, rfl⟩
  · simp only [Range.Has]
    simpa using fun r hr hle => absurd (hback r hr) (by omega)
  have hlast : last.start ≤ pc := Nat.le_of_lt_succ (hfront last (by simp))
  have hpair := (pairwise_append.1 hsep.2).1
  have hbefore : ∀ r ∈ before, r.stop < last.start := fun r hr =>
    (pairwise_append.1 hpair).2.2 r hr last (by simp)
  simp only [Range.Has]
  constructor
  · intro h
    exact ⟨last, by simp, hlast, by simpa using h⟩
  · rintro ⟨r, hr, hle, hlt⟩
    rcases (by simpa [or_assoc] using hr : r ∈ before ∨ r = last ∨ r ∈ back) with hr | rfl | hr
    · have := hbefore r hr
      omega
    · simpa using hlt
    · have := hback r hr
      omega

/-! ## Calls -/

/-- The pages of a call: those of its bytes, and the page before the first one. -/
def Touches (call : Nat × Nat) (pc : Nat) : Prop :=
  0 < call.2 ∧ ((∃ b, call.1 ≤ b ∧ b < call.1 + call.2 ∧ b < 2 ^ 64 ∧
    b / pageSize = pc / pageSize) ∨ pc / pageSize + 1 = call.1 / pageSize)

lemma pageRange_eq {start : Nat} (hstart : start < 2 ^ 64) (length : Nat) :
    pageRange start length = ⟨(start / pageSize - 1) * pageSize,
      min u64Max ((min u64Max (start + length) + pageSize - 1) / pageSize * pageSize)⟩ := by
  have hend : (if u64Max - start < length then u64Max else start + length) =
      min u64Max (start + length) := by
    split <;> simp only [u64Max] at * <;> omega
  simp only [pageRange, hend, Range.mk.injEq]
  generalize min u64Max (start + length) = stop
  constructor
  · split <;> simp only [pageSize] at * <;> omega
  · split <;> simp only [pageSize, u64Max] at * <;> omega

variable {start length pc : Nat} (hstart : start < 2 ^ 64) (hlength : 0 < length)
include hstart

lemma pageRange_le : (pageRange start length).start ≤ (pageRange start length).stop := by
  simp only [pageRange_eq hstart, pageSize, u64Max]
  omega

include hlength

lemma pageRange_has (hpc : pc < 2 ^ 64) (halign : pc % 4 = 0) :
    (pageRange start length).Has pc ↔ Touches (start, length) pc := by
  simp only [Range.Has, pageRange_eq hstart, Touches, u64Max, pageSize, hlength, true_and]
  constructor
  · rintro ⟨hlo, hhi⟩
    by_cases hbefore : pc / 0x1000 + 1 = start / 0x1000
    · exact .inr hbefore
    -- the byte of the call that is nearest to the instruction lies in its page
    · exact .inl ⟨max start (min pc (start + length - 1)), by omega⟩
  · rintro (⟨b, hb⟩ | hbefore) <;> omega

omit hstart hlength

/-- After some calls the ranges are separated and hold the instructions of the calls' pages. -/
lemma run_spec {calls : List (Nat × Nat)} (hcalls : ∀ call ∈ calls, call.1 < 2 ^ 64) :
    ∃ l, run calls = ⟨false, calls.any (0 < ·.2), l⟩ ∧ Separated l ∧ ∀ pc < 2 ^ 64, pc % 4 = 0 →
      ((∃ r ∈ l, r.Has pc) ↔ ∃ call ∈ calls, Touches call pc) := by
  induction calls using List.reverseRecOn with
  | nil => exact ⟨[], rfl, ⟨nofun, .nil⟩, by simp⟩
  | append_singleton calls call ih =>
    obtain ⟨l, hrun, hsep, hhas⟩ := ih fun c hc => hcalls c (by simp [hc])
    have hstart := hcalls call (by simp)
    rw [run, foldl_append, ← run, hrun, foldl_cons, foldl_nil, invalidateRange]
    split_ifs with hzero
    · refine ⟨l, by simp [hzero], hsep, fun pc hpc halign => (hhas pc hpc halign).trans ?_⟩
      simp [or_and_right, exists_or, Touches, hzero]
    obtain ⟨hle, hpair, hmem⟩ := mergeRanges_spec (m := pageRange call.1 call.2)
      (show Separated ([] ++ l) from hsep) (pageRange_le hstart) nofun
    have hpos := pos_of_ne_zero hzero
    refine ⟨_, by simp [hpos], separated_mergeSort hle hpair, fun pc hpc halign => ?_⟩
    simp only [mem_mergeSort, hmem, nil_append, hhas pc hpc halign,
      pageRange_has hstart hpos hpc halign, mem_append, mem_singleton, or_and_right,
      exists_or, exists_eq_left]

/-- Exactly the instructions in the pages of the calls, and in the page in front of each call,
are rejected; the published ranges are sorted, disjoint and do not touch. -/
theorem invalidated_exact (calls : List (Nat × Nat)) (hcalls : ∀ call ∈ calls, call.1 < 2 ^ 64) :
    Separated (run calls).invalidatedRanges ∧ ∀ pc < 2 ^ 64, pc % 4 = 0 →
      ((run calls).allowsAotAt pc = false ↔ ∃ call ∈ calls, Touches call pc) := by
  obtain ⟨l, hrun, hsep, hhas⟩ := run_spec hcalls
  rw [hrun]
  refine ⟨hsep, fun pc hpc halign => ?_⟩
  cases hany : calls.any (0 < ·.2) with
  | true => exact (allowsAotAt_eq_false_iff hsep pc).trans (hhas pc hpc halign)
  | false =>
    have hnone : ¬ ∃ call ∈ calls, Touches call pc := by
      rintro ⟨call, hcall, hpos, -⟩
      simpa [hpos.ne'] using any_eq_false.1 hany call hcall
    simp [allowsAotAt, hnone]

/-- A write at the end of the address space. -/
theorem invalidated_last_page : (run [(2 ^ 64 - 1, 8)]).allowsAotAt (2 ^ 64 - 4) = false :=
  ((invalidated_exact [(2 ^ 64 - 1, 8)] (by simp)).2 (2 ^ 64 - 4) (by decide) (by decide)).2
    ⟨_, mem_singleton_self _, by decide, .inl ⟨2 ^ 64 - 1, by decide⟩⟩

end RecompICache
end Drippu
