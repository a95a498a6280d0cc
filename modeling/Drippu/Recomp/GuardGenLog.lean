import Drippu.Recomp.GuardGen

/-!
# Recomp - The log of live mappings

The records of the log say which address of which table is backed by which physical
address.  Editing the log changes exactly the addresses of the edited range, and a span
that `StableSpan` accepts is mapped without write permission at every address, with
its physical addresses in the runs.
-/

namespace Drippu.RecompGuardGen

open List Option

variable {table va size : Nat}

/-! ## Ranges -/

variable {a b : Nat}

lemma add64_of_lt (h : a + b < 2 ^ 64) : add64 a b = a + b :=
  Nat.mod_eq_of_lt h

lemma sub64_of_le (hle : b ≤ a) (ha : a < 2 ^ 64) : sub64 a b = a - b := by
  rw [sub64, add_comm, Nat.add_sub_assoc hle, add_comm, Nat.add_mod_right,
    Nat.mod_eq_of_lt (lt_of_le_of_lt (Nat.sub_le a b) ha)]

lemma overlaps_iff {aSize bSize : Nat} (ha : a + aSize < 2 ^ 64) (hb : b + bSize < 2 ^ 64) :
    overlaps a aSize b bSize = true ↔ 0 < aSize ∧ 0 < bSize ∧ a < b + bSize ∧ b < a + aSize := by
  simp only [overlaps, add64_of_lt ha, add64_of_lt hb, Bool.and_eq_true, bne_iff_ne,
    decide_eq_true_eq]
  omega

lemma overlaps_of_mem {aSize bSize x : Nat} (ha : a + aSize < 2 ^ 64) (hb : b + bSize < 2 ^ 64)
    (hxa : a ≤ x ∧ x < a + aSize) (hxb : b ≤ x ∧ x < b + bSize) :
    overlaps a aSize b bSize = true := by
  rw [overlaps_iff ha hb]
  omega

/-! ## What a record says -/

namespace MapRecord

/-- The record covers an address of its table. -/
def Covers (rec : MapRecord) (t a : Nat) : Prop :=
  rec.table = t ∧ rec.va ≤ a ∧ a < rec.va + rec.size

/-- The record maps an address of its table to a physical address. -/
def Maps (rec : MapRecord) (t a p : Nat) (writable : Bool) : Prop :=
  rec.Covers t a ∧ p = rec.pa + (a - rec.va) ∧ writable = rec.writable

/-- The ranges of the record do not wrap around. -/
def InRange (rec : MapRecord) : Prop :=
  rec.va + rec.size < 2 ^ 64 ∧ rec.pa + rec.size < 2 ^ 64

/-- No address is covered twice. -/
def Apart (rec rec' : MapRecord) : Prop :=
  ∀ t a, ¬ (rec.Covers t a ∧ rec'.Covers t a)

lemma Apart.symm {rec rec' : MapRecord} (h : rec.Apart rec') : rec'.Apart rec :=
  fun t a hboth => h t a hboth.symm

end MapRecord

/-- Some record of the log maps the address. -/
def LogMaps (log : List MapRecord) (t a p : Nat) (writable : Bool) : Prop :=
  ∃ rec ∈ log, rec.Maps t a p writable

/-- The records of a log do not wrap around and do not overlap. -/
structure LogWellFormed (log : List MapRecord) : Prop where
  inRange : ∀ rec ∈ log, rec.InRange
  apart : log.Pairwise MapRecord.Apart

/-! ## Splitting records -/

/-- The piece of a record that a range cuts out. -/
def middle (va size : Nat) (rec : MapRecord) : MapRecord :=
  { rec with
    va := max rec.va va
    size := min (rec.va + rec.size) (va + size) - max rec.va va
    pa := rec.pa + (max rec.va va - rec.va) }

lemma splitRecord_of_not_overlaps {inside : MapRecord → Option MapRecord} {rec : MapRecord}
    (h : ¬ (rec.table = table ∧ overlaps rec.va rec.size va size = true)) :
    splitRecord table va size inside rec = [rec] := by
  rw [splitRecord, if_pos]
  by_cases htable : rec.table = table
  · simp_all
  · simp [htable]

lemma splitRecord_of_overlaps {inside : MapRecord → Option MapRecord} {rec : MapRecord}
    (hrec : rec.InRange) (hrange : va + size < 2 ^ 64) (htable : rec.table = table)
    (hover : overlaps rec.va rec.size va size = true) :
    splitRecord table va size inside rec =
      (if rec.va < va then [{ rec with size := va - rec.va }] else []) ++
        (inside (middle va size rec)).toList ++
        (if va + size < rec.va + rec.size then
          [{ rec with
              va := va + size
              size := rec.va + rec.size - (va + size)
              pa := rec.pa + (va + size - rec.va) }]
        else []) := by
  have hcross := (overlaps_iff hrec.1 hrange).1 hover
  have hpa := hrec.2
  have hva := hrec.1
  rw [splitRecord, if_neg (by simp [htable, hover])]
  dsimp only
  rw [add64_of_lt hrec.1, add64_of_lt hrange,
    add64_of_lt (show rec.pa + (max rec.va va - rec.va) < 2 ^ 64 by omega),
    sub64_of_le (show max rec.va va ≤ min (rec.va + rec.size) (va + size) by omega) (by omega)]
  congr 1
  · congr 1
    split
    · rw [sub64_of_le (by omega) (by omega)]
    · rfl
  · split
    · rw [sub64_of_le (by omega) hva, add64_of_lt (by omega)]
    · rfl

/-- A piece inside the range is dropped or gets another permission. -/
def Keeps (keep : Option Bool) (inside : MapRecord → Option MapRecord) : Prop :=
  ∀ rec, inside rec = keep.map fun writable => { rec with writable := writable }

variable {keep : Option Bool} {inside : MapRecord → Option MapRecord} {rec rec' : MapRecord}

lemma maps_before (hcross : va < rec.va + rec.size) (t a p : Nat) (w : Bool) :
    (∃ r ∈ (if rec.va < va then [{ rec with size := va - rec.va }] else []), r.Maps t a p w) ↔
      rec.Maps t a p w ∧ a < va := by
  split
  · simp only [mem_singleton, exists_eq_left, MapRecord.Maps, MapRecord.Covers]
    constructor
    · rintro ⟨hcovers, hp, hw⟩
      exact ⟨⟨by omega, hp, hw⟩, by omega⟩
    · rintro ⟨⟨hcovers, hp, hw⟩, hlt⟩
      exact ⟨by omega, hp, hw⟩
  · simp only [not_mem_nil, false_and, exists_false, MapRecord.Maps, MapRecord.Covers, false_iff]
    omega

lemma maps_middle (hinside : Keeps keep inside) (t a p : Nat) (w : Bool) :
    (∃ r ∈ (inside (middle va size rec)).toList, r.Maps t a p w) ↔
      (∃ w', rec.Maps t a p w') ∧ (va ≤ a ∧ a < va + size) ∧ keep = some w := by
  rw [hinside]
  cases keep with
  | none => simp
  | some w' =>
    simp only [map_some, toList_some, mem_singleton, exists_eq_left,
      MapRecord.Maps, MapRecord.Covers, middle, some.injEq]
    constructor
    · rintro ⟨hcovers, hp, hw⟩
      exact ⟨⟨rec.writable, by omega, by omega, rfl⟩, by omega, hw.symm⟩
    · rintro ⟨⟨w'', hcovers, hp, -⟩, hin, hw⟩
      exact ⟨by omega, by omega, hw.symm⟩

lemma maps_after (hcross : rec.va < va + size) (t a p : Nat) (w : Bool) :
    (∃ r ∈ (if va + size < rec.va + rec.size then
        [{ rec with
            va := va + size
            size := rec.va + rec.size - (va + size)
            pa := rec.pa + (va + size - rec.va) }]
      else []), r.Maps t a p w) ↔ rec.Maps t a p w ∧ va + size ≤ a := by
  split
  · simp only [mem_singleton, exists_eq_left, MapRecord.Maps, MapRecord.Covers]
    constructor
    · rintro ⟨hcovers, hp, hw⟩
      exact ⟨⟨by omega, by omega, hw⟩, hcovers.2.1⟩
    · rintro ⟨⟨hcovers, hp, hw⟩, hle⟩
      exact ⟨by omega, by omega, hw⟩
  · simp only [not_mem_nil, false_and, exists_false, MapRecord.Maps, MapRecord.Covers, false_iff]
    omega

variable {s : State} (hinside : Keeps keep inside) (hrec : rec.InRange)
  (hlog : LogWellFormed s.mapLog) (hrange : va + size < 2 ^ 64)

section
include hinside hrec hrange

/-- The pieces of a record map what the record maps outside of the range, and what the
edit says inside of it. -/
lemma maps_splitRecord (table t a p : Nat) (w : Bool) :
    (∃ r ∈ splitRecord table va size inside rec, r.Maps t a p w) ↔
      if t = table ∧ va ≤ a ∧ a < va + size then (∃ w', rec.Maps t a p w') ∧ keep = some w
      else rec.Maps t a p w := by
  by_cases hcut : rec.table = table ∧ overlaps rec.va rec.size va size = true
  · obtain ⟨htable, hover⟩ := hcut
    have hcross := (overlaps_iff hrec.1 hrange).1 hover
    simp only [splitRecord_of_overlaps hrec hrange htable hover, mem_append, or_and_right,
      exists_or, maps_before hcross.2.2.2, maps_middle hinside, maps_after hcross.2.2.1]
    split <;> rename_i hin
    · constructor
      · rintro ((⟨-, hlt⟩ | ⟨hmaps, -, hkeep⟩) | ⟨-, hle⟩)
        · omega
        · exact ⟨hmaps, hkeep⟩
        · omega
      · rintro ⟨hmaps, hkeep⟩
        exact .inl (.inr ⟨hmaps, hin.2, hkeep⟩)
    constructor
    · rintro ((⟨hmaps, -⟩ | ⟨⟨w', hmaps⟩, hrange', -⟩) | ⟨hmaps, -⟩)
      · exact hmaps
      · exact absurd ⟨hmaps.1.1.symm.trans htable, hrange'⟩ hin
      · exact hmaps
    · intro hmaps
      have ht : t = table := hmaps.1.1.symm.trans htable
      by_cases hlt : a < va
      · exact .inl (.inl ⟨hmaps, hlt⟩)
      · exact .inr ⟨hmaps, by omega⟩
  · rw [splitRecord_of_not_overlaps hcut]
    have hout : ∀ w', rec.Maps t a p w' → ¬ (t = table ∧ va ≤ a ∧ a < va + size) := by
      rintro w' ⟨⟨rfl, hlo, hhi⟩, -⟩ ⟨htable, hin⟩
      exact hcut ⟨htable, overlaps_of_mem hrec.1 hrange ⟨hlo, hhi⟩ hin⟩
    simp only [mem_singleton, exists_eq_left]
    split <;> rename_i hin
    · constructor
      · exact fun hmaps => absurd hin (hout w hmaps)
      · rintro ⟨⟨w', hmaps⟩, -⟩
        exact absurd hin (hout w' hmaps)
    · rfl

lemma covers_of_splitRecord (hmem : rec' ∈ splitRecord table va size inside rec) {t : Nat}
    (hcovers : rec'.Covers t a) : rec.Covers t a := by
  have hpiece := (maps_splitRecord hinside hrec hrange table t a _ _).1
    ⟨rec', hmem, hcovers, rfl, rfl⟩
  split at hpiece
  · exact hpiece.1.choose_spec.1
  · exact hpiece.1

lemma inRange_of_splitRecord (hmem : rec' ∈ splitRecord table va size inside rec) :
    rec'.InRange := by
  by_cases hcut : rec.table = table ∧ overlaps rec.va rec.size va size = true
  · obtain ⟨htable, hover⟩ := hcut
    have hcross := (overlaps_iff hrec.1 hrange).1 hover
    rw [splitRecord_of_overlaps hrec hrange htable hover, hinside] at hmem
    simp only [mem_append, mem_toList, map_eq_some_iff, mem_ite_nil_right,
      mem_singleton] at hmem
    simp only [MapRecord.InRange] at hrec ⊢
    rcases hmem with (⟨hlt, rfl⟩ | ⟨w, -, rfl⟩) | ⟨hlt, rfl⟩
    · dsimp only
      omega
    · dsimp only [middle]
      omega
    · dsimp only
      omega
  · rw [splitRecord_of_not_overlaps hcut, mem_singleton] at hmem
    exact hmem ▸ hrec

lemma apart_splitRecord : (splitRecord table va size inside rec).Pairwise MapRecord.Apart := by
  by_cases hcut : rec.table = table ∧ overlaps rec.va rec.size va size = true
  · obtain ⟨htable, hover⟩ := hcut
    have hcross := (overlaps_iff hrec.1 hrange).1 hover
    rw [splitRecord_of_overlaps hrec hrange htable hover, pairwise_append, pairwise_append]
    refine ⟨⟨?_, ?_, fun r hr r' hr' t a hboth => ?_⟩, ?_, fun r hr r' hr' t a hboth => ?_⟩
    · split <;> simp
    · cases inside (middle va size rec) <;> simp
    · have h1 := (maps_before hcross.2.2.2 t a _ _).1 ⟨r, hr, hboth.1, rfl, rfl⟩
      have h2 := (maps_middle hinside t a _ _).1 ⟨r', hr', hboth.2, rfl, rfl⟩
      omega
    · split <;> simp
    have h2 := (maps_after hcross.2.2.1 t a _ _).1 ⟨r', hr', hboth.2, rfl, rfl⟩
    rcases mem_append.1 hr with hr | hr
    · have h1 := (maps_before hcross.2.2.2 t a _ _).1 ⟨r, hr, hboth.1, rfl, rfl⟩
      omega
    · have h1 := (maps_middle hinside t a _ _).1 ⟨r, hr, hboth.1, rfl, rfl⟩
      omega
  · rw [splitRecord_of_not_overlaps hcut]
    exact pairwise_singleton _ _

end

/-! ## Editing the log -/

section

lemma mapLog_editLog (s : State) (table va size : Nat) (inside : MapRecord → Option MapRecord) :
    (editLog s table va size inside).mapLog =
      s.mapLog.flatMap (splitRecord table va size inside) := by
  rw [editLog]
  split <;> rename_i hnone
  · have hall : ∀ rec ∈ s.mapLog, splitRecord table va size inside rec = [rec] := by
      intro rec hrec
      refine splitRecord_of_not_overlaps fun hcut => ?_
      have hnot := all_eq_true.1 hnone rec hrec
      simp [hcut.1, hcut.2] at hnot
    rw [flatMap_congr hall, flatMap_singleton']
  · rfl

include hinside hlog hrange

lemma logMaps_editLog (t a p : Nat) (w : Bool) :
    LogMaps (editLog s table va size inside).mapLog t a p w ↔
      if t = table ∧ va ≤ a ∧ a < va + size then
        (∃ w', LogMaps s.mapLog t a p w') ∧ keep = some w
      else LogMaps s.mapLog t a p w := by
  have hsplit : LogMaps (editLog s table va size inside).mapLog t a p w ↔
      ∃ rec ∈ s.mapLog, ∃ r ∈ splitRecord table va size inside rec, r.Maps t a p w := by
    rw [LogMaps, mapLog_editLog]
    simp only [mem_flatMap]
    constructor
    · rintro ⟨r, ⟨rec, hrec, hr⟩, hmaps⟩
      exact ⟨rec, hrec, r, hr, hmaps⟩
    · rintro ⟨rec, hrec, r, hr, hmaps⟩
      exact ⟨r, ⟨rec, hrec, hr⟩, hmaps⟩
  rw [hsplit, exists_congr fun rec => and_congr_right fun hrec =>
    maps_splitRecord hinside (hlog.inRange rec hrec) hrange table t a p w]
  split
  · constructor
    · rintro ⟨rec, hrec, ⟨w', hmaps⟩, hkeep⟩
      exact ⟨⟨w', rec, hrec, hmaps⟩, hkeep⟩
    · rintro ⟨⟨w', rec, hrec, hmaps⟩, hkeep⟩
      exact ⟨rec, hrec, ⟨w', hmaps⟩, hkeep⟩
  · rfl

lemma editLog_wellFormed : LogWellFormed (editLog s table va size inside).mapLog := by
  rw [mapLog_editLog]
  constructor
  · intro r hr
    obtain ⟨rec, hrec, hr⟩ := mem_flatMap.1 hr
    exact inRange_of_splitRecord hinside (hlog.inRange rec hrec) hrange hr
  · rw [pairwise_flatMap]
    refine ⟨fun rec hrec => apart_splitRecord hinside (hlog.inRange rec hrec) hrange, ?_⟩
    refine hlog.apart.imp_of_mem fun {rec rec'} hrec hrec' hapart => ?_
    intro r hr r' hr' t a hboth
    exact hapart t a
      ⟨covers_of_splitRecord hinside (hlog.inRange rec hrec) hrange hr hboth.1,
        covers_of_splitRecord hinside (hlog.inRange rec' hrec') hrange hr' hboth.2⟩

end

/-! ## Stable spans -/

/-- The runs contain a physical address. -/
def InRuns (runs : List (Nat × Nat)) (p : Nat) : Prop :=
  ∃ run ∈ runs, run.1 ≤ p ∧ p < run.1 + run.2

/-- The runs do not wrap around. -/
def RunsInRange (runs : List (Nat × Nat)) : Prop :=
  ∀ run ∈ runs, run.1 + run.2 < 2 ^ 64

variable {runs : List (Nat × Nat)}

lemma inRuns_concat {run : Nat × Nat} {p : Nat} :
    InRuns (runs ++ [run]) p ↔ InRuns runs p ∨ run.1 ≤ p ∧ p < run.1 + run.2 := by
  simp [InRuns]

lemma runsInRange_concat {run : Nat × Nat} :
    RunsInRange (runs ++ [run]) ↔ RunsInRange runs ∧ run.1 + run.2 < 2 ^ 64 := by
  simp [RunsInRange, or_imp, forall_and]

lemma addRun_spec (hruns : RunsInRange runs) (pa n : Nat) (hpa : pa + n < 2 ^ 64) :
    RunsInRange (addRun runs pa n) ∧
      ∀ p, InRuns runs p ∨ pa ≤ p ∧ p < pa + n → InRuns (addRun runs pa n) p := by
  rcases eq_nil_or_concat' runs with rfl | ⟨runs, run, rfl⟩
  · simpa [addRun, RunsInRange, InRuns] using hpa
  obtain ⟨hruns', hrun⟩ := runsInRange_concat.1 hruns
  simp only [addRun, List.getLast?_concat, add64_of_lt hrun, dropLast_concat]
  split <;> rename_i hnext
  · rw [add64_of_lt (show run.2 + n < 2 ^ 64 by omega)]
    refine ⟨runsInRange_concat.2 ⟨hruns', show run.1 + (run.2 + n) < 2 ^ 64 by omega⟩,
      fun p hp => inRuns_concat.2 ?_⟩
    rw [inRuns_concat] at hp
    rcases hp with (hp | hp) | hp
    · exact .inl hp
    · exact .inr ⟨hp.1, by omega⟩
    · exact .inr ⟨by omega, by omega⟩
  · exact ⟨runsInRange_concat.2 ⟨hruns, hpa⟩, fun p hp => inRuns_concat.2 hp⟩

/-- A part that is sorted behind another one starts where that one ends, or later. -/
lemma end_le_of_apart (hapart : rec.Apart rec') (htable : rec.table = rec'.table)
    (hsize : 0 < rec'.size) (hle : rec.va ≤ rec'.va) : rec.va + rec.size ≤ rec'.va := by
  by_contra hlt
  exact hapart rec'.table rec'.va ⟨⟨htable, hle, by omega⟩, rfl, le_rfl, by omega⟩

/-- From the address that is reached, the parts map the rest of the span. -/
lemma stableLoop_spec (table : Nat) {stop : Nat} (parts : List MapRecord) :
    ∀ (reached : Nat) (runs : List (Nat × Nat)),
      (∀ rec ∈ parts, rec.InRange ∧ rec.table = table ∧ 0 < rec.size) →
      parts.Pairwise MapRecord.Apart → (parts.Pairwise fun a b => a.va ≤ b.va) →
      (∀ rec ∈ parts, reached < rec.va + rec.size) → reached ≤ stop → stop < 2 ^ 64 →
      RunsInRange runs → (stableLoop stop parts reached runs).1 = true →
      RunsInRange (stableLoop stop parts reached runs).2 ∧
        (∀ p, InRuns runs p → InRuns (stableLoop stop parts reached runs).2 p) ∧
        ∀ a, reached ≤ a → a < stop → ∃ rec ∈ parts, ∃ p, rec.Maps table a p false ∧
          InRuns (stableLoop stop parts reached runs).2 p := by
  induction parts with
  | nil => simp [stableLoop]
  | cons rec parts ih =>
    intro reached runs hparts hapart hsorted hahead hreached hstop hruns htrue
    obtain ⟨hrec, htable, hsize⟩ := hparts rec mem_cons_self
    have hrecEnd := hahead rec mem_cons_self
    have hpa := hrec.2
    rw [pairwise_cons] at hapart hsorted
    simp only [stableLoop, add64_of_lt hrec.1] at htrue ⊢
    by_cases hskip : (decide (rec.va > reached) || rec.writable) = true
    · simp [hskip] at htrue
    simp only [hskip] at htrue ⊢
    simp only [Bool.or_eq_true, decide_eq_true_eq, not_or, Bool.not_eq_true] at hskip
    have hhi : reached ≤ min (rec.va + rec.size) stop := by omega
    rw [add64_of_lt (show rec.pa + (reached - rec.va) < 2 ^ 64 by omega),
      sub64_of_le hhi (by omega)] at htrue ⊢
    obtain ⟨hruns', hadd⟩ := addRun_spec hruns (rec.pa + (reached - rec.va))
      (min (rec.va + rec.size) stop - reached) (by omega)
    have hmaps : ∀ a, reached ≤ a → a < min (rec.va + rec.size) stop →
        rec.Maps table a (rec.pa + (a - rec.va)) false := fun a hlo hhi' =>
      ⟨⟨htable, by omega, by omega⟩, rfl, hskip.2.symm⟩
    have hcovered : ∀ a, reached ≤ a → a < min (rec.va + rec.size) stop →
        InRuns (addRun runs (rec.pa + (reached - rec.va))
          (min (rec.va + rec.size) stop - reached)) (rec.pa + (a - rec.va)) :=
      fun a hlo hhi' => hadd _ (.inr ⟨by omega, by omega⟩)
    by_cases hlast : min (rec.va + rec.size) stop ≥ stop
    · simp only [hlast, if_true]
      refine ⟨hruns', fun p hp => hadd p (.inl hp), fun a hlo hhi' => ?_⟩
      exact ⟨rec, mem_cons_self, _, hmaps a hlo (by omega), hcovered a hlo (by omega)⟩
    simp only [hlast, if_false] at htrue ⊢
    obtain ⟨hruns'', hkept, hrest⟩ := ih (min (rec.va + rec.size) stop) _
      (fun rec' hrec' => hparts rec' (mem_cons_of_mem rec hrec')) hapart.2 hsorted.2
      (fun rec' hrec' => by
        obtain ⟨-, htable', hsize'⟩ := hparts rec' (mem_cons_of_mem rec hrec')
        have hend := end_le_of_apart (hapart.1 rec' hrec') (htable.trans htable'.symm) hsize'
          (hsorted.1 rec' hrec')
        omega)
      (by omega) hstop hruns' htrue
    refine ⟨hruns'', fun p hp => hkept p (hadd p (.inl hp)), fun a hlo hhi' => ?_⟩
    by_cases hbefore : a < min (rec.va + rec.size) stop
    · exact ⟨rec, mem_cons_self, _, hmaps a hlo hbefore, hkept _ (hcovered a hlo hbefore)⟩
    · obtain ⟨rec', hrec', p, hp⟩ := hrest a (by omega) hhi'
      exact ⟨rec', mem_cons_of_mem rec hrec', p, hp⟩

/-- A span that is accepted is mapped without write permission at every address, and the
physical addresses are in the runs. -/
lemma stableSpan_spec {log : List MapRecord} (hlog : LogWellFormed log)
    (hrange : va + size < 2 ^ 64) (htrue : (stableSpan log table va size).1 = true) :
    RunsInRange (stableSpan log table va size).2 ∧
      ∀ a, va ≤ a → a < va + size → ∃ p, LogMaps log table a p false ∧
        InRuns (stableSpan log table va size).2 p := by
  simp only [stableSpan, add64_of_lt hrange] at htrue ⊢
  have hmem : ∀ rec ∈ (log.filter fun rec =>
      rec.table == table && overlaps rec.va rec.size va size).insertionSort fun a b => a.va ≤ b.va,
      rec ∈ log ∧ rec.table = table ∧ overlaps rec.va rec.size va size = true := by
    simp
  have hover : ∀ rec ∈ log, overlaps rec.va rec.size va size = true → _ := fun rec hrec h =>
    (overlaps_iff (hlog.inRange rec hrec).1 hrange).1 h
  obtain ⟨hruns, -, hspan⟩ := stableLoop_spec table _ va []
    (fun rec hrec => by
      obtain ⟨hlogged, htable, h⟩ := hmem rec hrec
      exact ⟨hlog.inRange rec hlogged, htable, (hover rec hlogged h).1⟩)
    ((perm_insertionSort _ _).symm.pairwise (hlog.apart.filter _) fun {a b} hab => hab.symm)
    (pairwise_insertionSort _ _)
    (fun rec hrec => by
      obtain ⟨hlogged, -, h⟩ := hmem rec hrec
      exact (hover rec hlogged h).2.2.2)
    (Nat.le_add_right va size) hrange (by simp [RunsInRange]) htrue
  refine ⟨hruns, fun a hlo hhi => ?_⟩
  obtain ⟨rec, hrec, p, hmaps, hp⟩ := hspan a hlo hhi
  exact ⟨p, ⟨rec, (hmem rec hrec).1, hmaps⟩, hp⟩

end Drippu.RecompGuardGen
