import Mathlib.Data.List.GetD
import Drippu.Library.Bisection
import Drippu.Recomp.DiscoverBlocksPartition

/-!
# Recomp - Block lookup

The emitted module finds the function of a guest address.  The blocks are emitted in
several translation units, each with a table of the first and the last address of its
blocks.  The lookup searches the unit by the last addresses of the units and then the block
in the table of the unit.  A flat index over all words of the module answers most lookups
without a search; it is built once, if there is memory for it.

A function is named by the address of its block.

Main results:

- Theorem `moduleLookup_spec`: the lookup finds the function of the block of an
  address, with the index and without it.
-/

namespace Drippu.Recomp

open Library List BitVec Function Block

/-! ## Units -/

/-- The translation units that the block loop emits: a unit is finished in front of a block
when it is not empty and `full` for the block, and at the end. -/
def emitUnits (full : List Block → Block → Bool) : List Block → List Block → List (List Block)
  | unit, [] => [unit]
  | unit, b :: rest =>
    if unit ≠ [] ∧ full unit b = true then unit :: emitUnits full [b] rest
    else emitUnits full (unit ++ [b]) rest

/-! ## Tables -/

/-- An entry of the table of a unit. -/
structure Ent where
  lo : BitVec 64
  hi : BitVec 64
  fn : BitVec 64
  deriving DecidableEq, Repr

def Block.ent (b : Block) : Ent where
  lo := b.vaddr
  hi := b.vaddr + BitVec.ofNat 64 (b.count - 1) * 4#64
  fn := b.vaddr

/-- The last address of a unit; zero for the unit of a module without blocks. -/
def segHi (seg : List Ent) : BitVec 64 :=
  match seg.getLast? with
  | some e => e.hi
  | none => 0#64

/-! ## The flat index -/

structure Index where
  lo : BitVec 64
  hi : BitVec 64
  idx : Nat → Option (BitVec 64)

/-- The words of one block. -/
def fillEntry (lo : BitVec 64) (idx : Nat → Option (BitVec 64)) (e : Ent) :
    Nat → Option (BitVec 64) :=
  let count := ((e.hi - e.lo) >>> 2).toNat + 1
  (List.range count).foldl
    (fun idx k =>
      update idx (((e.lo + 4#64 * BitVec.ofNat 64 k) - lo) >>> 2).toNat (some e.fn)) idx

def fill (lo : BitVec 64) (entries : List Ent) : Nat → Option (BitVec 64) :=
  entries.foldl (fillEntry lo) fun _ => none

/-- `_build_idx`; `allocated` says whether there is memory for the index. -/
def buildIdx (segs : List (List Ent)) (allocated : Bool) : Option Index :=
  match segs.head?.bind List.head?, segs.getLast? with
  | some first, some last =>
    if segHi last < first.lo then none
    else if allocated then some ⟨first.lo, segHi last, fill first.lo segs.flatten⟩
    else none
  | _, _ => none

/-! ## The lookup -/

/-- The unit whose last address is the first one that is not below an address. -/
def searchSeg (segs : List (List Ent)) (pc : BitVec 64) : Nat :=
  partitionPoint (fun m => decide (segHi (segs.getD m []) < pc)) 0 segs.length

/-- The number of entries in front of the first one that begins above an address. -/
def searchEnt (seg : List Ent) (pc : BitVec 64) : Nat :=
  partitionPoint (fun m => decide ((seg.getD m ⟨0, 0, 0⟩).lo ≤ pc)) 0 seg.length

def search (segs : List (List Ent)) (pc : BitVec 64) : Option (BitVec 64) :=
  let slo := searchSeg segs pc
  if segs.length ≤ slo then none
  else
    let t := segs.getD slo []
    let lo := searchEnt t pc
    if lo = 0 then none
    else
      let e := t.getD (lo - 1) ⟨0, 0, 0⟩
      if pc ≤ e.hi ∧ (pc - e.lo) &&& 3#64 = 0#64 then some e.fn else none

def recompLookup (segs : List (List Ent)) (index : Option Index) (pc : BitVec 64) :
    Option (BitVec 64) :=
  match index with
  | some i =>
    if i.lo ≤ pc ∧ pc ≤ i.hi ∧ (pc - i.lo) &&& 3#64 = 0#64 then
      i.idx ((pc - i.lo) >>> 2).toNat
    else search segs pc
  | none => search segs pc

/-- The tables that are emitted for a block list. -/
def emitSegs (units : List (List Block)) : List (List Ent) :=
  units.map (List.map ent)

/-- The tables of the module of a text section. -/
def moduleSegs (full : List Block → Block → Bool) (text : List (BitVec 32))
    (base entryPc : BitVec 64) (extraRoots : List (BitVec 64)) : List (List Ent) :=
  emitSegs (emitUnits full [] (discoverBlocks text base entryPc extraRoots))

/-- The lookup of the module; without memory for the index the searches answer. -/
def moduleLookup (full : List Block → Block → Bool) (text : List (BitVec 32))
    (base entryPc : BitVec 64) (extraRoots : List (BitVec 64)) (allocated : Bool)
    (pc : BitVec 64) : Option (BitVec 64) :=
  let segs := moduleSegs full text base entryPc extraRoots
  recompLookup segs (buildIdx segs allocated) pc

/-! ## Cutting into units -/

variable (full : List Block → Block → Bool) (blocks : List Block)

/-- The units are the block list in nonempty pieces; without blocks there is one unit, and
it is empty. -/
lemma emitUnits_spec (unit blocks : List Block) :
    (emitUnits full unit blocks).flatten = unit ++ blocks ∧
      emitUnits full unit blocks ≠ [] ∧
      (unit ++ blocks ≠ [] → ∀ u ∈ emitUnits full unit blocks, u ≠ []) := by
  induction blocks generalizing unit with
  | nil =>
    refine ⟨by simp [emitUnits], by simp [emitUnits], fun h u hu => ?_⟩
    obtain rfl := mem_singleton.1 hu
    simpa using h
  | cons b blocks ih =>
    rw [emitUnits]
    split <;> rename_i hfull
    · obtain ⟨hflat, -, hne⟩ := ih [b]
      refine ⟨by rw [flatten_cons, hflat]; rfl, cons_ne_nil _ _, fun _ u hu => ?_⟩
      rcases mem_cons.1 hu with rfl | hu
      · exact hfull.1
      · exact hne (cons_ne_nil _ _) u hu
    · obtain ⟨hflat, hnil, hne⟩ := ih (unit ++ [b])
      refine ⟨by rw [hflat, List.append_assoc]; rfl, hnil, fun _ => hne (by simp)⟩

/-! ## Ordered tables -/

/-- The entry holds the address of one of its words. -/
def Ent.Holds (e : Ent) (pc : BitVec 64) : Prop :=
  e.lo ≤ pc ∧ pc ≤ e.hi ∧ (pc - e.lo) &&& 3#64 = 0#64

/-- The entries are those of words from a base on, do not overlap and ascend. -/
structure Ordered (base : Nat) (entries : List Ent) : Prop where
  placed : ∀ e ∈ entries, ∃ s m, e.lo.toNat = base + 4 * s ∧ e.hi.toNat = base + 4 * (s + m)
  ascending : entries.Pairwise fun e e' => e.hi < e'.lo

/-- The lookup answers with the entry that holds an address, if there is one. -/
def Answers (entries : List Ent) (pc : BitVec 64) (answer : Option (BitVec 64)) : Prop :=
  (∀ e ∈ entries, e.Holds pc → answer = some e.fn) ∧ ((∀ e ∈ entries, ¬ e.Holds pc) → answer = none)

variable {base : Nat} {segs : List (List Ent)} {pc : BitVec 64} {e : Ent}

lemma Ordered.lo_le_hi {entries : List Ent} (h : Ordered base entries) (he : e ∈ entries) :
    e.lo ≤ e.hi := by
  obtain ⟨s, m, hlo, hhi⟩ := h.placed e he
  rw [le_def]
  omega

variable {seg : List Ent}

section
variable (hlohi : ∀ e ∈ seg, e.lo ≤ e.hi) (hasc : seg.Pairwise fun e e' => e.hi < e'.lo)
include hlohi hasc

/-- The last address of a unit is that of one of its entries, and none is above it. -/
lemma segHi_spec (hne : seg ≠ []) :
    (∃ e ∈ seg, segHi seg = e.hi) ∧ ∀ e ∈ seg, e.hi ≤ segHi seg := by
  obtain ⟨front, last, rfl⟩ := (eq_nil_or_concat seg).resolve_left hne
  have hhi : segHi (front ++ [last]) = last.hi := by
    simp [segHi]
  rw [concat_eq_append] at hasc hlohi ⊢
  have hlast : last ∈ front ++ [last] := mem_append_right _ (mem_singleton_self _)
  refine ⟨⟨last, hlast, hhi⟩, fun e he => ?_⟩
  rw [hhi]
  rcases mem_append.1 he with he | he
  · have hlt := (pairwise_append.1 hasc).2.2 e he last (mem_singleton_self _)
    exact BitVec.le_of_lt (Std.lt_of_lt_of_le hlt (hlohi last hlast))
  · rw [mem_singleton.1 he]
    exact BitVec.le_refl _

/-- In an ascending table the found place is behind the last entry that does not begin
above the address. -/
lemma searchEnt_spec (pc : BitVec 64) :
    searchEnt seg pc ≤ seg.length ∧
      (∀ i (hi : i < seg.length), i < searchEnt seg pc → seg[i].lo ≤ pc) ∧
      (∀ i (hi : i < seg.length), searchEnt seg pc ≤ i → pc < seg[i].lo) := by
  have hget : ∀ i (hi : i < seg.length), seg.getD i ⟨0, 0, 0⟩ = seg[i] :=
    fun i hi => getD_eq_getElem _ _ hi
  have hmono : ∀ i j (hi : i < seg.length) (hj : j < seg.length), i ≤ j →
      seg[i].lo ≤ seg[j].lo := by
    intro i j hi hj hij
    rcases eq_or_lt_of_le hij with rfl | hlt
    · exact BitVec.le_refl _
    · have hlt := pairwise_iff_getElem.1 hasc i j hi hj hlt
      exact BitVec.le_of_lt (Std.lt_of_le_of_lt (hlohi _ (getElem_mem hi)) hlt)
  obtain ⟨-, hle, hbelow, habove⟩ := partitionPoint_spec
    (fun m => decide ((seg.getD m ⟨0, 0, 0⟩).lo ≤ pc)) (Nat.zero_le seg.length)
    fun i j _ hij hj htest => by
      rw [decide_eq_true_eq, hget j hj] at htest
      rw [decide_eq_true_eq, hget i (by omega)]
      exact BitVec.le_trans (hmono i j (by omega) hj hij) htest
  refine ⟨hle, fun i hi hlt => ?_, fun i hi hge => ?_⟩
  · have := hbelow i (Nat.zero_le i) hlt
    rwa [decide_eq_true_eq, hget i hi] at this
  · have := habove i hge hi
    rw [decide_eq_false_iff_not, hget i hi] at this
    exact BitVec.not_le.1 this

lemma getElem_searchEnt (he : e ∈ seg) (hholds : e.Holds pc) :
    ∃ hi : searchEnt seg pc - 1 < seg.length, 0 < searchEnt seg pc ∧
      seg[searchEnt seg pc - 1] = e := by
  obtain ⟨hle, hfront, hback⟩ := searchEnt_spec hlohi hasc pc
  obtain ⟨i, hi, rfl⟩ := getElem_of_mem he
  have hlt : i < searchEnt seg pc := by
    by_contra hge
    exact absurd hholds.1 (BitVec.not_le.2 (hback i hi (by omega)))
  have heq : i = searchEnt seg pc - 1 := by
    by_contra hne
    have hnext : searchEnt seg pc - 1 < seg.length := by omega
    have := pairwise_iff_getElem.1 hasc i _ hi hnext (by omega)
    have := Std.lt_of_lt_of_le this (hfront _ hnext (by omega))
    exact absurd hholds.2.1 (BitVec.not_le.2 this)
  subst heq
  exact ⟨hi, by omega, rfl⟩

end

/-- The entries of one unit, and of two units. -/
structure Segmented (segs : List (List Ent)) : Prop where
  nonempty : ∀ seg ∈ segs, seg ≠ []
  lo_le_hi : ∀ seg ∈ segs, ∀ e ∈ seg, e.lo ≤ e.hi
  within : ∀ seg ∈ segs, seg.Pairwise fun e e' => e.hi < e'.lo
  across : ∀ i j, (hi : i < segs.length) → (hj : j < segs.length) → i < j →
    ∀ e ∈ segs[i], ∀ e' ∈ segs[j], e.hi < e'.lo

lemma Ordered.segmented (h : Ordered base segs.flatten) (hne : ∀ seg ∈ segs, seg ≠ []) :
    Segmented segs where
  nonempty := hne
  lo_le_hi seg hseg _ he := h.lo_le_hi (mem_flatten.2 ⟨seg, hseg, he⟩)
  within seg hseg := (pairwise_flatten.1 h.ascending).1 seg hseg
  across i j hi hj hij e he e' he' :=
    pairwise_iff_getElem.1 (pairwise_flatten.1 h.ascending).2 i j hi hj hij e he e' he'

variable {i : Nat}

section
variable (h : Segmented segs)
include h

section
variable (hi : i < segs.length)
include hi

lemma Segmented.segHi_spec :
    (∃ e ∈ segs[i], segHi segs[i] = e.hi) ∧ ∀ e ∈ segs[i], e.hi ≤ segHi segs[i] :=
  Recomp.segHi_spec (h.lo_le_hi _ (getElem_mem hi)) (h.within _ (getElem_mem hi))
    (h.nonempty _ (getElem_mem hi))

/-- An entry of a later unit begins above the last address of a unit. -/
lemma Segmented.segHi_lt {j : Nat} (hj : j < segs.length) (hij : i < j) (he : e ∈ segs[j]) :
    segHi segs[i] < e.lo := by
  obtain ⟨last, hlast, heq⟩ := (h.segHi_spec hi).1
  rw [heq]
  exact h.across i j hi hj hij last hlast e he

lemma Segmented.segHi_mono {j : Nat} (hj : j < segs.length) (hij : i ≤ j) :
    segHi segs[i] ≤ segHi segs[j] := by
  rcases eq_or_lt_of_le hij with rfl | hlt
  · exact BitVec.le_refl _
  obtain ⟨last, hlast, heq⟩ := (h.segHi_spec hj).1
  have hlt := h.segHi_lt hi hj hlt hlast
  have hle := h.lo_le_hi _ (getElem_mem hj) last hlast
  rw [heq]
  exact BitVec.le_of_lt (Std.lt_of_lt_of_le hlt hle)

end

/-- The units in front of the found one end below the address, the others do not. -/
lemma Segmented.searchSeg_spec (pc : BitVec 64) :
    (∀ i (hi : i < segs.length), i < searchSeg segs pc → segHi segs[i] < pc) ∧
      (∀ i (hi : i < segs.length), searchSeg segs pc ≤ i → pc ≤ segHi segs[i]) := by
  have hget : ∀ i (hi : i < segs.length), segs.getD i [] = segs[i] :=
    fun i hi => getD_eq_getElem _ _ hi
  obtain ⟨-, -, hbelow, habove⟩ := partitionPoint_spec
    (fun m => decide (segHi (segs.getD m []) < pc)) (Nat.zero_le segs.length)
    fun i j _ hij hj htest => by
      rw [decide_eq_true_eq, hget j hj] at htest
      rw [decide_eq_true_eq, hget i (by omega)]
      exact Std.lt_of_le_of_lt (h.segHi_mono (by omega) hj hij) htest
  refine ⟨fun i hi hlt => ?_, fun i hi hle => ?_⟩
  · have := hbelow i (Nat.zero_le i) hlt
    rwa [decide_eq_true_eq, hget i hi] at this
  · have := habove i hle hi
    rw [decide_eq_false_iff_not, hget i hi] at this
    exact BitVec.not_lt.1 this

end

lemma search_empty (pc : BitVec 64) : search [[]] pc = none := by
  rw [search]
  split
  · rfl
  · simp [searchEnt, partitionPoint]

lemma Segmented.mem_searchSeg (h : Segmented segs) (he : e ∈ segs.flatten) (hholds : e.Holds pc) :
    ∃ hlt : searchSeg segs pc < segs.length, e ∈ segs[searchSeg segs pc] := by
  obtain ⟨hbelow, habove⟩ := h.searchSeg_spec pc
  obtain ⟨seg, hseg, he⟩ := mem_flatten.1 he
  obtain ⟨i, hi, rfl⟩ := getElem_of_mem hseg
  rcases Nat.lt_trichotomy i (searchSeg segs pc) with hlt | heq | hgt
  · have := Std.lt_of_le_of_lt ((h.segHi_spec hi).2 e he) (hbelow i hi hlt)
    exact absurd hholds.2.1 (BitVec.not_le.2 this)
  · subst heq
    exact ⟨hi, he⟩
  · have hslo : searchSeg segs pc < segs.length := by omega
    have := Std.lt_of_le_of_lt (habove _ hslo (le_refl _)) (h.segHi_lt hslo hi hgt he)
    exact absurd hholds.1 (BitVec.not_le.2 this)

lemma Segmented.search_spec (h : Segmented segs) (pc : BitVec 64) :
    Answers segs.flatten pc (search segs pc) := by
  rw [search]
  dsimp only
  split <;> rename_i hslo
  · exact ⟨fun e he hholds => absurd (h.mem_searchSeg he hholds).1 (by omega), fun _ => rfl⟩
  have hslo : searchSeg segs pc < segs.length := by omega
  rw [getD_eq_getElem _ _ hslo]
  have hmem := getElem_mem hslo
  have hlohi := h.lo_le_hi _ hmem
  have hasc := h.within _ hmem
  have hplace : ∀ e ∈ segs.flatten, e.Holds pc →
      ∃ hi : searchEnt segs[searchSeg segs pc] pc - 1 < segs[searchSeg segs pc].length,
        0 < searchEnt segs[searchSeg segs pc] pc ∧
          segs[searchSeg segs pc][searchEnt segs[searchSeg segs pc] pc - 1] = e :=
    fun e he hholds => getElem_searchEnt hlohi hasc (h.mem_searchSeg he hholds).2 hholds
  generalize segs[searchSeg segs pc] = seg at hmem hlohi hasc hplace
  obtain ⟨hle, hfront, -⟩ := searchEnt_spec hlohi hasc pc
  split <;> rename_i hzero
  · exact ⟨fun e he hholds => absurd (hplace e he hholds).2.1 (by omega), fun _ => rfl⟩
  have hlast : searchEnt seg pc - 1 < seg.length := by omega
  rw [getD_eq_getElem _ _ hlast]
  split <;> rename_i hcond
  · refine ⟨fun e he hholds => ?_, fun hnone => ?_⟩
    · obtain ⟨_, _, heq⟩ := hplace e he hholds
      rw [heq]
    · have hin : seg[searchEnt seg pc - 1] ∈ segs.flatten :=
        mem_flatten.2 ⟨seg, hmem, getElem_mem hlast⟩
      exact absurd ⟨hfront _ hlast (by omega), hcond⟩ (hnone _ hin)
  · refine ⟨fun e he hholds => ?_, fun _ => rfl⟩
    obtain ⟨_, _, heq⟩ := hplace e he hholds
    rw [heq] at hcond
    exact absurd hholds.2 hcond

/-! ## The index -/

/-- One of the words of the entry has the place in the index. -/
def Ent.Slot (lo : BitVec 64) (e : Ent) (s : Nat) : Prop :=
  ∃ k ∈ List.range (((e.hi - e.lo) >>> 2).toNat + 1),
    (((e.lo + 4#64 * BitVec.ofNat 64 k) - lo) >>> 2).toNat = s

variable {lo : BitVec 64} {s : Nat}

lemma foldl_update_of_ne {α β : Type} {f : α → Nat} {v : β} {l : List α} {idx : Nat → β}
    (h : ∀ a ∈ l, f a ≠ s) : l.foldl (fun idx a => update idx (f a) v) idx s = idx s := by
  induction l generalizing idx with
  | nil => rfl
  | cons a l ih =>
    rw [foldl_cons, ih fun b hb => h b (mem_cons_of_mem a hb)]
    exact update_of_ne (Ne.symm (h a mem_cons_self)) ..

lemma foldl_update_of_mem {α β : Type} {f : α → Nat} {v : β} {l : List α} {idx : Nat → β}
    (h : ∃ a ∈ l, f a = s) : l.foldl (fun idx a => update idx (f a) v) idx s = v := by
  induction l generalizing idx with
  | nil => simp at h
  | cons a l ih =>
    rw [foldl_cons]
    by_cases hl : ∃ b ∈ l, f b = s
    · exact ih hl
    rw [foldl_update_of_ne fun b hb heq => hl ⟨b, hb, heq⟩]
    obtain ⟨b, hb, rfl⟩ := h
    rcases mem_cons.1 hb with rfl | hb
    · exact update_self ..
    · exact absurd ⟨b, hb, rfl⟩ hl

variable {idx : Nat → Option (BitVec 64)}

lemma fillEntry_of_slot (h : e.Slot lo s) : fillEntry lo idx e s = some e.fn :=
  foldl_update_of_mem h

lemma fillEntry_of_not_slot (h : ¬ e.Slot lo s) : fillEntry lo idx e s = idx s :=
  foldl_update_of_ne fun k hk heq => h ⟨k, hk, heq⟩

lemma foldl_fillEntry_of_not_slot {entries : List Ent} (h : ∀ e ∈ entries, ¬ e.Slot lo s) :
    entries.foldl (fillEntry lo) idx s = idx s := by
  induction entries generalizing idx with
  | nil => rfl
  | cons e entries ih =>
    rw [foldl_cons, ih fun e' he' => h e' (mem_cons_of_mem e he')]
    exact fillEntry_of_not_slot (h e mem_cons_self)

/-- A place that belongs to one entry only has its function. -/
lemma foldl_fillEntry_of_slot {entries : List Ent} (he : e ∈ entries) (hslot : e.Slot lo s)
    (hunique : ∀ e' ∈ entries, e'.Slot lo s → e' = e) :
    entries.foldl (fillEntry lo) idx s = some e.fn := by
  induction entries generalizing idx with
  | nil => cases he
  | cons x entries ih =>
    rw [foldl_cons]
    by_cases hin : e ∈ entries
    · exact ih hin fun e' he' => hunique e' (mem_cons_of_mem x he')
    have hmiss : ∀ e' ∈ entries, ¬ e'.Slot lo s := by
      intro e' he' hslot'
      exact hin (hunique e' (mem_cons_of_mem x he') hslot' ▸ he')
    rw [foldl_fillEntry_of_not_slot hmiss]
    rcases mem_cons.1 he with rfl | he
    · exact fillEntry_of_slot hslot
    · exact absurd he hin

variable {entries : List Ent}

lemma and_three_eq_zero_iff (x : BitVec 64) : x &&& 3#64 = 0#64 ↔ x.toNat % 4 = 0 := by
  rw [← toNat_inj, toNat_and]
  exact Iff.of_eq (congrArg (· = 0) (Nat.and_two_pow_sub_one_eq_mod x.toNat 2))

lemma Ent.holds_iff (e : Ent) (pc : BitVec 64) :
    e.Holds pc ↔ e.lo.toNat ≤ pc.toNat ∧ pc.toNat ≤ e.hi.toNat ∧
      (pc.toNat - e.lo.toNat) % 4 = 0 := by
  rw [Ent.Holds, and_three_eq_zero_iff, le_def, le_def]
  refine and_congr_right fun hle => and_congr_right fun _ => ?_
  rw [toNat_sub_of_le (le_def.2 hle)]

lemma Ordered.holds_unique (h : Ordered base entries) {e e' : Ent} (he : e ∈ entries)
    (he' : e' ∈ entries) (hholds : e.Holds pc) (hholds' : e'.Holds pc) : e = e' := by
  have hdisjoint : entries.Pairwise fun e e' => ¬ (e.Holds pc ∧ e'.Holds pc) := by
    refine h.ascending.imp fun hlt hboth => ?_
    exact BitVec.not_le.2 hlt (BitVec.le_trans hboth.2.1 hboth.1.2.1)
  have : Std.Symm fun e e' : Ent => ¬ (e.Holds pc ∧ e'.Holds pc) := ⟨fun _ _ => mt And.symm⟩
  by_contra hne
  exact hdisjoint.forall he he' hne ⟨hholds, hholds'⟩

/-- The place of an address in the index belongs to the entries that hold the address. -/
lemma Ordered.slot_iff (h : Ordered base entries) {e : Ent} (he : e ∈ entries)
    {lo : BitVec 64} (hlo : ∃ s, lo.toNat = base + 4 * s) (hle : lo ≤ e.lo) (hpc : lo ≤ pc)
    (halign : (pc - lo) &&& 3#64 = 0#64) :
    e.Slot lo ((pc - lo) >>> 2).toNat ↔ e.Holds pc := by
  obtain ⟨s, m, helo, hehi⟩ := h.placed e he
  obtain ⟨s₀, hlo⟩ := hlo
  rw [and_three_eq_zero_iff, toNat_sub_of_le hpc] at halign
  rw [le_def] at hle hpc
  have hcount : ((e.hi - e.lo) >>> 2).toNat = m := by
    rw [toNat_ushiftRight, Nat.shiftRight_eq_div_pow, toNat_sub_of_le (h.lo_le_hi he)]
    omega
  have hplace : ∀ k ≤ m,
      (((e.lo + 4#64 * BitVec.ofNat 64 k) - lo) >>> 2).toNat = s - s₀ + k := by
    intro k hk
    have hadd : (e.lo + 4#64 * BitVec.ofNat 64 k).toNat = base + 4 * (s + k) := by
      rw [toNat_add, toNat_mul, toNat_ofNat, toNat_ofNat]
      omega
    rw [toNat_ushiftRight, Nat.shiftRight_eq_div_pow,
      toNat_sub_of_le (by rw [le_def, hadd]; omega), hadd]
    omega
  have hslot : ((pc - lo) >>> 2).toNat = (pc.toNat - lo.toNat) / 4 := by
    rw [toNat_ushiftRight, Nat.shiftRight_eq_div_pow, toNat_sub_of_le (le_def.2 hpc)]
  rw [Ent.Slot, hcount, hslot, Ent.holds_iff]
  constructor
  · rintro ⟨k, hk, heq⟩
    rw [hplace k (by rw [mem_range] at hk; omega)] at heq
    rw [mem_range] at hk
    omega
  · rintro ⟨hge, hhi, hrem⟩
    refine ⟨(pc.toNat - e.lo.toNat) / 4, mem_range.2 (by omega), ?_⟩
    rw [hplace _ (by omega)]
    omega

lemma buildIdx_false (segs : List (List Ent)) : buildIdx segs false = none := by
  unfold buildIdx
  split
  · simp
  · rfl

/-- The index begins at the first entry and has the words of all entries. -/
lemma buildIdx_spec (h : Ordered base segs.flatten) {allocated : Bool} {i : Index}
    (hi : buildIdx segs allocated = some i) :
    (∃ s, i.lo.toNat = base + 4 * s) ∧ (∀ e ∈ segs.flatten, i.lo ≤ e.lo) ∧
      i.idx = fill i.lo segs.flatten := by
  unfold buildIdx at hi
  split at hi
  · rename_i first last hfirst hlast
    obtain ⟨t, rest, rfl⟩ : ∃ t rest, segs = (first :: t) :: rest := by
      cases segs with
      | nil => cases hfirst
      | cons seg rest =>
        cases seg with
        | nil => cases hfirst
        | cons e t =>
          obtain rfl : e = first := Option.some.inj hfirst
          exact ⟨t, rest, rfl⟩
    split at hi
    · cases hi
    split at hi
    · obtain rfl := Option.some.inj hi
      have hmem : first ∈ ((first :: t) :: rest).flatten := mem_cons_self
      obtain ⟨s, m, hlo, -⟩ := h.placed first hmem
      refine ⟨⟨s, hlo⟩, fun e he => ?_, rfl⟩
      rcases mem_cons.1 he with rfl | he'
      · exact BitVec.le_refl _
      · have hlt := (pairwise_cons.1 h.ascending).1 e he'
        exact BitVec.le_of_lt (Std.lt_of_le_of_lt (h.lo_le_hi hmem) hlt)
    · cases hi
  · cases hi

/-- The lookup finds the entry that holds an address, with the index and without it. -/
lemma Ordered.recompLookup_answers (h : Ordered base segs.flatten)
    (hsegs : segs = [[]] ∨ ∀ seg ∈ segs, seg ≠ []) (allocated : Bool) (pc : BitVec 64) :
    Answers segs.flatten pc (recompLookup segs (buildIdx segs allocated) pc) := by
  have hsearch : Answers segs.flatten pc (search segs pc) := by
    rcases hsegs with rfl | hne
    · rw [search_empty]
      exact ⟨fun e he => absurd he not_mem_nil, fun _ => rfl⟩
    · exact (h.segmented hne).search_spec pc
  cases hindex : buildIdx segs allocated with
  | none => exact hsearch
  | some i =>
    obtain ⟨hlo, hfirst, hidx⟩ := buildIdx_spec h hindex
    rw [recompLookup]
    split <;> rename_i hin
    · have hslot : ∀ e ∈ segs.flatten, (e.Slot i.lo ((pc - i.lo) >>> 2).toNat ↔ e.Holds pc) :=
        fun e he => h.slot_iff he hlo (hfirst e he) hin.1 hin.2.2
      rw [hidx]
      refine ⟨fun e he hholds => ?_, fun hnone => ?_⟩
      · exact foldl_fillEntry_of_slot he ((hslot e he).2 hholds) fun e' he' hslot' =>
          h.holds_unique he' he ((hslot e' he').1 hslot') hholds
      · exact foldl_fillEntry_of_not_slot fun e he hslot' => hnone e he ((hslot e he).1 hslot')
    · exact hsearch

/-! ## Discovered blocks -/

/-- The address of one of the instruction words of the block. -/
def Block.HasWord (b : Block) (pc : BitVec 64) : Prop :=
  ∃ k < b.count, pc = b.vaddr + BitVec.ofNat 64 (4 * k)

section
variable {text : List (BitVec 32)} {base entryPc : BitVec 64} {extraRoots : List (BitVec 64)}

lemma flatten_emitSegs : (emitSegs (emitUnits full [] blocks)).flatten = blocks.map ent := by
  rw [emitSegs, ← map_flatten, (emitUnits_spec full [] blocks).1, nil_append]

lemma emitSegs_nonempty :
    emitSegs (emitUnits full [] blocks) = [[]] ∨
      ∀ seg ∈ emitSegs (emitUnits full [] blocks), seg ≠ [] := by
  by_cases hblocks : blocks = []
  · subst hblocks
    exact .inl rfl
  · refine .inr fun seg hseg => ?_
    obtain ⟨unit, hunit, rfl⟩ := mem_map.1 hseg
    exact List.map_eq_nil_iff.not.2 ((emitUnits_spec full [] blocks).2.2 hblocks unit hunit)

variable (hwrap : base.toNat + 4 * wordCount text ≤ 2 ^ 64)
include hwrap

variable {b : Block}

lemma block_placed (hb : b ∈ discoverBlocks text base entryPc extraRoots) :
    ∃ s m, b.count = m + 1 ∧ b.vaddr.toNat = base.toNat + 4 * s ∧
      b.ent.hi.toNat = base.toNat + 4 * (s + m) := by
  obtain ⟨s, hs, -, rfl⟩ := mem_discoverBlocks.1 hb
  have hsn := pieces_lt _ hs
  obtain ⟨hsucc, hle, -, -⟩ := blockEnd_spec (marksOf text base entryPc extraRoots) hsn
  have hvaddr : (address base s).toNat = base.toNat + 4 * s := toNat_address base (by omega)
  refine ⟨s, blockEnd text (marksOf text base entryPc extraRoots) s - s - 1, ?_, hvaddr, ?_⟩
  · simp only [blockAt]
    omega
  · simp only [ent, blockAt]
    rw [toNat_add, toNat_mul, hvaddr, toNat_ofNat, toNat_ofNat]
    omega

lemma ordered_blocks :
    Ordered base.toNat ((discoverBlocks text base entryPc extraRoots).map ent) where
  placed e he := by
    obtain ⟨b, hb, rfl⟩ := mem_map.1 he
    obtain ⟨s, m, -, hlo, hhi⟩ := block_placed hwrap hb
    exact ⟨s, m, hlo, hhi⟩
  ascending := by
    rw [pairwise_map]
    refine (pairwise_of_not_wrap hwrap).imp_of_mem fun {b b'} hb _ hlt => ?_
    obtain ⟨s, m, hcount, hlo, hhi⟩ := block_placed hwrap hb
    change _ < b'.vaddr.toNat
    omega

lemma holds_ent_iff (hb : b ∈ discoverBlocks text base entryPc extraRoots) (pc : BitVec 64) :
    b.ent.Holds pc ↔ b.HasWord pc := by
  obtain ⟨s, m, hcount, hlo, hhi⟩ := block_placed hwrap hb
  have hlo' : b.ent.lo.toNat = base.toNat + 4 * s := hlo
  have hword : ∀ k ≤ m, (b.vaddr + BitVec.ofNat 64 (4 * k)).toNat = base.toNat + 4 * (s + k) := by
    intro k hk
    rw [toNat_add, toNat_ofNat, hlo]
    omega
  rw [Ent.holds_iff, hlo', hhi]
  constructor
  · rintro ⟨hge, hle, hrem⟩
    refine ⟨(pc.toNat - (base.toNat + 4 * s)) / 4, by omega, ?_⟩
    apply eq_of_toNat_eq
    rw [hword _ (by omega)]
    omega
  · rintro ⟨k, hk, rfl⟩
    rw [hword k (by omega)]
    omega

lemma block_unique {b' : Block} (hb : b ∈ discoverBlocks text base entryPc extraRoots)
    (hb' : b' ∈ discoverBlocks text base entryPc extraRoots) {pc : BitVec 64} (hword : b.HasWord pc)
    (hword' : b'.HasWord pc) : b = b' := by
  have hent : b.ent = b'.ent :=
    (ordered_blocks hwrap).holds_unique (mem_map_of_mem hb) (mem_map_of_mem hb')
      ((holds_ent_iff hwrap hb pc).2 hword) ((holds_ent_iff hwrap hb' pc).2 hword')
  have hnodup : ((discoverBlocks text base entryPc extraRoots).map Block.vaddr).Nodup :=
    pairwise_map.2 ((pairwise_of_not_wrap hwrap).imp fun h => BitVec.ne_of_lt h.1)
  exact inj_on_of_nodup_map hnodup hb hb' (congrArg Ent.lo hent)

lemma moduleLookup_answers (full : List Block → Block → Bool) (allocated : Bool) (pc : BitVec 64) :
    (∀ b ∈ discoverBlocks text base entryPc extraRoots, b.HasWord pc →
      moduleLookup full text base entryPc extraRoots allocated pc = some b.vaddr) ∧
    ((∀ b ∈ discoverBlocks text base entryPc extraRoots, ¬ b.HasWord pc) →
      moduleLookup full text base entryPc extraRoots allocated pc = none) := by
  have hflat : (moduleSegs full text base entryPc extraRoots).flatten =
      (discoverBlocks text base entryPc extraRoots).map ent := flatten_emitSegs full _
  have hord : Ordered base.toNat (moduleSegs full text base entryPc extraRoots).flatten := by
    rw [hflat]
    exact ordered_blocks hwrap
  obtain ⟨hfound, hnone⟩ := hord.recompLookup_answers (emitSegs_nonempty full _) allocated pc
  rw [hflat] at hfound hnone
  refine ⟨fun b hb hword => ?_, fun h => hnone fun e he => ?_⟩
  · exact hfound b.ent (mem_map_of_mem hb) ((holds_ent_iff hwrap hb pc).2 hword)
  · obtain ⟨b, hb, rfl⟩ := mem_map.1 he
    exact fun hholds => h b hb ((holds_ent_iff hwrap hb pc).1 hholds)

end

/-- For the blocks of a section whose addresses do not wrap around, cut into units in any
way, the lookup of an address answers with the function of the one block that has a word at
the address, and with null when no block has; and it gives the same answer with the index as
without it. -/
theorem moduleLookup_spec (text : List (BitVec 32)) (base entryPc : BitVec 64)
    (extraRoots : List (BitVec 64)) (hwrap : base.toNat + 4 * wordCount text ≤ 2 ^ 64)
    (full : List Block → Block → Bool) (allocated : Bool) (pc : BitVec 64) :
    (∀ b ∈ discoverBlocks text base entryPc extraRoots, b.HasWord pc →
      moduleLookup full text base entryPc extraRoots allocated pc = some b.vaddr ∧
        ∀ b' ∈ discoverBlocks text base entryPc extraRoots, b'.HasWord pc → b' = b) ∧
    ((∀ b ∈ discoverBlocks text base entryPc extraRoots, ¬ b.HasWord pc) →
      moduleLookup full text base entryPc extraRoots allocated pc = none) ∧
    moduleLookup full text base entryPc extraRoots allocated pc =
      search (moduleSegs full text base entryPc extraRoots) pc := by
  obtain ⟨hfound, hnone⟩ := moduleLookup_answers hwrap full allocated pc
  obtain ⟨hfound', hnone'⟩ := moduleLookup_answers hwrap full false pc
  have hsearch : moduleLookup full text base entryPc extraRoots false pc =
      search (moduleSegs full text base entryPc extraRoots) pc := by
    rw [moduleLookup, buildIdx_false]
    rfl
  refine ⟨fun b hb hword => ⟨hfound b hb hword, fun b' hb' hword' =>
    block_unique hwrap hb' hb hword' hword⟩, hnone, ?_⟩
  rw [← hsearch]
  by_cases h : ∃ b ∈ discoverBlocks text base entryPc extraRoots, b.HasWord pc
  · obtain ⟨b, hb, hword⟩ := h
    rw [hfound b hb hword, hfound' b hb hword]
  · have hall : ∀ b ∈ discoverBlocks text base entryPc extraRoots, ¬ b.HasWord pc :=
      fun b hb hword => h ⟨b, hb, hword⟩
    rw [hnone hall, hnone' hall]

/-- RET and NOP, one unit a block: the lookup of the second word. -/
theorem moduleLookup_second :
    moduleLookup (fun _ _ => true) [0xD65F03C0#32, 0xD503201F#32] 0x1000#64 0 [] true 0x1004#64 =
      some 0x1004#64 := by
  have hspec := moduleLookup_spec [0xD65F03C0#32, 0xD503201F#32] 0x1000#64 0 [] (by decide)
    (fun _ _ => true) true 0x1004#64
  exact (hspec.1 ⟨0x1004, 4, 1, false⟩ (by decide) ⟨0, by decide, by decide⟩).1

/-- Two NOPs at the last word of the address space are one block, and the block ends at
address zero: the lookup of its first word finds nothing. -/
theorem moduleLookup_wrapped :
    (⟨0xFFFFFFFFFFFFFFFC, 8, 2, true⟩ : Block) ∈
        discoverBlocks [0xD503201F#32, 0xD503201F#32] 0xFFFFFFFFFFFFFFFC#64 0 [] ∧
      Block.HasWord ⟨0xFFFFFFFFFFFFFFFC, 8, 2, true⟩ 0xFFFFFFFFFFFFFFFC#64 ∧
      moduleLookup (fun _ _ => false) [0xD503201F#32, 0xD503201F#32] 0xFFFFFFFFFFFFFFFC#64 0 []
        true 0xFFFFFFFFFFFFFFFC#64 = none := by
  refine ⟨by decide, ⟨0, by decide, by decide⟩, ?_⟩
  have hsegs : moduleSegs (fun _ _ => false) [0xD503201F#32, 0xD503201F#32]
      0xFFFFFFFFFFFFFFFC#64 0 [] = [[⟨0xFFFFFFFFFFFFFFFC, 0, 0xFFFFFFFFFFFFFFFC⟩]] := by
    decide
  rw [moduleLookup, hsegs]
  simp [recompLookup, buildIdx, search, searchSeg, partitionPoint, segHi]

end Drippu.Recomp
