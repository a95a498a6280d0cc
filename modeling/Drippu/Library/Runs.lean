import Mathlib.Tactic

/-!
# Library - Runs of numbers and sweeps

A set of numbers is handed over as a list of runs, each with its start and its length.
Runs that touch are coalesced into maximal ones: a run that starts where the current one
stops extends it, and any other run takes its place.
-/

namespace Drippu.Library

open List

namespace Runs

/-- A number lies in a run. -/
def Has (r : Nat × Nat) (x : Nat) : Prop :=
  r.1 ≤ x ∧ x < r.1 + r.2

instance (r : Nat × Nat) (x : Nat) : Decidable (Has r x) :=
  inferInstanceAs (Decidable (_ ∧ _))

/-- A number lies in one of the runs. -/
def Covered (rs : List (Nat × Nat)) (x : Nat) : Prop :=
  ∃ r ∈ rs, Has r x

instance (rs : List (Nat × Nat)) (x : Nat) : Decidable (Covered rs x) :=
  inferInstanceAs (Decidable (∃ r ∈ rs, Has r x))

/-- Non-empty runs, each behind the one before. -/
structure Ascending (rs : List (Nat × Nat)) : Prop where
  pos : ∀ r ∈ rs, 0 < r.2
  sorted : rs.Pairwise fun r s => r.1 + r.2 ≤ s.1

/-- Non-empty runs with a number between each and the next. -/
structure Maximal (rs : List (Nat × Nat)) : Prop where
  pos : ∀ r ∈ rs, 0 < r.2
  sorted : rs.Pairwise fun r s => r.1 + r.2 < s.1

variable {r s : Nat × Nat} {rs ss : List (Nat × Nat)} {x : Nat}

/-! ## Lists of runs -/

@[simp]
lemma covered_nil : ¬ Covered [] x :=
  nofun

@[simp]
lemma covered_cons : Covered (r :: rs) x ↔ Has r x ∨ Covered rs x := by
  simp [Covered]

@[simp]
lemma covered_append : Covered (rs ++ ss) x ↔ Covered rs x ∨ Covered ss x := by
  simp [Covered, or_and_right, exists_or]

lemma covered_flatMap {ι : Type} {l : List ι} {f : ι → List (Nat × Nat)} :
    Covered (l.flatMap f) x ↔ ∃ i ∈ l, Covered (f i) x := by
  constructor
  · rintro ⟨r, hr, hx⟩
    obtain ⟨i, hi, hr⟩ := mem_flatMap.1 hr
    exact ⟨i, hi, r, hr, hx⟩
  · rintro ⟨i, hi, r, hr, hx⟩
    exact ⟨r, mem_flatMap.2 ⟨i, hi, hr⟩, hx⟩

lemma Ascending.nil : Ascending [] :=
  ⟨nofun, List.Pairwise.nil⟩

lemma ascending_cons :
    Ascending (r :: rs) ↔ 0 < r.2 ∧ (∀ s ∈ rs, r.1 + r.2 ≤ s.1) ∧ Ascending rs := by
  constructor
  · rintro ⟨hpos, hsorted⟩
    obtain ⟨hr, hsorted⟩ := pairwise_cons.1 hsorted
    exact ⟨hpos r mem_cons_self, hr, fun s hs => hpos s (mem_cons_of_mem _ hs), hsorted⟩
  · rintro ⟨hr, hle, hpos, hsorted⟩
    exact ⟨forall_mem_cons.2 ⟨hr, hpos⟩, pairwise_cons.2 ⟨hle, hsorted⟩⟩

lemma Maximal.ascending (h : Maximal rs) : Ascending rs :=
  ⟨h.pos, h.sorted.imp fun hlt => le_of_lt hlt⟩

lemma Ascending.append (hr : Ascending rs) (hs : Ascending ss)
    (hle : ∀ r ∈ rs, ∀ s ∈ ss, r.1 + r.2 ≤ s.1) : Ascending (rs ++ ss) where
  pos := fun r h => (mem_append.1 h).elim (hr.pos r) (hs.pos r)
  sorted := pairwise_append.2 ⟨hr.sorted, hs.sorted, hle⟩

/-- Ascending runs cover a number at most once. -/
lemma Ascending.countP_eq (h : Ascending rs) (x : Nat) :
    rs.countP (fun r => decide (Has r x)) = if Covered rs x then 1 else 0 := by
  induction rs with
  | nil => simp
  | cons r rs ih =>
    obtain ⟨-, hle, hrs⟩ := ascending_cons.1 h
    rw [countP_cons, ih hrs]
    by_cases hx : Has r x
    · have hnone : ¬ Covered rs x := by
        rintro ⟨s, hs, hsx⟩
        have := hle s hs
        have := hx.2
        have := hsx.1
        omega
      simp [hnone]
    · simp [hx]

/-! ## Coalescing -/

/-- The runs behind a current one. -/
def coalesceFrom (r : Nat × Nat) : List (Nat × Nat) → List (Nat × Nat)
  | [] => [r]
  | s :: rs => if r.1 + r.2 = s.1 then coalesceFrom (r.1, r.2 + s.2) rs else r :: coalesceFrom s rs

/-- Runs that touch become one. -/
def coalesce : List (Nat × Nat) → List (Nat × Nat)
  | [] => []
  | r :: rs => coalesceFrom r rs

lemma covered_coalesceFrom (r : Nat × Nat) (rs : List (Nat × Nat)) (x : Nat) :
    Covered (coalesceFrom r rs) x ↔ Has r x ∨ Covered rs x := by
  induction rs generalizing r with
  | nil => simp [coalesceFrom]
  | cons s rs ih =>
    rw [coalesceFrom]
    split <;> rename_i htouch
    · rw [ih, covered_cons, ← or_assoc]
      refine or_congr_left ?_
      simp only [Has]
      omega
    · rw [covered_cons, ih, covered_cons]

lemma covered_coalesce (rs : List (Nat × Nat)) (x : Nat) :
    Covered (coalesce rs) x ↔ Covered rs x := by
  cases rs with
  | nil => rfl
  | cons r rs => rw [coalesce, covered_coalesceFrom, covered_cons]

lemma coalesceFrom_start_le (r : Nat × Nat) (h : Ascending (r :: rs)) :
    ∀ s ∈ coalesceFrom r rs, r.1 ≤ s.1 := by
  induction rs generalizing r with
  | nil => simp [coalesceFrom]
  | cons s rs ih =>
    obtain ⟨hpos, hle, hrs⟩ := ascending_cons.1 h
    obtain ⟨hspos, hsle, htail⟩ := ascending_cons.1 hrs
    have hrs' := hle s mem_cons_self
    rw [coalesceFrom]
    split <;> rename_i htouch
    · refine ih _ (ascending_cons.2 ⟨by omega, fun t ht => ?_, htail⟩)
      have := hsle t ht
      omega
    · refine forall_mem_cons.2 ⟨le_refl _, fun t ht => ?_⟩
      have := ih s hrs t ht
      omega

lemma Ascending.coalesceFrom (h : Ascending (r :: rs)) : Maximal (coalesceFrom r rs) := by
  induction rs generalizing r with
  | nil => exact ⟨h.pos, pairwise_singleton _ _⟩
  | cons s rs ih =>
    obtain ⟨hpos, hle, hrs⟩ := ascending_cons.1 h
    obtain ⟨hspos, hsle, htail⟩ := ascending_cons.1 hrs
    have hrs' := hle s mem_cons_self
    rw [Runs.coalesceFrom]
    split <;> rename_i htouch
    · refine ih (ascending_cons.2 ⟨by omega, fun t ht => ?_, htail⟩)
      have := hsle t ht
      omega
    · have hmax := ih hrs
      refine ⟨forall_mem_cons.2 ⟨hpos, hmax.pos⟩, pairwise_cons.2 ⟨fun t ht => ?_, hmax.sorted⟩⟩
      have := coalesceFrom_start_le s hrs t ht
      omega

/-- Ascending runs coalesce into maximal ones. -/
lemma Ascending.coalesce (h : Ascending rs) : Maximal (coalesce rs) := by
  cases rs with
  | nil => exact ⟨nofun, List.Pairwise.nil⟩
  | cons r rs => exact h.coalesceFrom

/-! ## Other units -/

/-- A run in larger units from a base on. -/
def place (base unit : Nat) (r : Nat × Nat) : Nat × Nat :=
  (base + r.1 * unit, r.2 * unit)

lemma coalesceFrom_map_place {unit : Nat} (hunit : 0 < unit) (base : Nat) (r : Nat × Nat)
    (rs : List (Nat × Nat)) :
    coalesceFrom (place base unit r) (rs.map (place base unit)) =
      (coalesceFrom r rs).map (place base unit) := by
  induction rs generalizing r with
  | nil => rfl
  | cons s rs ih =>
    have htouch : base + r.1 * unit + r.2 * unit = base + s.1 * unit ↔ r.1 + r.2 = s.1 := by
      rw [add_assoc, ← add_mul, Nat.add_left_cancel_iff,
        Nat.mul_left_inj (ne_of_gt hunit)]
    rw [map_cons, coalesceFrom, coalesceFrom]
    simp only [place, htouch]
    split
    · rw [← add_mul]
      exact ih (r.1, r.2 + s.2)
    · exact congrArg _ (ih s)

lemma coalesce_map_place {unit : Nat} (hunit : 0 < unit) (base : Nat) (rs : List (Nat × Nat)) :
    coalesce (rs.map (place base unit)) = (coalesce rs).map (place base unit) := by
  cases rs with
  | nil => rfl
  | cons r rs => exact coalesceFrom_map_place hunit base r rs

/-! ## Hulls -/

/-- The least and the greatest number of a set. -/
structure IsHull (S : Nat → Prop) (lo hi : Nat) : Prop where
  lo_mem : S lo
  hi_mem : S hi
  bounds : ∀ x, S x → lo ≤ x ∧ x ≤ hi

lemma IsHull.union {S T : Nat → Prop} {lo hi lo' hi' : Nat} (h : IsHull S lo hi)
    (h' : IsHull T lo' hi') :
    IsHull (fun x => S x ∨ T x) (min lo lo') (max hi hi') where
  lo_mem := by
    rcases le_total lo lo' with hle | hle
    · exact .inl (by rw [min_eq_left hle]; exact h.lo_mem)
    · exact .inr (by rw [min_eq_right hle]; exact h'.lo_mem)
  hi_mem := by
    rcases le_total hi hi' with hle | hle
    · exact .inr (by rw [max_eq_right hle]; exact h'.hi_mem)
    · exact .inl (by rw [max_eq_left hle]; exact h.hi_mem)
  bounds := by
    rintro x (hx | hx)
    · have := h.bounds x hx
      omega
    · have := h'.bounds x hx
      omega

lemma IsHull.congr {S T : Nat → Prop} {lo hi : Nat} (h : IsHull S lo hi)
    (hST : ∀ x, S x ↔ T x) : IsHull T lo hi :=
  ⟨(hST lo).1 h.lo_mem, (hST hi).1 h.hi_mem, fun x hx => h.bounds x ((hST x).2 hx)⟩

end Runs

/-! ## Sweeps over cells

A loop goes over items, each with a cell of its own.  It rewrites the cell and collects
something from what the cell held before.  As no cell is visited twice, every item finds
its cell as it was before the loop. -/

variable {ι α β : Type} (key : ι → Nat) (write : ι → α → α) (collect : ι → α → β → β)

/-- The loop over some items. -/
def sweep (items : List ι) (cells : Nat → α) (acc : β) : (Nat → α) × β :=
  items.foldl (fun st i =>
    (Function.update st.1 (key i) (write i (st.1 (key i))), collect i (st.1 (key i)) st.2))
    (cells, acc)

variable {key write collect} {items : List ι} {cells : Nat → α} {acc : β}

@[simp]
lemma sweep_cons (i : ι) :
    sweep key write collect (i :: items) cells acc =
      sweep key write collect items (Function.update cells (key i) (write i (cells (key i))))
        (collect i (cells (key i)) acc) :=
  rfl

lemma sweep_fst_of_keep (hkeep : ∀ i c, write i c = c) :
    (sweep key write collect items cells acc).1 = cells := by
  induction items generalizing acc with
  | nil => rfl
  | cons i items ih => rw [sweep_cons, hkeep, Function.update_eq_self, ih]

lemma sweep_fst_of_not_mem {c : Nat} (h : ∀ i ∈ items, key i ≠ c) :
    (sweep key write collect items cells acc).1 c = cells c := by
  induction items generalizing cells acc with
  | nil => rfl
  | cons i items ih =>
    obtain ⟨hi, h⟩ := forall_mem_cons.1 h
    rw [sweep_cons, ih h, Function.update_of_ne hi.symm]

lemma sweep_fst_of_mem (hnodup : (items.map key).Nodup) {i : ι} (hi : i ∈ items) :
    (sweep key write collect items cells acc).1 (key i) = write i (cells (key i)) := by
  induction items generalizing cells acc with
  | nil => cases hi
  | cons j items ih =>
    rw [map_cons, nodup_cons] at hnodup
    have hne : ∀ i ∈ items, key i ≠ key j := fun i hi heq => hnodup.1 (heq ▸ mem_map_of_mem hi)
    rw [sweep_cons]
    rcases mem_cons.1 hi with rfl | hi
    · rw [sweep_fst_of_not_mem hne, Function.update_self]
    · rw [ih hnodup.2 hi, Function.update_of_ne (hne i hi)]

/-- What a sweep collects is what the cells held before. -/
lemma sweep_snd (hnodup : (items.map key).Nodup) :
    (sweep key write collect items cells acc).2 =
      items.foldl (fun acc i => collect i (cells (key i)) acc) acc := by
  induction items generalizing cells acc with
  | nil => rfl
  | cons j items ih =>
    rw [map_cons, nodup_cons] at hnodup
    rw [sweep_cons, ih hnodup.2, foldl_cons]
    refine foldl_ext _ _ _ fun b i hi => ?_
    have hne : key i ≠ key j := fun heq => hnodup.1 (heq ▸ mem_map_of_mem hi)
    rw [Function.update_of_ne hne]

end Drippu.Library
