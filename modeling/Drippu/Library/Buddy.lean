import Mathlib.Tactic

/-!
# Library - Buddy systems

A buddy system divides the same numbers into blocks in several ways: at level
`i` the number `a` lies in block `a / size i`.  A state says which
blocks are held at each level.  It is exclusive when no number is covered by held
blocks of two levels; the number of covered numbers is then the sum of the sizes of
the held blocks.
-/

namespace Drippu.Library.Buddy

open Finset

/-- The held blocks: `held i n` for block `n` of level `i`. -/
abbrev Held := Nat → Nat → Prop

variable {levels : Nat} {size : Nat → Nat} {held held' : Held}

/-- Some held block covers the number. -/
def Covers (levels : Nat) (size : Nat → Nat) (held : Held) (a : Nat) : Prop :=
  ∃ i, i < levels ∧ held i (a / size i)

/-- No number is covered at two levels. -/
def Exclusive (levels : Nat) (size : Nat → Nat) (held : Held) : Prop :=
  ∀ a i j, i < levels → j < levels → held i (a / size i) → held j (a / size j) → i = j

variable {a i n s : Nat}

lemma div_eq_iff_range (hs : 0 < s) : a / s = n ↔ n * s ≤ a ∧ a < n * s + s := by
  rw [Nat.div_eq_iff hs]
  omega

lemma covers_insert (hi : i < levels) (hheld : ∀ j m, held' j m ↔ held j m ∨ (j = i ∧ m = n)) :
    Covers levels size held' a ↔ Covers levels size held a ∨ a / size i = n := by
  constructor
  · rintro ⟨j, hj, hm⟩
    rcases (hheld _ _).1 hm with hm | ⟨rfl, hm⟩
    · exact .inl ⟨j, hj, hm⟩
    · exact .inr hm
  · rintro (⟨j, hj, hm⟩ | hn)
    · exact ⟨j, hj, (hheld _ _).2 (.inl hm)⟩
    · exact ⟨i, hi, (hheld _ _).2 (.inr ⟨rfl, hn⟩)⟩

/-- Adding a block none of whose numbers is covered. -/
lemma Exclusive.insert (h : Exclusive levels size held)
    (hfresh : ∀ a, a / size i = n → ¬ Covers levels size held a)
    (hheld : ∀ j m, held' j m ↔ held j m ∨ (j = i ∧ m = n)) : Exclusive levels size held' := by
  intro a j k hj hk hmj hmk
  rcases (hheld _ _).1 hmj with hmj | ⟨rfl, hmj⟩ <;>
    rcases (hheld _ _).1 hmk with hmk | ⟨rfl, hmk⟩
  · exact h a j k hj hk hmj hmk
  · exact absurd ⟨j, hj, hmj⟩ (hfresh a hmk)
  · exact absurd ⟨k, hk, hmk⟩ (hfresh a hmj)
  · rfl

lemma Exclusive.mono (h : Exclusive levels size held)
    (hheld : ∀ j m, held' j m → held j m) : Exclusive levels size held' :=
  fun a i j hi hj hmi hmj => h a i j hi hj (hheld _ _ hmi) (hheld _ _ hmj)

/-- Taking blocks away from one level: in an exclusive state nothing else covers
their numbers. -/
lemma covers_remove (gone : Nat → Prop) (h : Exclusive levels size held) (hi : i < levels)
    (hgone : gone (a / size i) → held i (a / size i))
    (hheld : ∀ j m, held' j m ↔ held j m ∧ ¬ (j = i ∧ gone m)) :
    Covers levels size held' a ↔ Covers levels size held a ∧ ¬ gone (a / size i) := by
  constructor
  · rintro ⟨j, hj, hm⟩
    obtain ⟨hm, hkept⟩ := (hheld _ _).1 hm
    refine ⟨⟨j, hj, hm⟩, fun hg => hkept ?_⟩
    obtain rfl := h a j i hj hi hm (hgone hg)
    exact ⟨rfl, hg⟩
  · rintro ⟨⟨j, hj, hm⟩, hkept⟩
    refine ⟨j, hj, (hheld _ _).2 ⟨hm, ?_⟩⟩
    rintro ⟨rfl, hg⟩
    exact hkept hg

/-! ## Counting -/

/-- The numbers of the blocks of a finite set. -/
def blockRange (s : Nat) (blocks : Finset Nat) : Finset Nat :=
  blocks.biUnion fun n => Finset.Ico (n * s) (n * s + s)

lemma mem_blockRange (hs : 0 < s) {blocks : Finset Nat} :
    a ∈ blockRange s blocks ↔ a / s ∈ blocks := by
  simp only [blockRange, mem_biUnion, mem_Ico]
  constructor
  · rintro ⟨n, hn, hrange⟩
    rwa [(div_eq_iff_range hs).2 hrange]
  · intro h
    exact ⟨a / s, h, (div_eq_iff_range hs).1 rfl⟩

lemma card_blockRange (hs : 0 < s) (blocks : Finset Nat) :
    (blockRange s blocks).card = blocks.card * s := by
  rw [blockRange, card_biUnion]
  · simp
  · intro n _ m _ hne
    refine disjoint_left.2 fun a hn hm => hne ?_
    rw [mem_Ico, ← div_eq_iff_range hs] at hn hm
    rw [← hn, hm]

/-- The covered numbers of an exclusive state, counted level by level. -/
lemma Exclusive.card_covered (h : Exclusive levels size held)
    (hsize : ∀ i, i < levels → 0 < size i) (blocks : Nat → Finset Nat)
    (hblocks : ∀ i n, i < levels → (n ∈ blocks i ↔ held i n)) (covered : Finset Nat)
    (hcovered : ∀ a, a ∈ covered ↔ Covers levels size held a) :
    covered.card = ∑ i ∈ range levels, (blocks i).card * size i := by
  have hunion : covered =
      (range levels).biUnion fun i => blockRange (size i) (blocks i) := by
    ext a
    simp only [hcovered, Covers, mem_biUnion, mem_range]
    refine exists_congr fun i => and_congr_right fun hi => ?_
    rw [mem_blockRange (hsize i hi), hblocks i _ hi]
  rw [hunion, card_biUnion]
  · refine sum_congr rfl fun i hi => ?_
    exact card_blockRange (hsize i (mem_range.1 hi)) (blocks i)
  intro i hi j hj hne
  have hi := mem_range.1 hi
  have hj := mem_range.1 hj
  refine disjoint_left.2 fun a hai haj => hne ?_
  rw [mem_blockRange (hsize i hi), hblocks i _ hi] at hai
  rw [mem_blockRange (hsize j hj), hblocks j _ hj] at haj
  exact h a i j hi hj hai haj

end Drippu.Library.Buddy
