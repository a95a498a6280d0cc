import Mathlib.Tactic

/-!
# Library - Tilings of a half-open range

A list of segments tiles the range from `s` to `e` when it begins at
`s`, every segment is non-empty and starts where the previous one stops,
and the last one stops at `e`.  The two projections giving a segment's
bounds are parameters, so the development applies to any record that carries a
range together with other data.
-/

namespace Drippu.Library

open List

section
variable {α : Type*} (start stop : α → Nat)

/-- The segments cover the range from the first to the second bound, in order,
without gaps, overlaps or empty segments. -/
def Tiles : Nat → Nat → List α → Prop
  | s, e, [] => s = e
  | s, e, b :: bs => start b = s ∧ s < stop b ∧ Tiles (stop b) e bs

/-- Whether a point lies in the half-open range of a segment. -/
def covers (a : Nat) (b : α) : Bool :=
  decide (start b ≤ a) && decide (a < stop b)

/-- The first segment of the list that covers a point. -/
def lookup (bs : List α) (a : Nat) : Option α :=
  bs.find? (covers start stop a)

variable {start stop} {a e s : Nat}

@[simp]
lemma tiles_nil : Tiles start stop s e [] ↔ s = e :=
  Iff.rfl

variable {b : α} {bs xs ys : List α}

@[simp]
lemma tiles_cons :
    Tiles start stop s e (b :: bs) ↔ start b = s ∧ s < stop b ∧ Tiles start stop (stop b) e bs :=
  Iff.rfl

lemma covers_iff : covers start stop a b = true ↔ start b ≤ a ∧ a < stop b := by
  simp [covers]

lemma Tiles.le (h : Tiles start stop s e bs) : s ≤ e := by
  induction bs generalizing s with
  | nil => exact le_of_eq h
  | cons b bs ih =>
    obtain ⟨-, hlt, hrest⟩ := h
    exact hlt.le.trans (ih hrest)

/-- Two tilings of adjacent ranges are exactly one tiling of their union. -/
lemma tiles_append :
    Tiles start stop s e (xs ++ ys) ↔ ∃ m, Tiles start stop s m xs ∧ Tiles start stop m e ys := by
  induction xs generalizing s with
  | nil => simp
  | cons x xs ih =>
    simp only [cons_append, tiles_cons, ih]
    constructor
    · rintro ⟨hs, hlt, m, hxs, hys⟩
      exact ⟨m, ⟨hs, hlt, hxs⟩, hys⟩
    · rintro ⟨m, ⟨hs, hlt, hxs⟩, hys⟩
      exact ⟨hs, hlt, m, hxs, hys⟩

lemma Tiles.mem_bounds (h : Tiles start stop s e bs) (hb : b ∈ bs) :
    s ≤ start b ∧ start b < stop b ∧ stop b ≤ e := by
  induction bs generalizing s with
  | nil => simp at hb
  | cons c bs ih =>
    obtain ⟨hs, hlt, hrest⟩ := h
    rcases mem_cons.mp hb with rfl | hb
    · exact ⟨hs.ge, hs ▸ hlt, hrest.le⟩
    · obtain ⟨h1, h2, h3⟩ := ih hrest hb
      exact ⟨by omega, h2, h3⟩

lemma lookup_cons_of_covers (h : start b ≤ a ∧ a < stop b) :
    lookup start stop (b :: bs) a = some b := by
  simp [lookup, covers_iff.2 h]

lemma lookup_cons_of_not_covers (h : ¬ (start b ≤ a ∧ a < stop b)) :
    lookup start stop (b :: bs) a = lookup start stop bs a := by
  have hfalse : covers start stop a b = false := by
    rw [← Bool.not_eq_true]
    exact fun hc => h (covers_iff.1 hc)
  simp [lookup, hfalse]

lemma Tiles.lookup_eq_none (h : Tiles start stop s e bs) (ha : a < s ∨ e ≤ a) :
    lookup start stop bs a = none := by
  rw [lookup, find?_eq_none]
  intro b hb hc
  obtain ⟨h1, h2⟩ := covers_iff.1 hc
  obtain ⟨h3, -, h4⟩ := h.mem_bounds hb
  omega

/-- Points before the split are answered by the left list. -/
lemma lookup_append_left {m : Nat} (hys : Tiles start stop m e ys) (ha : a < m) :
    lookup start stop (xs ++ ys) a = lookup start stop xs a := by
  have hnone : lookup start stop ys a = none := hys.lookup_eq_none (.inl ha)
  simp only [lookup, find?_append] at hnone ⊢
  rw [hnone, Option.or_none]

/-- Points from the split on are answered by the right list. -/
lemma lookup_append_right {m : Nat} (hxs : Tiles start stop s m xs) (ha : m ≤ a) :
    lookup start stop (xs ++ ys) a = lookup start stop ys a := by
  have hnone : lookup start stop xs a = none := hxs.lookup_eq_none (.inr ha)
  simp only [lookup, find?_append] at hnone ⊢
  rw [hnone, Option.none_or]

/-- A covered point determines the segment around it, and the list splits there
into the tilings before and after that segment. -/
lemma Tiles.exists_split (h : Tiles start stop s e bs) (hs : s ≤ a) (he : a < e) :
    ∃ pre b post, bs = pre ++ b :: post ∧ Tiles start stop s (start b) pre ∧
      start b ≤ a ∧ a < stop b ∧ Tiles start stop (stop b) e post := by
  induction bs generalizing s with
  | nil =>
    rw [tiles_nil] at h
    omega
  | cons b bs ih =>
    obtain ⟨hb, hlt, hrest⟩ := h
    by_cases ha : a < stop b
    · exact ⟨[], b, bs, rfl, hb.symm, by omega, ha, hrest⟩
    · obtain ⟨pre, c, post, rfl, hpre, h1, h2, h3⟩ := ih hrest (by omega)
      exact ⟨b :: pre, c, post, rfl, ⟨hb, hlt, hpre⟩, h1, h2, h3⟩

/-- At the split around a covered point the search returns that segment. -/
lemma lookup_split {pre post : List α} (hpre : Tiles start stop s (start b) pre)
    (h1 : start b ≤ a) (h2 : a < stop b) : lookup start stop (pre ++ b :: post) a = some b := by
  rw [lookup_append_right hpre h1]
  exact lookup_cons_of_covers ⟨h1, h2⟩

end
end Drippu.Library
