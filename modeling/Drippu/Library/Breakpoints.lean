import Mathlib.Tactic

/-!
# Library - Sorted vectors of breakpoints

A map from an ordered key space that is constant or regular between breakpoints is kept
as a sorted vector of entries.  The entry that governs a key is the last one at or below
it.  Code that edits such a vector in place works on positions; the edits are stated for
a vector that is split at the positions in question.
-/

namespace Drippu.Library

open List

variable {α κ : Type} [LinearOrder κ]

/-! ## Edits by position -/

/-- `vector::insert` of some entries before a position. -/
def insertAt (l : List α) (i : Nat) (new : List α) : List α :=
  l.take i ++ new ++ l.drop i

/-- `vector::erase` of the entries from one position up to another. -/
def eraseRange (l : List α) (i j : Nat) : List α :=
  l.take i ++ l.drop j

/-! A position is given by the entries in front of it. -/

variable {front : List α} {i : Nat}

section
variable (h : i = front.length)
include h

lemma getElem?_split (a : α) (back : List α) : (front ++ a :: back)[i]? = some a := by
  simp [h]

lemma set_split (a b : α) (back : List α) : (front ++ a :: back).set i b = front ++ b :: back := by
  simp [h]

lemma insertAt_split (back new : List α) :
    insertAt (front ++ back) i new = front ++ (new ++ back) := by
  simp [insertAt, h]

end

lemma eraseRange_split {erased : List α} {j : Nat} (hi : i = front.length)
    (hj : j = front.length + erased.length) (back : List α) :
    eraseRange (front ++ (erased ++ back)) i j = front ++ back := by
  simp [eraseRange, hi, hj]

/-! ## The governing entry -/

section
variable (key : α → κ)

/-- The last entry at or below a key. -/
def floor (l : List α) (x : κ) : Option α :=
  (l.filter fun a => key a ≤ x).getLast?

variable {key} {l l₁ l₂ : List α} {x : κ}

@[simp]
lemma floor_nil : floor key [] x = none :=
  rfl

lemma floor_append : floor key (l₁ ++ l₂) x = (floor key l₂ x).or (floor key l₁ x) := by
  rw [floor, filter_append, List.getLast?_append]
  rfl

lemma floor_of_lt (h : ∀ a ∈ l, x < key a) : floor key l x = none := by
  have hnil : (l.filter fun a => key a ≤ x) = [] :=
    filter_eq_nil_iff.2 fun a ha => by simpa using h a ha
  rw [floor, hnil]
  rfl

lemma lt_of_floor_eq_none (h : floor key l x = none) {a : α} (ha : a ∈ l) : x < key a := by
  rw [floor, List.getLast?_eq_none_iff, filter_eq_nil_iff] at h
  simpa using h a ha

lemma floor_of_le (h : ∀ a ∈ l, key a ≤ x) : floor key l x = l.getLast? := by
  rw [floor, filter_eq_self.2 fun a ha => by simpa using h a ha]

lemma floor_cons (a : α) :
    floor key (a :: l) x = (floor key l x).or (if key a ≤ x then some a else none) := by
  rw [← singleton_append, floor_append]
  congr 1
  split <;> rename_i h
  · exact floor_of_le fun b hb => by rwa [mem_singleton.1 hb]
  · exact floor_of_lt fun b hb => by
      rw [mem_singleton.1 hb]
      exact not_le.1 h

/-- An entry governs the keys from its own up to the later entries. -/
lemma floor_eq {front back : List α} {a : α} (ha : key a ≤ x) (hback : ∀ b ∈ back, x < key b) :
    floor key (front ++ a :: back) x = some a := by
  rw [floor_append, floor_cons, floor_of_lt hback, if_pos ha]
  rfl

/-- A stretch of entries with keys from `lo` to `hi` is replaced.  The keys below
`lo` keep their entry, the keys from `lo` on are governed by the new stretch, and
those from `hi` on by its last entry unless a later entry governs them. -/
lemma floor_replace {front old new back : List α} {lo hi : κ} (hlo : lo ≤ hi)
    (hfront : ∀ a ∈ front, key a < lo) (hold : ∀ a ∈ old, lo ≤ key a ∧ key a ≤ hi)
    (hnew : ∀ a ∈ new, lo ≤ key a ∧ key a ≤ hi) (hback : ∀ a ∈ back, hi ≤ key a) :
    (x < lo → floor key (front ++ (new ++ back)) x = floor key (front ++ (old ++ back)) x) ∧
    (lo ≤ x → x < hi → floor key (front ++ (new ++ back)) x = (floor key new x).or front.getLast?) ∧
    (hi ≤ x →
      floor key (front ++ (new ++ back)) x =
        ((floor key back x).or new.getLast?).or front.getLast? ∧
      floor key (front ++ (old ++ back)) x =
        ((floor key back x).or old.getLast?).or front.getLast?) := by
  have hfrontLast : lo ≤ x → floor key front x = front.getLast? := fun hx =>
    floor_of_le fun a ha => (hfront a ha).le.trans hx
  refine ⟨fun hx => ?_, fun hx hlt => ?_, fun hx => ⟨?_, ?_⟩⟩
  · have hold' : floor key old x = none := floor_of_lt fun a ha => hx.trans_le (hold a ha).1
    have hnew' : floor key new x = none := floor_of_lt fun a ha => hx.trans_le (hnew a ha).1
    simp [floor_append, hold', hnew']
  · have hbackNone : floor key back x = none :=
      floor_of_lt fun a ha => hlt.trans_le (hback a ha)
    simp [floor_append, hbackNone, hfrontLast hx]
  · rw [floor_append, floor_append, floor_of_le fun a ha => (hnew a ha).2.trans hx,
      hfrontLast (hlo.trans hx)]
  · rw [floor_append, floor_append, floor_of_le fun a ha => (hold a ha).2.trans hx,
      hfrontLast (hlo.trans hx)]

end

/-! ## Searches -/

section
variable (key : α → κ)

/-- `std::lower_bound`: the position of the first entry at or above a key. -/
def lowerBound (l : List α) (x : κ) : Nat :=
  (l.takeWhile fun a => key a < x).length

/-- `std::upper_bound`: the position of the first entry above a key. -/
def upperBound (l : List α) (x : κ) : Nat :=
  (l.takeWhile fun a => key a ≤ x).length

/-- The walk `while (it->key >= x) --it` from a position; it is undefined outside of
the vector. -/
def walkBack (l : List α) (x : κ) : Nat → Option Nat
  | 0 => l[0]?.bind fun a => if x ≤ key a then none else some 0
  | i + 1 => l[i + 1]?.bind fun a => if x ≤ key a then walkBack l x i else some (i + 1)

variable {key} {back front : List α} {x : κ}

lemma takeWhile_lt_append (hfront : ∀ a ∈ front, key a < x) (hback : ∀ a ∈ back, x ≤ key a) :
    ((front ++ back).takeWhile fun a => key a < x) = front := by
  rw [takeWhile_append_of_pos fun a ha => by simpa using hfront a ha]
  cases back with
  | nil => simp
  | cons b back => simp [not_lt.2 (hback b mem_cons_self)]

lemma lowerBound_append (hfront : ∀ a ∈ front, key a < x) (hback : ∀ a ∈ back, x ≤ key a) :
    lowerBound key (front ++ back) x = front.length := by
  rw [lowerBound, takeWhile_lt_append hfront hback]

lemma upperBound_append (hfront : ∀ a ∈ front, key a ≤ x) (hback : ∀ a ∈ back, x < key a) :
    upperBound key (front ++ back) x = front.length := by
  rw [upperBound, takeWhile_append_of_pos fun a ha => by simpa using hfront a ha]
  cases back with
  | nil => simp
  | cons b back => simp [hback b mem_cons_self]

/-- The walk stops at the last entry below the key. -/
lemma walkBack_append {a : α} (ha : key a < x) (hback : ∀ b ∈ back, x ≤ key b) {i : Nat}
    (hi : i ≤ back.length) :
    walkBack key (front ++ a :: back) x (front.length + i) = some front.length := by
  induction i with
  | zero =>
    have hget : (front ++ a :: back)[front.length]? = some a := getElem?_split rfl a back
    cases hlen : front.length with
    | zero | succ n =>
      rw [hlen] at hget
      rw [walkBack, hget, Option.bind_some, if_neg (not_le.2 ha)]
  | succ i ih =>
    have hget : (front ++ a :: back)[front.length + i + 1]? = some back[i] := by
      rw [List.getElem?_append_right (by omega),
        show front.length + i + 1 - front.length = i + 1 by omega, List.getElem?_cons_succ,
        List.getElem?_eq_getElem]
    rw [← add_assoc, walkBack, hget, Option.bind_some,
      if_pos (hback _ (getElem_mem _)), ih (by omega)]

lemma exists_split_of_sorted {l : List α} (hsorted : l.Pairwise fun a b => key a < key b)
    (lo hi : κ) :
    ∃ front mid back, l = front ++ (mid ++ back) ∧ (∀ a ∈ front, key a < lo) ∧
      (∀ a ∈ mid, lo ≤ key a ∧ key a < hi) ∧ ∀ a ∈ back, hi ≤ key a := by
  induction l with
  | nil => exact ⟨[], [], [], rfl, nofun, nofun, nofun⟩
  | cons a l ih =>
    obtain ⟨ha, hl⟩ := pairwise_cons.1 hsorted
    obtain ⟨front, mid, back, rfl, hfront, hmid, hback⟩ := ih hl
    rcases lt_or_ge (key a) lo with hlo | hlo
    · exact ⟨a :: front, mid, back, rfl, forall_mem_cons.2 ⟨hlo, hfront⟩, hmid, hback⟩
    -- everything after an entry at or above the lower key is above it too
    have hnone : front = [] := eq_nil_iff_forall_not_mem.2 fun b hb =>
      absurd (hfront b hb) (not_lt.2 (hlo.trans (ha b (by simp [hb])).le))
    subst hnone
    rcases lt_or_ge (key a) hi with hhi | hhi
    · exact ⟨[], a :: mid, back, rfl, nofun, forall_mem_cons.2 ⟨⟨hlo, hhi⟩, hmid⟩, hback⟩
    · have hnone : mid = [] := eq_nil_iff_forall_not_mem.2 fun b hb =>
        absurd (hmid b hb).2 (not_lt.2 (hhi.trans (ha b (by simp [hb])).le))
      subst hnone
      exact ⟨[], [], a :: back, rfl, nofun, nofun, forall_mem_cons.2 ⟨hhi, hback⟩⟩

lemma exists_governing {l : List α} (hsorted : l.Pairwise fun a b => key a < key b) {first : α}
    (hfirst : l.head? = some first) (hx : key first ≤ x) :
    ∃ front a back, l = front ++ a :: back ∧ (∀ b ∈ front, key b < key a) ∧ key a ≤ x ∧
      ∀ b ∈ back, x < key b := by
  induction l generalizing first with
  | nil => cases hfirst
  | cons a l ih =>
    obtain ⟨ha, hl⟩ := pairwise_cons.1 hsorted
    obtain rfl : a = first := Option.some.inj hfirst
    cases l with
    | nil => exact ⟨[], a, [], rfl, nofun, hx, nofun⟩
    | cons b l =>
      rcases le_or_gt (key b) x with hb | hb
      · obtain ⟨front, c, back, heq, hfront, hc, hback⟩ := ih hl rfl hb
        refine ⟨a :: front, c, back, by rw [heq, List.cons_append], ?_, hc, hback⟩
        exact forall_mem_cons.2 ⟨ha c (by simp [heq]), hfront⟩
      · refine ⟨[], a, b :: l, rfl, nofun, hx, forall_mem_cons.2 ⟨hb, fun c hc => ?_⟩⟩
        exact hb.trans ((pairwise_cons.1 hl).1 c hc)

lemma filter_split {mid : List α} {lo hi : κ} (hlo : lo ≤ hi) (hfront : ∀ a ∈ front, key a < lo)
    (hmid : ∀ a ∈ mid, lo ≤ key a ∧ key a < hi) (hback : ∀ a ∈ back, hi ≤ key a) :
    ((front ++ (mid ++ back)).filter fun a => key a < lo) = front ∧
      ((front ++ (mid ++ back)).filter fun a => lo ≤ key a ∧ key a < hi) = mid ∧
      ((front ++ (mid ++ back)).filter fun a => hi ≤ key a) = back := by
  have hnone : ∀ {p : α → Bool} {l : List α}, (∀ a ∈ l, p a = false) → l.filter p = [] :=
    fun h => filter_eq_nil_iff.2 fun a ha => by simp [h a ha]
  simp only [filter_append]
  refine ⟨?_, ?_, ?_⟩
  · rw [filter_eq_self.2 fun a ha => decide_eq_true (hfront a ha),
      hnone fun a ha => decide_eq_false (not_lt.2 (hmid a ha).1),
      hnone fun a ha => decide_eq_false (not_lt.2 (hlo.trans (hback a ha)))]
    simp
  · rw [hnone fun a ha => decide_eq_false fun h => not_le.2 (hfront a ha) h.1,
      filter_eq_self.2 fun a ha => decide_eq_true (hmid a ha),
      hnone fun a ha => decide_eq_false fun h => not_lt.2 (hback a ha) h.2]
    simp
  · rw [hnone fun a ha => decide_eq_false (not_le.2 ((hfront a ha).trans_le hlo)),
      hnone fun a ha => decide_eq_false (not_le.2 (hmid a ha).2),
      filter_eq_self.2 fun a ha => decide_eq_true (hback a ha)]
    simp

end
end Drippu.Library
