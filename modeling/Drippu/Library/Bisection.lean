import Mathlib.Tactic

/-!
# Library - Bisection

The search for the end of the front of a sorted range whose values are not above a key, by halving
the range.
-/

namespace Drippu.Library

variable {α : Type} [LinearOrder α]

/-- The first place of `pos, …, pos + len - 1` whose value is above `key`. -/
def bisect (f : Nat → α) (key : α) (pos len : Nat) : Nat :=
  if 0 < len then
    if f (pos + len / 2) ≤ key then
      bisect f key (pos + len / 2 + 1) (len - (len / 2 + 1))
    else
      bisect f key pos (len / 2)
  else
    pos
termination_by len

variable {f : Nat → α}

lemma bisect_spec (key : α) {pos len : Nat}
    (hsorted : ∀ i j, pos ≤ i → i ≤ j → j < pos + len → f i ≤ f j) :
    pos ≤ bisect f key pos len ∧ bisect f key pos len ≤ pos + len ∧
      (∀ i, pos ≤ i → i < bisect f key pos len → f i ≤ key) ∧
      (∀ i, bisect f key pos len ≤ i → i < pos + len → key < f i) := by
  fun_induction bisect f key pos len with
  | case1 pos len hlen hle ih =>
    obtain ⟨hlow, hhigh, hbelow, habove⟩ :=
      ih fun i j hi hij hj => hsorted i j (by omega) hij (by omega)
    refine ⟨by omega, by omega, fun i hi hlt => ?_, fun i hi hlt => habove i hi (by omega)⟩
    by_cases hmid : i ≤ pos + len / 2
    · exact le_trans (hsorted i _ hi hmid (by omega)) hle
    · exact hbelow i (by omega) hlt
  | case2 pos len hlen hgt ih =>
    obtain ⟨hlow, hhigh, hbelow, habove⟩ :=
      ih fun i j hi hij hj => hsorted i j hi hij (by omega)
    refine ⟨hlow, by omega, hbelow, fun i hi hlt => ?_⟩
    by_cases hmid : i < pos + len / 2
    · exact habove i hi hmid
    · exact lt_of_lt_of_le (lt_of_not_ge hgt) (hsorted _ i (by omega) (by omega) hlt)
  | case3 pos len hlen =>
    exact ⟨le_refl _, by omega, fun i hi hlt => by omega, fun i hi hlt => by omega⟩

/-- The place in front of the result has the greatest value that is not above the key.  The values
are given by a function on the indices of the range. -/
lemma exists_bisect {g : Nat → α} {key : α} {pos len : Nat}
    (hvalue : ∀ i, i < len → f (pos + i) = g i)
    (hsorted : ∀ i j, i ≤ j → j < len → g i ≤ g j) (hlen : 0 < len) (hfirst : g 0 ≤ key) :
    ∃ i, i < len ∧ bisect f key pos len = pos + i + 1 ∧ g i ≤ key ∧
      (i + 1 < len → key < g (i + 1)) := by
  have hplace : ∀ i, pos ≤ i → i < pos + len → f i = g (i - pos) := by
    intro i hi hlt
    rw [← hvalue (i - pos) (by omega), Nat.add_sub_cancel' hi]
  have hrange : ∀ i j, pos ≤ i → i ≤ j → j < pos + len → f i ≤ f j := by
    intro i j hi hij hj
    rw [hplace i hi (by omega), hplace j (by omega) hj]
    exact hsorted _ _ (by omega) (by omega)
  obtain ⟨hlow, hhigh, hbelow, habove⟩ := bisect_spec key hrange
  have hne : bisect f key pos len ≠ pos := by
    intro heq
    have habove := habove pos (by omega) (by omega)
    rw [hplace pos (by omega) (by omega), tsub_self] at habove
    exact absurd hfirst (not_le_of_gt habove)
  refine ⟨bisect f key pos len - 1 - pos, by omega, by omega, ?_, fun hlt => ?_⟩
  · rw [← hvalue _ (by omega)]
    exact hbelow _ (by omega) (by omega)
  · rw [← hvalue _ hlt]
    exact habove _ (by omega) (by omega)

/-! ## Partition points -/

/-- The first place of `lo, …, hi - 1` at which a test fails, by halving the range. -/
def partitionPoint (test : Nat → Bool) (lo hi : Nat) : Nat :=
  if lo < hi then
    if test (lo + (hi - lo) / 2) then partitionPoint test (lo + (hi - lo) / 2 + 1) hi
    else partitionPoint test lo (lo + (hi - lo) / 2)
  else lo
termination_by hi - lo

lemma partitionPoint_spec (test : Nat → Bool) {lo hi : Nat} (hle : lo ≤ hi)
    (hfront : ∀ i j, lo ≤ i → i ≤ j → j < hi → test j = true → test i = true) :
    lo ≤ partitionPoint test lo hi ∧ partitionPoint test lo hi ≤ hi ∧
      (∀ i, lo ≤ i → i < partitionPoint test lo hi → test i = true) ∧
      (∀ i, partitionPoint test lo hi ≤ i → i < hi → test i = false) := by
  fun_induction partitionPoint test lo hi with
  | case1 lo hi hlt hmid ih =>
    obtain ⟨hlow, hhigh, hbelow, habove⟩ :=
      ih (by omega) fun i j hlo hij hj => hfront i j (by omega) hij hj
    refine ⟨by omega, hhigh, fun i hlo hlt => ?_, habove⟩
    rcases lt_or_ge (lo + (hi - lo) / 2) i with hgt | hge
    · exact hbelow i hgt hlt
    · exact hfront i _ hlo hge (by omega) hmid
  | case2 lo hi hlt hmid ih =>
    obtain ⟨hlow, hhigh, hbelow, habove⟩ :=
      ih (by omega) fun i j hlo hij hj => hfront i j hlo hij (by omega)
    refine ⟨hlow, by omega, hbelow, fun i hlo hlt => ?_⟩
    rcases lt_or_ge i (lo + (hi - lo) / 2) with hgt | hge
    · exact habove i hlo hgt
    · rw [Bool.eq_false_iff]
      exact fun htest => hmid (hfront _ i (by omega) hge hlt htest)
  | case3 lo hi hlt =>
    exact ⟨le_refl _, hle, fun i hlo hlt => by omega, fun i hlo hlt => by omega⟩

end Drippu.Library
