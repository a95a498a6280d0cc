import Mathlib.Tactic

/-!
# Library - Cutting a range of indices

A loop that walks a range of indices from left to right and hands each position to
`next` cuts the range into consecutive pieces.  The starts of the pieces are
`cuts`; the piece of a start `a` is the range from `a` to `next a`.
-/

namespace Drippu.Library

open List

/-! ## Scans -/

/-- The first of at most `k` indices from `i` on at which a condition fails. -/
def scanLoop (c : Nat → Bool) : Nat → Nat → Nat
  | 0, i => i
  | k + 1, i => if c i then scanLoop c k (i + 1) else i

/-- `while (i < n && c(i)) ++i`. -/
def scan (c : Nat → Bool) (n i : Nat) : Nat :=
  scanLoop c (n - i) i

lemma scanLoop_spec (c : Nat → Bool) (k i : Nat) :
    i ≤ scanLoop c k i ∧ scanLoop c k i ≤ i + k ∧
      (∀ j, i ≤ j → j < scanLoop c k i → c j = true) ∧
      (scanLoop c k i < i + k → c (scanLoop c k i) = false) := by
  induction k generalizing i with
  | zero => exact ⟨le_rfl, le_rfl, fun j hj hlt => absurd hlt (by simpa [scanLoop] using hj),
      fun h => absurd h (by simp [scanLoop])⟩
  | succ k ih =>
    rw [scanLoop]
    split <;> rename_i hc
    · obtain ⟨hle, hge, hall, hstop⟩ := ih (i + 1)
      refine ⟨by omega, by omega, fun j hj hlt => ?_, fun h => hstop (by omega)⟩
      rcases eq_or_lt_of_le hj with rfl | hj
      · exact hc
      · exact hall j hj hlt
    · exact ⟨le_rfl, by omega, fun j hj hlt => absurd hlt (by omega), fun _ => by simpa using hc⟩

lemma scan_spec (c : Nat → Bool) {n i : Nat} (hi : i ≤ n) :
    i ≤ scan c n i ∧ scan c n i ≤ n ∧ (∀ j, i ≤ j → j < scan c n i → c j = true) ∧
      (scan c n i < n → c (scan c n i) = false) := by
  have h := scanLoop_spec c (n - i) i
  rwa [Nat.add_sub_cancel' hi] at h

/-! ## Cuts -/

/-- The starts of the pieces from `s` on, at most `fuel` of them. -/
def cuts (next : Nat → Nat) (n : Nat) : Nat → Nat → List Nat
  | 0, _ => []
  | fuel + 1, s => if s < n then s :: cuts next n fuel (next s) else []

section
variable {next : Nat → Nat} {n : Nat} {fuel s : Nat}

lemma cuts_of_lt (hs : s < n) : cuts next n (fuel + 1) s = s :: cuts next n fuel (next s) := by
  rw [cuts, if_pos hs]

lemma cuts_of_le (hs : n ≤ s) : cuts next n fuel s = [] := by
  cases fuel with
  | zero => rfl
  | succ fuel => rw [cuts, if_neg (by omega)]

variable (hnext : ∀ a < n, a < next a ∧ next a ≤ n)
include hnext

lemma mem_cuts_bounds {a : Nat} (ha : a ∈ cuts next n fuel s) : s ≤ a ∧ a < n := by
  induction fuel generalizing s with
  | zero => cases ha
  | succ fuel ih =>
    rcases lt_or_ge s n with hs | hs
    · rw [cuts_of_lt hs] at ha
      rcases mem_cons.1 ha with rfl | ha
      · exact ⟨le_rfl, hs⟩
      · have := hnext s hs
        have := ih ha
        omega
    · rw [cuts_of_le hs] at ha
      cases ha

lemma pairwise_cuts : (cuts next n fuel s).Pairwise fun a b => next a ≤ b := by
  induction fuel generalizing s with
  | zero => exact List.Pairwise.nil
  | succ fuel ih =>
    rcases lt_or_ge s n with hs | hs
    · rw [cuts_of_lt hs]
      exact pairwise_cons.2 ⟨fun a ha => (mem_cuts_bounds hnext ha).1, ih⟩
    · rw [cuts_of_le hs]
      exact List.Pairwise.nil

lemma next_le_of_mem_cuts {a b : Nat} (ha : a ∈ cuts next n fuel s)
    (hb : b ∈ cuts next n fuel s) (hab : a < b) : next a ≤ b := by
  induction fuel generalizing s with
  | zero => cases ha
  | succ fuel ih =>
    have hs : s < n := (mem_cuts_bounds hnext ha).elim lt_of_le_of_lt
    have hsucc := (hnext s hs).1
    rw [cuts_of_lt hs, mem_cons] at ha hb
    rcases ha with rfl | ha <;> rcases hb with rfl | hb
    · omega
    · exact (mem_cuts_bounds hnext hb).1
    · have := (mem_cuts_bounds hnext ha).1
      omega
    · exact ih ha hb

variable (hfuel : n - s ≤ fuel)
include hfuel

/-- An index that no piece from `s` on jumps over starts a piece. -/
lemma mem_cuts_of_stop {i : Nat} (hsi : s ≤ i) (hi : i < n)
    (hstop : ∀ a, s ≤ a → a < i → next a ≤ i) : i ∈ cuts next n fuel s := by
  induction fuel generalizing s with
  | zero => omega
  | succ fuel ih =>
    have hs : s < n := by omega
    rw [cuts_of_lt hs]
    rcases eq_or_lt_of_le hsi with rfl | hlt
    · exact mem_cons_self
    · obtain ⟨hsucc, hle⟩ := hnext s hs
      refine mem_cons_of_mem _ (ih (by omega) (hstop s le_rfl hlt) fun a ha => ?_)
      exact hstop a (by omega)

lemma exists_cut {i : Nat} (hsi : s ≤ i) (hi : i < n) :
    ∃ a ∈ cuts next n fuel s, a ≤ i ∧ i < next a := by
  induction fuel generalizing s with
  | zero => omega
  | succ fuel ih =>
    have hs : s < n := by omega
    obtain ⟨hsucc, hle⟩ := hnext s hs
    rw [cuts_of_lt hs]
    rcases lt_or_ge i (next s) with hlt | hge
    · exact ⟨s, mem_cons_self, hsi, hlt⟩
    · obtain ⟨a, ha, hai, hia⟩ := ih (by omega) hge
      exact ⟨a, mem_cons_of_mem _ ha, hai, hia⟩

/-- The end of a piece starts the next one. -/
lemma next_mem_cuts {a : Nat} (ha : a ∈ cuts next n fuel s) (hlt : next a < n) :
    next a ∈ cuts next n fuel s := by
  induction fuel generalizing s with
  | zero => cases ha
  | succ fuel ih =>
    have hs : s < n := (mem_cuts_bounds hnext ha).elim lt_of_le_of_lt
    obtain ⟨hsucc, hle⟩ := hnext s hs
    rw [cuts_of_lt hs] at ha ⊢
    refine mem_cons_of_mem _ ?_
    rcases mem_cons.1 ha with rfl | ha
    · exact mem_cuts_of_stop hnext (by omega) le_rfl hlt fun b hb hba => by omega
    · exact ih (by omega) ha

end
end Drippu.Library
