import Mathlib.Tactic

/-!
# Library - Cursors over blocks

A sequence stored in blocks of different lengths has one place for each block and each index in
it.  A cursor that moves inside a block, from the last place of a block to the first of the next
one, and fails at the end, visits exactly the places behind its own.
-/

namespace Drippu.Library

open List

/-! ## Places -/

variable {n : Nat} {count : Nat → Nat}

/-- The places of one block. -/
def blockPlaces (count : Nat → Nat) (k : Nat) : List (Nat × Nat) :=
  (List.range (count k)).map (Prod.mk k)

/-- The places of `n` blocks in order. -/
def places (n : Nat) (count : Nat → Nat) : List (Nat × Nat) :=
  (List.range n).flatMap (blockPlaces count)

/-- The places before index `i` of block `k`. -/
def placesBefore (count : Nat → Nat) (k i : Nat) : List (Nat × Nat) :=
  (List.range k).flatMap (blockPlaces count) ++ (List.range i).map (Prod.mk k)

/-- The places after index `i` of block `k`. -/
def placesAfter (n : Nat) (count : Nat → Nat) (k i : Nat) : List (Nat × Nat) :=
  (List.range' (i + 1) (count k - (i + 1))).map (Prod.mk k) ++
    (List.range' (k + 1) (n - (k + 1))).flatMap (blockPlaces count)

variable {i k : Nat}

lemma range_split {n : Nat} (h : k < n) :
    List.range n = List.range k ++ k :: List.range' (k + 1) (n - (k + 1)) := by
  have hsum : n = k + (n - k) := by omega
  have hsucc : n - k = (n - (k + 1)) + 1 := by omega
  rw [range_eq_range', hsum, ← range'_append_1, range_eq_range', zero_add,
    ← hsum, hsucc, range'_succ]

lemma places_eq (hk : k < n) (hi : i < count k) :
    places n count = placesBefore count k i ++ (k, i) :: placesAfter n count k i := by
  simp [places, placesBefore, placesAfter, range_split hk, blockPlaces, range_split hi]

lemma mem_places : (k, i) ∈ places n count ↔ k < n ∧ i < count k := by
  simp [places, blockPlaces]

lemma placesAfter_inside (hi : i + 1 < count k) :
    placesAfter n count k i = (k, i + 1) :: placesAfter n count k (i + 1) := by
  have hsucc : count k - (i + 1) = (count k - (i + 1 + 1)) + 1 := by omega
  rw [placesAfter, hsucc, range'_succ]
  rfl

lemma placesAfter_across (hi : i + 1 = count k) (hk : k + 1 < n) (hpos : 0 < count (k + 1)) :
    placesAfter n count k i = (k + 1, 0) :: placesAfter n count (k + 1) 0 := by
  have hsucc : n - (k + 1) = (n - (k + 1 + 1)) + 1 := by omega
  rw [placesAfter, ← hi, tsub_self, hsucc, range'_succ, flatMap_cons, blockPlaces,
    range_split hpos]
  rfl

lemma placesAfter_last (hi : i + 1 = count k) (hk : k + 1 = n) : placesAfter n count k i = [] := by
  rw [placesAfter, ← hi, ← hk, tsub_self, tsub_self]
  rfl

lemma placesBefore_inside : placesBefore count k (i + 1) = placesBefore count k i ++ [(k, i)] := by
  simp [placesBefore, range_succ]

lemma placesBefore_across (hpos : 0 < count k) :
    placesBefore count (k + 1) 0 = placesBefore count k (count k - 1) ++ [(k, count k - 1)] := by
  have hsucc : count k = (count k - 1) + 1 := by omega
  have hblock : blockPlaces count k =
      (List.range (count k - 1)).map (Prod.mk k) ++ [(k, count k - 1)] := by
    rw [blockPlaces, hsucc, range_succ, map_append]
    rfl
  simp [placesBefore, range_succ, hblock]

/-! ## Visits -/

variable {σ ε α : Type}

/-- Moving again and again shows the given values and then fails. -/
inductive Visits (move : σ → Except ε Unit × σ) (look : σ → α) : σ → List α → ε → Prop
  | stop {s s' : σ} {e : ε} : move s = (.error e, s') → Visits move look s [] e
  | next {s s' : σ} {xs : List α} {e : ε} : move s = (.ok (), s') →
      Visits move look s' xs e → Visits move look s (look s' :: xs) e

section
variable {move : σ → Except ε Unit × σ} {look : σ → α} {e : ε}
variable {At : σ → Nat → Nat → Prop} {value : Nat × Nat → α}

/-- A cursor that moves forward visits the places after its own. -/
lemma visits_after (hpos : ∀ k, k < n → 0 < count k)
    (hlook : ∀ s k i, At s k i → look s = value (k, i))
    (hinside : ∀ s k i, At s k i → k < n → i + 1 < count k →
      ∃ s', move s = (.ok (), s') ∧ At s' k (i + 1))
    (hacross : ∀ s k i, At s k i → i + 1 = count k → k + 1 < n →
      ∃ s', move s = (.ok (), s') ∧ At s' (k + 1) 0)
    (hlast : ∀ s k i, At s k i → i + 1 = count k → k + 1 = n → ∃ s', move s = (.error e, s'))
    {s : σ} {k i : Nat} (hat : At s k i) (hk : k < n) (hi : i < count k) :
    Visits move look s ((placesAfter n count k i).map value) e := by
  -- The induction is on the list of the places that are left.
  induction hlen : (placesAfter n count k i).length generalizing s k i with
  | zero =>
    by_cases hin : i + 1 < count k
    · simp [placesAfter_inside hin] at hlen
    have hend : i + 1 = count k := by omega
    by_cases hnext : k + 1 < n
    · simp [placesAfter_across hend hnext (hpos _ hnext)] at hlen
    · obtain ⟨s', hmove⟩ := hlast s k i hat hend (by omega)
      rw [placesAfter_last hend (by omega)]
      exact .stop hmove
  | succ m ih =>
    by_cases hin : i + 1 < count k
    · obtain ⟨s', hmove, hat'⟩ := hinside s k i hat hk hin
      rw [placesAfter_inside hin] at hlen ⊢
      rw [map_cons, ← hlook s' k (i + 1) hat']
      exact .next hmove (ih hat' hk hin (by simpa using hlen))
    have hend : i + 1 = count k := by omega
    by_cases hnext : k + 1 < n
    · obtain ⟨s', hmove, hat'⟩ := hacross s k i hat hend hnext
      rw [placesAfter_across hend hnext (hpos _ hnext)] at hlen ⊢
      rw [map_cons, ← hlook s' (k + 1) 0 hat']
      exact .next hmove (ih hat' hnext (hpos _ hnext) (by simpa using hlen))
    · simp [placesAfter_last hend (show k + 1 = n by omega)] at hlen

/-- A cursor that moves backward visits the places before its own, the nearest first. -/
lemma visits_before (hpos : ∀ k, k < n → 0 < count k)
    (hlook : ∀ s k i, At s k i → look s = value (k, i))
    (hinside : ∀ s k i, At s k (i + 1) → k < n → ∃ s', move s = (.ok (), s') ∧ At s' k i)
    (hacross : ∀ s k, At s (k + 1) 0 → k + 1 < n →
      ∃ s', move s = (.ok (), s') ∧ At s' k (count k - 1))
    (hfirst : ∀ s, At s 0 0 → ∃ s', move s = (.error e, s'))
    {s : σ} {k i : Nat} (hat : At s k i) (hk : k < n) :
    Visits move look s ((placesBefore count k i).reverse.map value) e := by
  induction k generalizing s i with
  | zero =>
    induction i generalizing s with
    | zero =>
      obtain ⟨s', hmove⟩ := hfirst s hat
      exact .stop hmove
    | succ i ih =>
      obtain ⟨s', hmove, hat'⟩ := hinside s 0 i hat hk
      rw [placesBefore_inside, reverse_concat, map_cons, ← hlook s' 0 i hat']
      exact .next hmove (ih hat')
  | succ k ihk =>
    induction i generalizing s with
    | zero =>
      obtain ⟨s', hmove, hat'⟩ := hacross s k hat hk
      rw [placesBefore_across (hpos k (by omega)), reverse_concat, map_cons, ← hlook s' k _ hat']
      exact .next hmove (ihk hat' (by omega))
    | succ i ih =>
      obtain ⟨s', hmove, hat'⟩ := hinside s (k + 1) i hat hk
      rw [placesBefore_inside, reverse_concat, map_cons, ← hlook s' (k + 1) i hat']
      exact .next hmove (ih hat')

end
end Drippu.Library
