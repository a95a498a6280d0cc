import Drippu.Common.AddressSpaceMap

/-!
# Common - What unmapping does

An unmap replaces the blocks inside the range as well, and each of its branches puts a
different stretch of blocks there.  It is pointwise right except when the block before the
range is unmapped and the last block inside of it survives the erasure; and it reports
contiguous unmapped regions in some cases in which it is right.  The condition
`unmappable` says when neither happens.
-/

namespace Drippu.Common.AddressSpace

open Library List Option

variable {π χ : Type} [DecidableEq π] {P : PaSpec π}
  {blocks front mid back : List (MapBlock π χ)} {s : MapBlock π χ} {virt virtEnd : Nat}

/-! ## Branches -/

/-- The assertion against contiguous unmapped regions. -/
def contiguous (c : Bool) : List MapAssertion :=
  if c then [.contiguousUnmapped] else []

def headUnmapped (P : PaSpec π) (blocks : List (MapBlock π χ)) : Bool :=
  blocks.head?.any fun b => isUnmapped P b

section
variable {erased rest : List (MapBlock π χ)} {u : MapBlock π χ} (hs : s.virt < virt)
  (hmid : ∀ b ∈ erased ++ u :: rest, virt ≤ b.virt)
include hs hmid

omit [DecidableEq π] in
lemma walkBackTo_erased :
    walkBackTo (front ++ s :: (erased ++ u :: rest)) virt (front.length + 1 + erased.length) =
      some front.length := by
  rw [add_assoc]
  exact walkBack_append hs hmid (by simp; omega)

lemma eraseBlocks_of_unmapped (hunmapped : isUnmapped P s = true) :
    eraseBlocksWithEndUnmapped P (front ++ s :: (erased ++ u :: rest)) virt
        (front.length + 1 + erased.length) =
      some (front ++ s :: rest, contiguous (headUnmapped P rest)) := by
  have hlast : (front ++ s :: (erased ++ u :: rest))[front.length + 1 + erased.length]? =
      some u := by
    rw [show front ++ s :: (erased ++ u :: rest) = (front ++ s :: erased) ++ u :: rest by simp]
    exact getElem?_split (by simp; omega) u rest
  have hnext : (front ++ s :: (erased ++ u :: rest))[front.length + 1 + erased.length + 1]? =
      rest.head? := by
    rw [show front ++ s :: (erased ++ u :: rest) = (front ++ s :: (erased ++ [u])) ++ rest by simp,
      List.getElem?_append_right (by simp; omega), List.head?_eq_getElem?]
    congr 1
    simp
    omega
  have herase : eraseRange (front ++ s :: (erased ++ u :: rest)) (front.length + 1)
      (front.length + 1 + erased.length + 1) = front ++ s :: rest := by
    rw [show front ++ s :: (erased ++ u :: rest) = (front ++ [s]) ++ ((erased ++ [u]) ++ rest)
      by simp, eraseRange_split (by simp) (by simp; omega)]
    simp
  rw [eraseBlocksWithEndUnmapped, walkBackTo_erased hs hmid, bind_some, getElem?_split rfl,
    bind_some, hlast, bind_some]
  simp only [hunmapped, if_true, hnext, herase, contiguous, headUnmapped]
  cases rest with
  | nil => rfl
  | cons b rest =>
    have hne : (front.length + 1 + erased.length + 1 == front.length + 1) = false := by
      simp
      omega
    simp only [List.head?_cons, hne, Bool.false_or, Bool.true_and, any_some]
    rfl

lemma eraseBlocks_of_mapped (hmapped : isUnmapped P s = false) :
    eraseBlocksWithEndUnmapped P (front ++ s :: (erased ++ u :: rest)) virt
        (front.length + 1 + erased.length) =
      some (front ++ s :: { u with virt := virt } :: rest, contiguous erased.isEmpty) := by
  have hsplit : ∀ v, front ++ s :: (erased ++ v :: rest) = (front ++ s :: erased) ++ v :: rest :=
    fun v => by simp
  have hindex : front.length + 1 + erased.length = (front ++ s :: erased).length := by
    simp
    omega
  have herase : eraseRange (front ++ s :: (erased ++ { u with virt := virt } :: rest))
      (front.length + 1) (front.length + 1 + erased.length) =
        front ++ s :: { u with virt := virt } :: rest := by
    rw [append_cons, eraseRange_split (by simp) (by simp)]
    simp
  rw [eraseBlocksWithEndUnmapped, walkBackTo_erased hs hmid, bind_some, getElem?_split rfl,
    bind_some, hsplit, hindex, getElem?_split rfl, bind_some]
  simp only [hmapped, Bool.false_eq_true, if_false, set_split, getElem?_split]
  rw [← hsplit, ← hindex, herase]
  cases erased with
  | nil | cons b erased => simp [contiguous]

end

section
variable {t : MapBlock π χ} {rest : List (MapBlock π χ)} (noExtra : χ) (hs : s.virt < virt)
  (hlt : virt < virtEnd) (hmid : ∀ b ∈ mid, virt ≤ b.virt ∧ b.virt < virtEnd)
  (ht : t.virt = virtEnd) (hrest : ∀ b ∈ rest, virtEnd ≤ b.virt)
include hs hlt hmid ht hrest

lemma unmapStart_nil (hnil : mid = []) (endPred : Nat) :
    unmapStart P noExtra (front ++ s :: (mid ++ t :: rest)) virt virtEnd
        (front.length + 1 + mid.length) endPred =
      some (if isUnmapped P s then front ++ s :: t :: rest
        else front ++ s :: ⟨virt, P.unmappedPa, noExtra⟩ :: t :: rest, []) := by
  subst hnil
  rw [unmapStart, walkBackTo_eq hs hlt.le hmid ht hrest (by omega) le_rfl, bind_some,
    getElem?_split rfl, bind_some, nil_append, append_cons,
    getElem?_split (by simp), bind_some, if_neg (by omega), if_pos ht,
    insertAt_split (by simp)]
  simp

/-- The block before the range is mapped: the first block inside is reused. -/
lemma unmapStart_mapped {m : MapBlock π χ} {mid' : List (MapBlock π χ)} (hcons : mid = m :: mid')
    (hmapped : isUnmapped P s = false) (endPred : Nat) :
    unmapStart P noExtra (front ++ s :: (mid ++ t :: rest)) virt virtEnd
        (front.length + 1 + mid.length) endPred =
      some (front ++ s :: { m with virt := virt, phys := P.unmappedPa } :: t :: rest, []) := by
  subst hcons
  have hm := hmid m mem_cons_self
  rw [unmapStart, walkBackTo_eq hs hlt.le hmid ht hrest (by omega) le_rfl, bind_some,
    getElem?_split rfl, bind_some, append_cons, List.cons_append,
    getElem?_split (by simp), bind_some, if_neg (by omega), if_neg (by omega), hmapped,
    if_neg (by decide), append_cons, eraseRange_split (by simp) (by simp; omega),
    List.append_assoc, singleton_append, set_split (by simp)]
  simp

/-- The block before the range is unmapped: the last block inside is left. -/
lemma unmapStart_unmapped {q : MapBlock π χ} {mid' : List (MapBlock π χ)}
    (hconcat : mid = mid' ++ [q]) (hunmapped : isUnmapped P s = true) :
    unmapStart P noExtra (front ++ s :: (mid ++ t :: rest)) virt virtEnd
        (front.length + 1 + mid.length) (front.length + mid.length) =
      some (front ++ s :: q :: t :: rest, []) := by
  obtain ⟨m, back, hfirst⟩ : ∃ m back, mid = m :: back := by
    cases mid' with
    | nil => exact ⟨q, [], hconcat⟩
    | cons m mid' => exact ⟨m, mid' ++ [q], hconcat⟩
  have hm := hmid m (by simp [hfirst])
  have hget : (front ++ s :: (mid ++ t :: rest))[front.length + 1]? = some m := by
    rw [hfirst, append_cons, List.cons_append, getElem?_split (by simp)]
  rw [unmapStart, walkBackTo_eq hs hlt.le hmid ht hrest (by omega) le_rfl, bind_some,
    getElem?_split rfl, bind_some, hget, bind_some, if_neg (by omega),
    if_neg (by omega), hunmapped, if_pos rfl, hconcat,
    show front ++ s :: (mid' ++ [q] ++ t :: rest) = (front ++ [s]) ++ (mid' ++ q :: t :: rest) by
      simp,
    eraseRange_split (by simp) (by simp; omega)]
  simp

end

/-! ## The stretches of blocks -/

/-- The rest of a mapped block behind the end of the range. -/
def tailBlock (P : PaSpec π) (p : MapBlock π χ) (virtEnd : Nat) : MapBlock π χ :=
  { p with virt := virtEnd, phys := physAt P p virtEnd }

/-- What an unmap does to the blocks `mid` inside the range and `back` from its
end on: the stretch `old` gives way to `new`, whether the assertion fires, and the
block inside the range that survives. -/
inductive Unmapping (P : PaSpec π) (noExtra : χ) (s : MapBlock π χ) (virt virtEnd : Nat) :
    (mid back old rest new : List (MapBlock π χ)) → Bool → Option (MapBlock π χ) → Prop
  | keepPred {back : List (MapBlock π χ)} (hs : isUnmapped P s = true) :
      Unmapping P noExtra s virt virtEnd [] back [] back [] false none
  | keepLast {p : MapBlock π χ} {back : List (MapBlock π χ)} (hp : isUnmapped P p = true)
      (hvirt : p.virt = virt) :
      Unmapping P noExtra s virt virtEnd [p] back [p] back [p] false none
  | insertHead {h : MapBlock π χ} {back : List (MapBlock π χ)} (hs : isUnmapped P s = false)
      (hvirt : h.virt = virtEnd) (hh : isUnmapped P h = false) :
      Unmapping P noExtra s virt virtEnd [] (h :: back) [] (h :: back)
        [⟨virt, P.unmappedPa, noExtra⟩] false none
  | insertBoth {h : MapBlock π χ} {back : List (MapBlock π χ)} (hs : isUnmapped P s = false)
      (hvirt : h.virt ≠ virtEnd) :
      Unmapping P noExtra s virt virtEnd [] (h :: back) [] (h :: back)
        [⟨virt, P.unmappedPa, noExtra⟩, tailBlock P s virtEnd] false none
  | eraseLast {mid : List (MapBlock π χ)} {p : MapBlock π χ} {back : List (MapBlock π χ)}
      (hp : isUnmapped P p = true) (hvirt : virt < p.virt) (hs : isUnmapped P s = true) :
      Unmapping P noExtra s virt virtEnd (mid ++ [p]) back (mid ++ [p]) back []
        (headUnmapped P back) none
  | moveLast {mid : List (MapBlock π χ)} {p : MapBlock π χ} {back : List (MapBlock π χ)}
      (hp : isUnmapped P p = true) (hvirt : virt < p.virt) (hs : isUnmapped P s = false) :
      Unmapping P noExtra s virt virtEnd (mid ++ [p]) back (mid ++ [p]) back
        [{ p with virt := virt }] mid.isEmpty none
  | eraseEnd {mid : List (MapBlock π χ)} {h : MapBlock π χ} {back : List (MapBlock π χ)}
      (hmid : isUnmapped P (mid.getLastD s) = false) (hvirt : h.virt = virtEnd)
      (hh : isUnmapped P h = true) (hs : isUnmapped P s = true) :
      Unmapping P noExtra s virt virtEnd mid (h :: back) (mid ++ [h]) back []
        (headUnmapped P back) none
  | moveEnd {mid : List (MapBlock π χ)} {h : MapBlock π χ} {back : List (MapBlock π χ)}
      (hmid : isUnmapped P (mid.getLastD s) = false) (hvirt : h.virt = virtEnd)
      (hh : isUnmapped P h = true) (hs : isUnmapped P s = false) :
      Unmapping P noExtra s virt virtEnd mid (h :: back) (mid ++ [h]) back
        [{ h with virt := virt }] mid.isEmpty none
  | leaveLast {mid : List (MapBlock π χ)} {p h : MapBlock π χ} {back : List (MapBlock π χ)}
      (hp : isUnmapped P p = false) (hvirt : h.virt = virtEnd) (hh : isUnmapped P h = false)
      (hs : isUnmapped P s = true) :
      Unmapping P noExtra s virt virtEnd (mid ++ [p]) (h :: back) (mid ++ [p]) (h :: back) [p]
        false (some p)
  | reuseHead {m : MapBlock π χ} {mid : List (MapBlock π χ)} {h : MapBlock π χ}
      {back : List (MapBlock π χ)} (hmid : isUnmapped P ((m :: mid).getLastD s) = false)
      (hvirt : h.virt = virtEnd) (hh : isUnmapped P h = false) (hs : isUnmapped P s = false) :
      Unmapping P noExtra s virt virtEnd (m :: mid) (h :: back) (m :: mid) (h :: back)
        [{ m with virt := virt, phys := P.unmappedPa }] false none
  | splitLast {p h : MapBlock π χ} {back : List (MapBlock π χ)} (hp : isUnmapped P p = false)
      (hvirt : h.virt ≠ virtEnd) (hs : isUnmapped P s = true) :
      Unmapping P noExtra s virt virtEnd [p] (h :: back) [p] (h :: back)
        [tailBlock P p virtEnd] false none
  | splitInsert {p h : MapBlock π χ} {back : List (MapBlock π χ)} (hp : isUnmapped P p = false)
      (hvirt : h.virt ≠ virtEnd) (hs : isUnmapped P s = false) :
      Unmapping P noExtra s virt virtEnd [p] (h :: back) [p] (h :: back)
        [⟨virt, P.unmappedPa, noExtra⟩, tailBlock P p virtEnd] false none
  | splitLeave {mid : List (MapBlock π χ)} {q p h : MapBlock π χ} {back : List (MapBlock π χ)}
      (hp : isUnmapped P p = false) (hvirt : h.virt ≠ virtEnd) (hs : isUnmapped P s = true) :
      Unmapping P noExtra s virt virtEnd (mid ++ [q] ++ [p]) (h :: back) (mid ++ [q] ++ [p])
        (h :: back) [q, tailBlock P p virtEnd] false (some q)
  | splitReuse {m : MapBlock π χ} {mid : List (MapBlock π χ)} {p h : MapBlock π χ}
      {back : List (MapBlock π χ)} (hp : isUnmapped P p = false) (hvirt : h.virt ≠ virtEnd)
      (hs : isUnmapped P s = false) :
      Unmapping P noExtra s virt virtEnd (m :: mid ++ [p]) (h :: back) (m :: mid ++ [p])
        (h :: back) [{ m with virt := virt, phys := P.unmappedPa }, tailBlock P p virtEnd] false
        none

/-- An unmap does one of these. -/
abbrev Unmaps (P : PaSpec π) (noExtra : χ) (blocks front : List (MapBlock π χ)) (s : MapBlock π χ)
    (mid back : List (MapBlock π χ)) (virt virtEnd : Nat) : Prop :=
  ∃ old rest new asserted left,
    Unmapping P noExtra s virt virtEnd mid back old rest new asserted left ∧
      unmapBlocks P noExtra blocks virt virtEnd =
        some (front ++ s :: (new ++ rest), contiguous asserted)

section
variable (noExtra : χ) (h : Parts blocks front s mid back virt virtEnd) (hlt : virt < virtEnd)
include h hlt

lemma unmapBlocks_of_unmapped (hsorted : mid.Pairwise fun a b => a.virt < b.virt)
    (hpred : isUnmapped P (mid.getLastD s) = true) :
    Unmaps P noExtra blocks front s mid back virt virtEnd := by
  have hsucc := h.lowerBlock_eq hlt
  have hget := h.getElem?_pred
  rw [Unmaps, unmapBlocks, hsucc, if_neg (by omega),
    show front.length + 1 + mid.length - 1 = front.length + mid.length by omega, hget,
    bind_some, if_pos hpred]
  obtain ⟨rfl, -, hs, hmid, hback⟩ := h
  rcases eq_nil_or_concat' mid with rfl | ⟨mid, p, rfl⟩
  · refine ⟨[], back, [], false, none, .keepPred hpred, ?_⟩
    exact if_neg (not_lt.2 hs.le)
  rw [getLastD_concat] at hpred ⊢
  have hge : ∀ b ∈ mid ++ p :: back, virt ≤ b.virt := by
    intro b hb
    rcases mem_append.1 hb with hb | hb
    · exact (hmid b (by simp [hb])).1
    · rcases mem_cons.1 hb with rfl | hb
      · exact (hmid b (by simp)).1
      · exact hlt.le.trans (hback b hb)
  by_cases hvirt : virt < p.virt
  · rw [if_pos hvirt, show front ++ s :: (mid ++ [p] ++ back) =
      front ++ s :: (mid ++ p :: back) by simp,
      show front.length + (mid ++ [p]).length = front.length + 1 + mid.length by simp; omega]
    cases hstart : isUnmapped P s with
    | true =>
      exact ⟨_, _, _, _, _, .eraseLast hpred hvirt hstart, eraseBlocks_of_unmapped hs hge hstart⟩
    | false =>
      exact ⟨_, _, _, _, _, .moveLast hpred hvirt hstart, eraseBlocks_of_mapped hs hge hstart⟩
  -- a block at the start of the range is the only one inside
  have hp : p.virt = virt := le_antisymm (not_lt.1 hvirt) (hmid p (by simp)).1
  have hnil : mid = [] := eq_nil_iff_forall_not_mem.2 fun b hb => by
    have hbp := (pairwise_append.1 hsorted).2.2 b hb p (by simp)
    have := (hmid b (by simp [hb])).1
    omega
  subst hnil
  refine ⟨_, _, _, _, _, .keepLast hpred hp, ?_⟩
  rw [if_neg hvirt]
  rfl

lemma unmapBlocks_of_mapped (hend : back ≠ []) (hpred : isUnmapped P (mid.getLastD s) = false) :
    Unmaps P noExtra blocks front s mid back virt virtEnd := by
  have hsucc := h.lowerBlock_eq hlt
  have hget := h.getElem?_pred
  have hnext := h.getElem?_back
  obtain ⟨b, back, rfl⟩ := exists_cons_of_ne_nil hend
  rw [List.head?_cons] at hnext
  rw [Unmaps, unmapBlocks, hsucc, if_neg (by omega),
    show front.length + 1 + mid.length - 1 = front.length + mid.length by omega, hget,
    bind_some, hpred, if_neg Bool.false_ne_true, hnext, bind_some]
  obtain ⟨rfl, -, hs, hmid, hback⟩ := h
  have hback' : ∀ c ∈ back, virtEnd ≤ c.virt := fun c hc => hback c (mem_cons_of_mem _ hc)
  have hge : ∀ c ∈ mid ++ b :: back, virt ≤ c.virt := by
    intro c hc
    rcases mem_append.1 hc with hc | hc
    · exact (hmid c hc).1
    · exact hlt.le.trans (hback c hc)
  by_cases hvirt : b.virt = virtEnd
  · cases hb : isUnmapped P b with
    | true =>
      rw [if_pos ⟨hvirt, rfl⟩]
      cases hstart : isUnmapped P s with
      | true =>
        exact ⟨_, _, _, _, _, .eraseEnd hpred hvirt hb hstart,
          eraseBlocks_of_unmapped hs hge hstart⟩
      | false =>
        exact ⟨_, _, _, _, _, .moveEnd hpred hvirt hb hstart, eraseBlocks_of_mapped hs hge hstart⟩
    | false =>
      rw [if_neg (by simp), if_neg (not_not.2 hvirt)]
      rcases eq_nil_or_concat' mid with rfl | ⟨mid, p, rfl⟩
      · refine ⟨_, _, _, _, _, .insertHead hpred hvirt hb, ?_⟩
        have hstart : isUnmapped P s = false := hpred
        rw [unmapStart_nil noExtra hs hlt hmid hvirt hback' rfl, hstart]
        rfl
      cases hstart : isUnmapped P s with
      | true =>
        rw [getLastD_concat] at hpred
        refine ⟨_, _, _, _, _, .leaveLast hpred hvirt hb hstart, ?_⟩
        exact unmapStart_unmapped noExtra hs hlt hmid hvirt hback' rfl hstart
      | false =>
        obtain ⟨m, rest, hcons⟩ := exists_cons_of_ne_nil (l := mid ++ [p]) (by simp)
        rw [hcons] at hpred hmid ⊢
        refine ⟨_, _, _, _, _, .reuseHead hpred hvirt hb hstart, ?_⟩
        exact unmapStart_mapped noExtra hs hlt hmid hvirt hback' rfl hstart _
  rw [if_neg (fun hc => hvirt hc.1), if_pos hvirt]
  rcases eq_nil_or_concat' mid with rfl | ⟨mid, p, rfl⟩
  · refine ⟨_, _, _, _, _, .insertBoth hpred hvirt, ?_⟩
    rw [if_neg (by simpa using hs), nil_append, append_cons, insertAt_split (by simp)]
    simp [tailBlock, contiguous]
  rw [getLastD_concat] at hpred ⊢
  have hp := hmid p (by simp)
  have hmid' : ∀ c ∈ mid, virt ≤ c.virt ∧ c.virt < virtEnd := fun c hc => hmid c (by simp [hc])
  have hset : (front ++ s :: (mid ++ [p] ++ b :: back)).set (front.length + (mid ++ [p]).length)
      (tailBlock P p virtEnd) = front ++ s :: (mid ++ tailBlock P p virtEnd :: b :: back) := by
    simp
  rw [if_pos hp.1, if_neg (by simp), ← tailBlock, hset,
    show front.length + (mid ++ [p]).length = front.length + 1 + mid.length by simp; omega]
  rcases eq_nil_or_concat' mid with rfl | ⟨mid, q, rfl⟩
  · cases hstart : isUnmapped P s with
    | true =>
      refine ⟨_, _, _, _, _, .splitLast hpred hvirt hstart, ?_⟩
      rw [unmapStart_nil noExtra hs hlt hmid' rfl hback rfl, hstart]
      rfl
    | false =>
      refine ⟨_, _, _, _, _, .splitInsert hpred hvirt hstart, ?_⟩
      rw [unmapStart_nil noExtra hs hlt hmid' rfl hback rfl, hstart]
      rfl
  cases hstart : isUnmapped P s with
  | true =>
    refine ⟨_, _, _, _, _, .splitLeave hpred hvirt hstart, ?_⟩
    have ht : (tailBlock P p virtEnd).virt = virtEnd := rfl
    rw [show front.length + 1 + (mid ++ [q] ++ [p]).length - 2 =
      front.length + (mid ++ [q]).length by simp; omega]
    exact unmapStart_unmapped noExtra hs hlt hmid' ht hback rfl hstart
  | false =>
    obtain ⟨m, rest, hcons⟩ := exists_cons_of_ne_nil (l := mid ++ [q]) (by simp)
    rw [hcons] at hmid' ⊢
    refine ⟨_, _, _, _, _, .splitReuse hpred hvirt hstart, ?_⟩
    exact unmapStart_mapped noExtra hs hlt hmid' rfl hback rfl hstart _

lemma unmapBlocks_eq (hsorted : mid.Pairwise fun a b => a.virt < b.virt)
    (hend : back = [] → isUnmapped P (mid.getLastD s) = true) :
    Unmaps P noExtra blocks front s mid back virt virtEnd := by
  cases hpred : isUnmapped P (mid.getLastD s) with
  | true => exact unmapBlocks_of_unmapped noExtra h hlt hsorted hpred
  | false =>
    have hne : back ≠ [] := fun hnil => absurd ((hend hnil).symm.trans hpred) (by decide)
    exact unmapBlocks_of_mapped noExtra h hlt hne hpred

end

/-! ## The facts about a stretch -/

lemma valueOf_of_unmapped {b : MapBlock π χ} (hb : isUnmapped P b = true) (x : Nat) :
    valueOf P b x = none :=
  if_pos hb

lemma valueOf_tailBlock {p : MapBlock π χ} (hp : isUnmapped P p = false)
    (hle : p.virt ≤ virtEnd) {x : Nat} (hx : virtEnd ≤ x) :
    valueOf P (tailBlock P p virtEnd) x = valueOf P p x :=
  valueOf_tail hle (fun _ => ⟨rfl, rfl⟩) (fun hc => absurd (hp.symm.trans hc) (by decide)) hx

section
variable {noExtra : χ} {old rest new : List (MapBlock π χ)} {asserted : Bool}
  {left : Option (MapBlock π χ)}
  (hu : Unmapping P noExtra s virt virtEnd mid back old rest new asserted left)
include hu

lemma Unmapping.split : old ++ rest = mid ++ back := by
  cases hu <;> simp

lemma Unmapping.left_mem {b : MapBlock π χ} (hb : left = some b) : b ∈ mid := by
  cases hu <;> simp_all

lemma Unmapping.last_of_nil (hrest : rest = []) : isUnmapped P (new.getLastD s) = true := by
  cases hu with
  | keepPred hs => exact hs
  | keepLast hp => exact hp
  | eraseLast _ _ hs => exact hs
  | moveLast hp => exact hp
  | eraseEnd _ _ _ hs => exact hs
  | moveEnd _ _ hh => exact hh
  | _ => cases hrest

lemma Unmapping.last (hlast : isUnmapped P ((mid ++ back).getLastD s) = true) :
    isUnmapped P ((new ++ rest).getLastD s) = true := by
  rw [← hu.split] at hlast
  cases rest with
  | nil => simpa using hu.last_of_nil rfl
  | cons b rest => simpa [List.getLast?_cons] using hlast

/-- The addresses of the range are unmapped except for those of the block that is left. -/
lemma Unmapping.inside {x : Nat} (hx : virt ≤ x) (hxend : x < virtEnd) :
    (((floor MapBlock.virt new x).or (some s)).bind fun b => valueOf P b x) =
      left.bind fun b => if b.virt ≤ x then valueOf P b x else none := by
  cases hu with
  | leaveLast _ _ _ hs =>
    rw [floor_cons]
    split <;> simp_all [valueOf_of_unmapped hs]
  | splitLeave _ _ hs =>
    rw [floor_cons, floor_of_lt (by simpa [tailBlock] using hxend)]
    split <;> simp_all [valueOf_of_unmapped hs]
  | _ => simp_all [valueOf, isUnmapped, floor_cons, tailBlock, not_le.2 hxend]

variable (h : Parts blocks front s mid back virt virtEnd)
include h

lemma Unmapping.rest_range : ∀ b ∈ rest, virtEnd ≤ b.virt := by
  have hback := h.back
  cases hu with
  | eraseEnd | moveEnd => exact fun b hb => hback b (mem_cons_of_mem _ hb)
  | _ => exact hback

variable (hlt : virt < virtEnd)
include hlt

lemma Unmapping.old_range : ∀ b ∈ old, virt ≤ b.virt ∧ b.virt ≤ virtEnd := by
  have hmid := h.mid_le
  cases hu with
  | keepPred | insertHead | insertBoth => nofun
  | eraseEnd _ hvirt | moveEnd _ hvirt =>
    intro b hb
    rcases mem_append.1 hb with hb | hb
    · exact hmid b hb
    · rw [mem_singleton.1 hb]
      omega
  | _ => exact hmid

lemma Unmapping.new_range : ∀ b ∈ new, virt ≤ b.virt ∧ b.virt ≤ virtEnd := by
  have hmid := h.mid_le
  cases hu <;> simp_all [tailBlock, hlt.le]

/-- A block that ends the range is in front of the blocks behind it. -/
lemma Unmapping.new_lt (hsorted : back.Pairwise fun a b => a.virt < b.virt) :
    ∀ b ∈ new, ∀ c ∈ rest, b.virt < c.virt := by
  have hrest := hu.rest_range h
  have hnew := hu.new_range h hlt
  have hmid := h.mid
  have hback := h.back
  intro b hb c hc
  cases hu with
  | insertBoth _ hvirt | splitLast _ hvirt | splitInsert _ hvirt | splitLeave _ hvirt
  | splitReuse _ hvirt =>
    exact (hnew b hb).2.trans_lt (above_of_ne hsorted hback hvirt c hc)
  | keepLast | leaveLast => exact (hmid b (by simp_all)).2.trans_le (hrest c hc)
  | insertHead | moveLast | moveEnd | reuseHead =>
    rw [mem_singleton.1 hb]
    exact hlt.trans_le (hrest c hc)
  | _ => cases hb

lemma Unmapping.sorted (hsorted : (mid ++ back).Pairwise fun a b => a.virt < b.virt) :
    (new ++ rest).Pairwise fun a b => a.virt < b.virt := by
  have hback := (pairwise_append.1 hsorted).2.1
  have hlt' := hu.new_lt h hlt hback
  have hmid := h.mid
  cases hu <;> simp_all [tailBlock]

lemma Unmapping.after {x : Nat} (hx : virtEnd ≤ x) (hnone : floor MapBlock.virt rest x = none) :
    ((new.getLast?.or (some s)).bind fun b => valueOf P b x) =
      (old.getLast?.or (some s)).bind fun b => valueOf P b x := by
  have hmid := h.mid
  have hpred := h.pred.le.trans hlt.le
  cases hu with
  | keepPred | keepLast => rfl
  | insertHead _ hvirt | leaveLast _ hvirt | reuseHead _ hvirt =>
    have := lt_of_floor_eq_none hnone mem_cons_self
    omega
  | insertBoth hs => simp [valueOf_tailBlock hs hpred hx]
  | splitLast hp | splitInsert hp =>
    have hle := (hmid _ (mem_singleton_self _)).2.le
    simp [valueOf_tailBlock hp hle hx]
  | splitLeave hp | splitReuse hp =>
    have hle := (hmid _ (mem_append_right _ (mem_singleton_self _))).2.le
    simp [valueOf_tailBlock hp hle hx, List.getLast?_cons]
  | _ => simp_all [valueOf, isUnmapped]

/-- An unmap changes the range only, where it unmaps everything except for the block that is
left. -/
lemma Unmapping.translate_eq (x : Nat) :
    translate P (front ++ s :: (new ++ rest)) x =
      if virt ≤ x ∧ x < virtEnd then left.bind fun b => if b.virt ≤ x then valueOf P b x else none
      else translate P blocks x := by
  have hlast : (front ++ [s]).getLast? = some s := by simp
  have hreplace := translate_replace (P := P)
    (D := fun y => left.bind fun b => if b.virt ≤ y then valueOf P b y else none) hlt.le h.low
    (hu.old_range h hlt) (hu.new_range h hlt) (hu.rest_range h)
    (fun y hy hyend => by
      rw [hlast]
      exact hu.inside hy hyend)
    (fun y hy hnone => by
      rw [hlast]
      exact hu.after h hlt hy hnone) x
  rw [hu.split] at hreplace
  rw [h.eq, append_cons, hreplace, ← append_cons]

end

/-! ## When an unmap is right -/

/-- The condition over the last block `s` below the range, the blocks `mid` inside
and the blocks `back` from its end on. -/
def unmappableParts (P : PaSpec π) (s : MapBlock π χ) (mid back : List (MapBlock π χ))
    (virt virtEnd : Nat) : Bool :=
  if isUnmapped P (mid.getLastD s) then
    (mid.getLastD s).virt ≤ virt ||
      if isUnmapped P s then !headUnmapped P back else decide (1 < mid.length)
  else if back.head?.any fun b => b.virt == virtEnd && isUnmapped P b then
    if isUnmapped P s then !headUnmapped P back.tail else !mid.isEmpty
  else
    !isUnmapped P s ||
      (back.head?.all fun b => b.virt != virtEnd) && isUnmapped P (mid.dropLast.getLastD s)

/-- An unmap of the range from `virt` to `virtEnd` is right. -/
def unmappable (P : PaSpec π) (blocks : List (MapBlock π χ)) (virt virtEnd : Nat) : Bool :=
  (blocks.filter fun b => b.virt < virt).getLast?.any fun s =>
    unmappableParts P s (blocks.filter fun b => virt ≤ b.virt ∧ b.virt < virtEnd)
      (blocks.filter fun b => virtEnd ≤ b.virt) virt virtEnd

lemma Parts.unmappable_eq (h : Parts blocks front s mid back virt virtEnd) (hlt : virt < virtEnd) :
    unmappable P blocks virt virtEnd = unmappableParts P s mid back virt virtEnd := by
  obtain ⟨hlow, hmid, hback⟩ := filter_split hlt.le h.low h.mid h.back
  rw [← append_cons, ← h.eq] at hlow hmid hback
  rw [unmappable, hlow, hmid, hback, List.getLast?_concat, any_some]

lemma Unmapping.right_iff {noExtra : χ} {old rest new : List (MapBlock π χ)} {asserted : Bool}
    {left : Option (MapBlock π χ)}
    (hu : Unmapping P noExtra s virt virtEnd mid back old rest new asserted left)
    (hs : s.virt < virt) :
    asserted = false ∧ (left.all fun b => isUnmapped P b) = true ↔
      unmappableParts P s mid back virt virtEnd = true := by
  cases hu with
  | keepPred => simp_all [unmappableParts, hs.le]
  | moveLast _ hvirt => simp_all [unmappableParts, not_le.2 hvirt, length_pos_iff]
  | _ => simp_all [unmappableParts, headUnmapped]

/-- Every unmap keeps the blocks well-formed.  It asserts nothing and unmaps exactly the range
if and only if the range is unmappable. -/
lemma unmapBlocks_spec (noExtra : χ) (hwf : WellFormed P blocks) (hvirt : 0 < virt)
    (hlt : virt < virtEnd) :
    ∃ after assertions, unmapBlocks P noExtra blocks virt virtEnd = some (after, assertions) ∧
      WellFormed P after ∧ (∀ b ∈ after, b ∈ blocks ∨ virt ≤ b.virt ∧ b.virt ≤ virtEnd) ∧
      (∀ x, ¬ (virt ≤ x ∧ x < virtEnd) → translate P after x = translate P blocks x) ∧
      ((assertions = [] ∧ ∀ x, virt ≤ x → x < virtEnd → translate P after x = none) ↔
        unmappable P blocks virt virtEnd = true) := by
  obtain ⟨front, s, mid, back, h, hlast, hsorted⟩ := hwf.exists_parts hvirt hlt.le
  have hend : back = [] → isUnmapped P (mid.getLastD s) = true := fun hnil => by
    simpa [hnil] using hlast
  obtain ⟨old, rest, new, asserted, left, hu, heq⟩ :=
    unmapBlocks_eq noExtra h hlt (pairwise_append.1 hsorted).1 hend
  have htranslate := hu.translate_eq h hlt
  refine ⟨_, _, heq, h.wellFormed hwf (hu.sorted h hlt hsorted) (fun b hb => ?_)
    (hu.last (by simpa using hlast)), h.mem fun b hb => ?_, fun x hx => ?_, ?_⟩
  · rcases mem_append.1 hb with hb | hb
    · exact (hu.new_range h hlt b hb).1
    · exact hlt.le.trans (hu.rest_range h b hb)
  · rcases mem_append.1 hb with hb | hb
    · exact .inr (hu.new_range h hlt b hb)
    · exact .inl (hu.split ▸ mem_append_right _ hb)
  · rw [htranslate, if_neg hx]
  · rw [h.unmappable_eq hlt, ← hu.right_iff h.pred]
    have hassert : contiguous asserted = [] ↔ asserted = false := by cases asserted <;> decide
    refine and_congr hassert ⟨fun hnone => ?_, fun hleft x hx hxend => ?_⟩
    · cases left with
      | none => rfl
      | some b =>
        -- the first address of the block that is left
        obtain ⟨hb, hbend⟩ := h.mid b (hu.left_mem rfl)
        have hvalue := hnone b.virt hb hbend
        rw [htranslate, if_pos ⟨hb, hbend⟩, bind_some, if_pos le_rfl] at hvalue
        simpa [valueOf] using hvalue
    · rw [htranslate, if_pos ⟨hx, hxend⟩]
      cases left with
      | none => rfl
      | some b => simp [valueOf_of_unmapped hleft]

end Drippu.Common.AddressSpace
