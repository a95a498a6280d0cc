import Drippu.Common.AddressSpace

/-!
# Common - Mapping is pointwise correct

The blocks of an address space are split at the two ends of a range: the blocks below the
range, of which `s` is the last, the blocks that start inside of it and the blocks
from its end on.  A map replaces the middle by the new block and makes sure that a block
starts at the end of the range.
-/

namespace Drippu.Common.AddressSpace

open Library List Option

variable {π χ : Type} {blocks front mid back : List (MapBlock π χ)} {s : MapBlock π χ}
  {virt virtEnd : Nat}

/-! ## Positions -/

/-- The blocks split at the two ends of a range. -/
structure Parts (blocks front : List (MapBlock π χ)) (s : MapBlock π χ)
    (mid back : List (MapBlock π χ)) (virt virtEnd : Nat) : Prop where
  eq : blocks = front ++ s :: (mid ++ back)
  front : ∀ b ∈ front, b.virt < virt
  pred : s.virt < virt
  mid : ∀ b ∈ mid, virt ≤ b.virt ∧ b.virt < virtEnd
  back : ∀ b ∈ back, virtEnd ≤ b.virt

variable {b new t : MapBlock π χ}

/-- The walk back from a block that starts inside or at the end of the range. -/
lemma walkBackTo_eq {i : Nat} (hs : s.virt < virt) (hle : virt ≤ virtEnd)
    (hmid : ∀ b ∈ mid, virt ≤ b.virt ∧ b.virt < virtEnd) (ht : t.virt = virtEnd)
    (hback : ∀ b ∈ back, virtEnd ≤ b.virt) (hi : front.length ≤ i)
    (hi' : i ≤ front.length + 1 + mid.length) :
    walkBackTo (front ++ s :: (mid ++ t :: back)) virt i = some front.length := by
  obtain ⟨k, rfl⟩ := Nat.exists_eq_add_of_le hi
  refine walkBack_append hs (fun b hb => ?_) (by simp; omega)
  rcases mem_append.1 hb with hb | hb
  · exact (hmid b hb).1
  · rcases mem_cons.1 hb with rfl | hb
    · omega
    · have := hback b hb
      omega

/-- A block starts at the end of the range: the blocks inside give way to the new one. -/
lemma mapStart_eq (hpred : s.virt < new.virt)
    (hmid : ∀ b ∈ mid, new.virt ≤ b.virt ∧ b.virt < virtEnd) (hlt : new.virt < virtEnd)
    (ht : t.virt = virtEnd) (hback : ∀ b ∈ back, virtEnd ≤ b.virt) :
    mapStart (front ++ s :: (mid ++ t :: back)) new virtEnd (front.length + 1 + mid.length) =
      some (front ++ s :: new :: t :: back, []) := by
  have hwalk : walkBackTo (front ++ s :: (mid ++ t :: back)) new.virt
      (front.length + 1 + mid.length - 1) = some front.length :=
    walkBackTo_eq hpred hlt.le hmid ht hback (by omega) (by omega)
  rw [mapStart, if_neg (by omega), hwalk, bind_some]
  cases mid with
  | nil =>
    rw [nil_append, append_cons, getElem?_split (by simp), bind_some,
      if_neg (by omega), if_pos ht, insertAt_split (by simp)]
    simp
  | cons m mid =>
    have hm := hmid m mem_cons_self
    rw [append_cons, List.cons_append, getElem?_split (by simp), bind_some,
      if_neg (by omega), if_neg (by omega), append_cons, eraseRange_split (by simp)
        (by simp; omega), List.append_assoc, singleton_append, set_split (by simp)]
    simp

section
variable (h : Parts blocks front s mid back virt virtEnd)
include h

lemma Parts.lowerBlock_eq (hlt : virt < virtEnd) :
    lowerBlock blocks virtEnd = front.length + 1 + mid.length := by
  have hlow : ∀ b ∈ front ++ s :: mid, b.virt < virtEnd := by
    intro b hb
    simp only [mem_append, mem_cons] at hb
    rcases hb with hb | rfl | hb
    · exact (h.front b hb).trans hlt
    · exact h.pred.trans hlt
    · exact (h.mid b hb).2
  rw [h.eq, show front ++ s :: (mid ++ back) = (front ++ s :: mid) ++ back by simp, lowerBlock,
    lowerBound_append hlow h.back]
  simp
  omega

lemma Parts.getElem?_back : blocks[front.length + 1 + mid.length]? = back.head? := by
  rw [h.eq, show front ++ s :: (mid ++ back) = (front ++ s :: mid) ++ back by simp,
    List.getElem?_append_right (by simp; omega), List.head?_eq_getElem?]
  congr 1
  simp
  omega

lemma Parts.getElem?_pred : blocks[front.length + mid.length]? = some (mid.getLastD s) := by
  rw [h.eq]
  rcases eq_nil_or_concat' mid with rfl | ⟨mid, p, rfl⟩
  · exact getElem?_split rfl s _
  · rw [getLastD_concat,
      show front ++ s :: (mid ++ [p] ++ back) = (front ++ s :: mid) ++ p :: back by simp]
    exact getElem?_split (by simp) p back

lemma Parts.getLast?_eq : blocks.getLast? = some (back.getLastD (mid.getLastD s)) := by
  rw [h.eq, List.getLast?_append, List.getLast?_cons]
  simp

lemma Parts.low : ∀ b ∈ front ++ [s], b.virt < virt := by
  intro b hb
  rcases mem_append.1 hb with hb | hb
  · exact h.front b hb
  · rw [mem_singleton.1 hb]
    exact h.pred

lemma Parts.mid_le : ∀ b ∈ mid, virt ≤ b.virt ∧ b.virt ≤ virtEnd := fun b hb =>
  ⟨(h.mid b hb).1, (h.mid b hb).2.le⟩

lemma Parts.pred_le (hle : virt ≤ virtEnd) : (mid.getLastD s).virt ≤ virtEnd := by
  rcases eq_nil_or_concat' mid with rfl | ⟨mid, p, rfl⟩
  · exact h.pred.le.trans hle
  · rw [getLastD_concat]
    exact (h.mid p (by simp)).2.le

end

/-- No block starts at the end of the range when the first one behind it does not. -/
lemma above_of_ne (hsorted : (b :: back).Pairwise fun a b => a.virt < b.virt)
    (hback : ∀ c ∈ b :: back, virtEnd ≤ c.virt) (hne : b.virt ≠ virtEnd) :
    ∀ c ∈ b :: back, virtEnd < c.virt := by
  have hb : virtEnd < b.virt := lt_of_le_of_ne (hback b mem_cons_self) (Ne.symm hne)
  exact forall_mem_cons.2 ⟨hb, fun c hc => hb.trans ((pairwise_cons.1 hsorted).1 c hc)⟩

variable [DecidableEq π] {P : PaSpec π}

/-- The blocks are sorted, begin with an unmapped block at address zero and end with an
unmapped block. -/
structure WellFormed (P : PaSpec π) (blocks : List (MapBlock π χ)) : Prop where
  sorted : blocks.Pairwise fun a b => a.virt < b.virt
  first : ∃ b, blocks.head? = some b ∧ b.virt = 0 ∧ isUnmapped P b = true
  terminated : ∃ b, blocks.getLast? = some b ∧ isUnmapped P b = true

/-- The last block, and with it the blocks inside the range or behind it, are as they should be. -/
lemma WellFormed.exists_parts (h : WellFormed P blocks)
    (hvirt : 0 < virt) (hle : virt ≤ virtEnd) :
    ∃ front s mid back, Parts blocks front s mid back virt virtEnd ∧
      isUnmapped P (back.getLastD (mid.getLastD s)) = true ∧
      (mid ++ back).Pairwise fun a b => a.virt < b.virt := by
  obtain ⟨low, mid, back, rfl, hlow, hmid, hback⟩ := exists_split_of_sorted h.sorted virt virtEnd
  obtain ⟨b, hb, hzero, -⟩ := h.first
  rcases eq_nil_or_concat' low with rfl | ⟨front, s, rfl⟩
  · -- the block at address zero is below the range
    rcases mem_append.1 (List.mem_of_head? (l := mid ++ back) hb) with hmem | hmem
    · have := (hmid b hmem).1
      omega
    · have := hback b hmem
      omega
  · have hparts : Parts (front ++ [s] ++ (mid ++ back)) front s mid back virt virtEnd :=
      ⟨by simp, fun b hb => hlow b (by simp [hb]), hlow s (by simp), hmid, hback⟩
    obtain ⟨last, hlast, hunmapped⟩ := h.terminated
    rw [hparts.getLast?_eq, some.injEq] at hlast
    exact ⟨front, s, mid, back, hparts, hlast ▸ hunmapped, (pairwise_append.1 h.sorted).2.1⟩

section
variable (h : Parts blocks front s mid back virt virtEnd) {new : List (MapBlock π χ)}
include h

lemma Parts.wellFormed (hwf : WellFormed P blocks) (hnew : new.Pairwise fun a b => a.virt < b.virt)
    (hge : ∀ b ∈ new, virt ≤ b.virt) (hlast : isUnmapped P (new.getLastD s) = true) :
    WellFormed P (front ++ s :: new) := by
  refine ⟨?_, ?_, new.getLastD s, by simp [List.getLast?_cons], hlast⟩
  · have hsorted := hwf.sorted
    rw [h.eq, append_cons, pairwise_append] at hsorted
    rw [append_cons, pairwise_append]
    exact ⟨hsorted.1, hnew, fun a ha b hb => (h.low a ha).trans_le (hge b hb)⟩
  · obtain ⟨b, hb, hzero⟩ := hwf.first
    refine ⟨b, ?_, hzero⟩
    rw [← hb, h.eq]
    cases front <;> rfl

lemma Parts.mem {R : MapBlock π χ → Prop} (hnew : ∀ b ∈ new, b ∈ mid ++ back ∨ R b) :
    ∀ b ∈ front ++ s :: new, b ∈ blocks ∨ R b := by
  intro b hb
  rw [h.eq]
  simp only [mem_append, mem_cons] at hb hnew ⊢
  have := hnew b
  tauto

end

/-! ## Translations -/

/-- A stretch of blocks with keys from one address to another is replaced. -/
lemma translate_replace {front old new back : List (MapBlock π χ)} {lo hi : Nat}
    {D : Nat → Option (π × χ)} (hlo : lo ≤ hi) (hfront : ∀ b ∈ front, b.virt < lo)
    (hold : ∀ b ∈ old, lo ≤ b.virt ∧ b.virt ≤ hi) (hnew : ∀ b ∈ new, lo ≤ b.virt ∧ b.virt ≤ hi)
    (hback : ∀ b ∈ back, hi ≤ b.virt)
    (hinside : ∀ x, lo ≤ x → x < hi →
      (((floor MapBlock.virt new x).or front.getLast?).bind fun b => valueOf P b x) = D x)
    (hafter : ∀ x, hi ≤ x → floor MapBlock.virt back x = none →
      ((new.getLast?.or front.getLast?).bind fun b => valueOf P b x) =
        (old.getLast?.or front.getLast?).bind fun b => valueOf P b x) (x : Nat) :
    translate P (front ++ (new ++ back)) x =
      if lo ≤ x ∧ x < hi then D x else translate P (front ++ (old ++ back)) x := by
  obtain ⟨hbelow, hin, habove⟩ := floor_replace (x := x) hlo hfront hold hnew hback
  simp only [translate]
  split <;> rename_i hx
  · rw [hin hx.1 hx.2, hinside x hx.1 hx.2]
  rcases lt_or_ge x lo with hlt | hge
  · rw [hbelow hlt]
  have hx : hi ≤ x := by omega
  rw [(habove hx).1, (habove hx).2]
  cases hfloor : floor MapBlock.virt back x with
  | some b => rfl
  | none => simpa using hafter x hx hfloor

lemma isUnmapped_iff : isUnmapped P b = true ↔ b.phys = P.unmappedPa := by
  simp [isUnmapped]

lemma physAt_ne (hb : isUnmapped P b = false) (virt : Nat) : physAt P b virt ≠ P.unmappedPa := by
  have hne : b.phys ≠ P.unmappedPa := by simpa [isUnmapped] using hb
  rw [physAt, advance]
  split
  · exact P.add_ne _ _ hne
  · exact hne

/-- The rest of a block behind a split is worth what the block was. -/
lemma valueOf_tail {pred : MapBlock π χ} {phys : π} {extra : χ} (hle : pred.virt ≤ virtEnd)
    (hmapped : isUnmapped P pred = false → phys = physAt P pred virtEnd ∧ extra = pred.extraInfo)
    (hunmapped : isUnmapped P pred = true → phys = P.unmappedPa) {x : Nat} (hx : virtEnd ≤ x) :
    valueOf P ⟨virtEnd, phys, extra⟩ x = valueOf P pred x := by
  cases hpred : isUnmapped P pred with
  | true =>
    obtain rfl := hunmapped hpred
    simp only [valueOf, hpred, if_true]
    exact if_pos (isUnmapped_iff.2 rfl)
  | false =>
    obtain ⟨rfl, rfl⟩ := hmapped hpred
    have htail : isUnmapped P
        (⟨virtEnd, physAt P pred virtEnd, pred.extraInfo⟩ : MapBlock π χ) = false := by
      simpa [isUnmapped] using physAt_ne hpred virtEnd
    simp only [valueOf, hpred, htail]
    cases hsplit : P.paContigSplit with
    | false => simp [physAt, advance, hsplit]
    | true =>
      simp only [physAt, advance, hsplit, if_true, P.add_add]
      rw [show virtEnd - pred.virt + (x - virtEnd) = x - pred.virt by omega]

lemma tailPhys_spec (pred : MapBlock π χ) (virtEnd : Nat) :
    (isUnmapped P pred = true → tailPhys P pred virtEnd = P.unmappedPa) ∧
      (isUnmapped P pred = false → tailPhys P pred virtEnd = physAt P pred virtEnd) := by
  refine ⟨fun h => ?_, fun h => ?_⟩
  · simp [tailPhys, h, isUnmapped_iff.1 h]
  · cases hsplit : P.paContigSplit <;> simp [tailPhys, physAt, advance, h, hsplit]

/-! ## The blocks after a map -/

/-- The new block is followed by a block at the end of the range: one that was there, or
the rest of the last block below the end. -/
lemma mapBlocks_eq (noExtra : χ) (h : Parts blocks front s mid back new.virt virtEnd)
    (hlt : new.virt < virtEnd) (hsorted : back.Pairwise fun a b => a.virt < b.virt)
    (hend : back = [] → isUnmapped P (mid.getLastD s) = true) :
    ∃ t rest, mapBlocks P noExtra blocks new virtEnd =
        some (front ++ s :: new :: t :: rest, []) ∧ t.virt = virtEnd ∧
      (t :: rest = back ∨ rest = back ∧ (∀ b ∈ back, virtEnd < b.virt) ∧
        t.phys = tailPhys P (mid.getLastD s) virtEnd ∧
        (isUnmapped P (mid.getLastD s) = false → t.extraInfo = (mid.getLastD s).extraInfo)) := by
  have hsucc := h.lowerBlock_eq hlt
  have hnext := h.getElem?_back
  obtain ⟨rfl, -, hpred, hmid, hback⟩ := h
  rw [mapBlocks, hsucc, if_neg (by omega)]
  rcases eq_nil_or_concat' mid with rfl | ⟨mid, p, rfl⟩
  · -- the last block below the end starts below the range
    rw [length_nil, add_zero, nil_append] at hnext ⊢
    rw [Nat.add_sub_cancel, getElem?_split rfl, bind_some, hnext]
    have hkeep : ¬ (front.length ≠ 0 ∧ new.virt ≤ s.virt) := by omega
    cases back with
    | nil =>
      have hs : isUnmapped P s = true := hend rfl
      refine ⟨⟨virtEnd, P.unmappedPa, noExtra⟩, [], ?_, rfl, .inr ⟨rfl, nofun, ?_, ?_⟩⟩
      · simp only [List.head?_nil, if_neg hkeep]
        rw [append_cons, insertAt_split (by simp)]
        simp
      · exact ((tailPhys_spec s virtEnd).1 hs).symm
      · exact fun hmapped => absurd (hs.symm.trans hmapped) (by decide)
    | cons b back =>
      simp only [List.head?_cons]
      by_cases hb : b.virt = virtEnd
      · refine ⟨b, back, ?_, hb, .inl rfl⟩
        rw [if_neg (not_not.2 hb)]
        exact mapStart_eq hpred hmid hlt hb fun c hc => hback c (mem_cons_of_mem _ hc)
      · refine ⟨⟨virtEnd, tailPhys P s virtEnd, s.extraInfo⟩, b :: back, ?_, rfl,
          .inr ⟨rfl, above_of_ne hsorted hback hb, rfl, fun _ => rfl⟩⟩
        rw [if_pos hb, if_neg hkeep, append_cons, insertAt_split (by simp)]
        simp
  -- the last block below the end starts inside the range
  have hp := hmid p (by simp)
  have hmid' : ∀ b ∈ mid, new.virt ≤ b.virt ∧ b.virt < virtEnd := fun b hb =>
    hmid b (by simp [hb])
  have hsplit : front ++ s :: (mid ++ [p] ++ back) = (front ++ s :: mid) ++ p :: back := by simp
  have hindex : front.length + 1 + (mid ++ [p]).length - 1 = (front ++ s :: mid).length := by
    simp
    omega
  have hreuse : (front ++ s :: mid).length ≠ 0 ∧ new.virt ≤ p.virt := ⟨by simp, hp.1⟩
  have hstart : ∀ t : MapBlock π χ, t.virt = virtEnd →
      mapStart ((front ++ s :: mid) ++ t :: back) new virtEnd (front ++ s :: mid).length =
        some (front ++ s :: new :: t :: back, []) := fun t ht => by
    rw [show (front ++ s :: mid) ++ t :: back = front ++ s :: (mid ++ t :: back) by simp,
      show (front ++ s :: mid).length = front.length + 1 + mid.length by simp; omega]
    exact mapStart_eq hpred hmid' hlt ht hback
  rw [hnext, hindex, hsplit, getElem?_split rfl, bind_some, getLastD_concat]
  rw [getLastD_concat] at hend
  cases back with
  | nil =>
    have hunmapped : isUnmapped P p = true := hend rfl
    refine ⟨{ p with virt := virtEnd }, [], ?_, rfl, .inr ⟨rfl, nofun, ?_, fun _ => rfl⟩⟩
    · simp only [List.head?_nil, if_pos hreuse]
      rw [set_split rfl, hstart _ rfl]
    · exact (isUnmapped_iff.1 hunmapped).trans ((tailPhys_spec p virtEnd).1 hunmapped).symm
  | cons b back =>
    simp only [List.head?_cons]
    by_cases hb : b.virt = virtEnd
    · refine ⟨b, back, ?_, hb, .inl rfl⟩
      rw [if_neg (not_not.2 hb), ← hsplit]
      exact mapStart_eq hpred hmid hlt hb fun c hc => hback c (mem_cons_of_mem _ hc)
    · refine ⟨{ p with virt := virtEnd, phys := tailPhys P p virtEnd }, b :: back, ?_, rfl,
        .inr ⟨rfl, above_of_ne hsorted hback hb, rfl, fun _ => rfl⟩⟩
      rw [if_pos hb, if_pos hreuse, set_split rfl, hstart _ rfl]

lemma mapBlocks_translate {rest : List (MapBlock π χ)}
    (h : Parts blocks front s mid back new.virt virtEnd) (hlt : new.virt < virtEnd)
    (ht : t.virt = virtEnd)
    (htail : t :: rest = back ∨ rest = back ∧ (∀ b ∈ back, virtEnd < b.virt) ∧
      t.phys = tailPhys P (mid.getLastD s) virtEnd ∧
      (isUnmapped P (mid.getLastD s) = false → t.extraInfo = (mid.getLastD s).extraInfo))
    (x : Nat) :
    translate P (front ++ s :: new :: t :: rest) x =
      if new.virt ≤ x ∧ x < virtEnd then valueOf P new x else translate P blocks x := by
  have hblocks : blocks = (front ++ [s]) ++ (mid ++ back) := by rw [h.eq]; simp
  rcases htail with rfl | ⟨rfl, habove, hphys, hextra⟩
  · -- a block was at the end of the range
    have hafter : translate P ((front ++ [s]) ++ ([new] ++ t :: rest)) x = _ :=
      translate_replace (D := valueOf P new) hlt.le h.low h.mid_le (by simp [hlt.le])
        h.back (fun y hy _ => by simp [floor_cons, hy])
        (fun y hy hnone => by
          have := lt_of_floor_eq_none hnone mem_cons_self
          omega) x
    rw [hblocks]
    simpa using hafter
  -- the tail block takes over from the last block below the end
  have htail : ∀ y, virtEnd ≤ y → valueOf P t y = valueOf P (mid.getLastD s) y := by
    obtain ⟨tv, tp, te⟩ := t
    obtain rfl : tv = virtEnd := ht
    refine fun y => valueOf_tail (h.pred_le hlt.le) (fun hmapped => ?_) fun hunmapped => ?_
    · exact ⟨hphys.trans ((tailPhys_spec _ _).2 hmapped), hextra hmapped⟩
    · exact hphys.trans ((tailPhys_spec _ _).1 hunmapped)
  have hafter : translate P ((front ++ [s]) ++ ([new, t] ++ rest)) x = _ :=
    translate_replace (D := valueOf P new) hlt.le h.low h.mid_le (by simp [hlt.le, ht])
      h.back (fun y hy hyend => by simp [floor_cons, hy, ht, not_le.2 hyend])
      (fun y hy _ => by
        simpa using htail y hy) x
  rw [hblocks]
  simpa using hafter

/-- A map is pointwise right and keeps the blocks well-formed.  Its new blocks start in the
range or at its end. -/
lemma mapBlocks_spec (noExtra : χ) (hwf : WellFormed P blocks) (new : MapBlock π χ)
    (hvirt : 0 < new.virt) (hlt : new.virt < virtEnd) :
    ∃ after, mapBlocks P noExtra blocks new virtEnd = some (after, []) ∧ WellFormed P after ∧
      (∀ b ∈ after, b ∈ blocks ∨ new.virt ≤ b.virt ∧ b.virt ≤ virtEnd) ∧
      ∀ x, translate P after x =
        if new.virt ≤ x ∧ x < virtEnd then valueOf P new x else translate P blocks x := by
  obtain ⟨front, s, mid, back, h, hlast, hsorted⟩ := hwf.exists_parts hvirt hlt.le
  have hback := (pairwise_append.1 hsorted).2.1
  have hend : back = [] → isUnmapped P (mid.getLastD s) = true := fun hnil => by
    simpa [hnil] using hlast
  obtain ⟨t, rest, heq, ht, htail⟩ := mapBlocks_eq noExtra h hlt hback hend
  have hrest : (t :: rest).Pairwise fun a b => a.virt < b.virt := by
    rcases htail with rfl | ⟨rfl, habove, -, -⟩
    · exact hback
    · exact pairwise_cons.2 ⟨ht ▸ habove, hback⟩
  have hge : ∀ b ∈ t :: rest, new.virt < b.virt := by
    refine forall_mem_cons.2 ⟨ht ▸ hlt, fun b hb => ?_⟩
    have := (pairwise_cons.1 hrest).1 b hb
    omega
  refine ⟨_, heq, h.wellFormed hwf (pairwise_cons.2 ⟨hge, hrest⟩)
    (forall_mem_cons.2 ⟨le_rfl, fun b hb => (hge b hb).le⟩) ?_, h.mem fun b hb => ?_,
    mapBlocks_translate h hlt ht htail⟩
  · rcases htail with rfl | ⟨rfl, -, htphys, -⟩
    · simpa [List.getLast?_cons] using hlast
    · cases rest with
      | nil => exact isUnmapped_iff.2 (htphys.trans ((tailPhys_spec _ _).1 (hend rfl)))
      | cons b rest => simpa [List.getLast?_cons] using hlast
  · simp only [mem_cons] at hb
    rcases hb with rfl | rfl | hb
    · exact .inr ⟨le_rfl, hlt.le⟩
    · exact .inr ⟨ht ▸ hlt.le, ht.le⟩
    · refine .inl (mem_append_right _ ?_)
      rcases htail with rfl | ⟨rfl, -⟩
      · exact mem_cons_of_mem _ hb
      · exact hb

end Drippu.Common.AddressSpace
