import Drippu.Kernel.MemoryBlockManager

/-!
# Kernel - Tiling and coalescing of memory blocks

The block list of `KMemoryBlockManager` tiles its address range, and no two
neighbours can merge.  The update loop breaks the second property at most at the
addresses of its range: a block split in two keeps its left merge bits in the
front piece and its right ones in the back piece, so the junctions with the
neighbours outside the range stay as they were.  The coalescing loop then walks
over exactly those junctions.

The effect of the update loop is first described by the relation
`Updated`, free of allocators and page counts; the later results are
inductions over it.
-/

namespace Drippu.Kernel

open Library KMemoryBlock
open List hiding lookup
open KMemoryBlockDisableMergeAttribute hiding none

open Option Tiles

/-! ## Block lists -/

/-- The blocks tile the addresses from `s` up to `e`. -/
abbrev BlocksTile (s e : Nat) (bs : List KMemoryBlock) : Prop :=
  Tiles KMemoryBlock.address KMemoryBlock.endAddress s e bs

/-- What the blocks say about the page at an address. -/
def pageView (bs : List KMemoryBlock) (a : Nat) : Option PageView :=
  (lookup KMemoryBlock.address KMemoryBlock.endAddress bs a).map KMemoryBlock.view

/-- No two neighbours can merge. -/
def Coalesced (bs : List KMemoryBlock) : Prop :=
  bs.IsChain fun b c => b.canMergeWith c = false

/-- No two neighbours that meet outside the addresses from `lo` to `hi`
can merge. -/
def CoalescedOutside (lo hi : Nat) (bs : List KMemoryBlock) : Prop :=
  bs.IsChain fun b c => c.address < lo ∨ hi < c.address → b.canMergeWith c = false

variable {b c it : KMemoryBlock}

lemma endAddress_aligned (h : b.address % pageSize = 0) : b.endAddress % pageSize = 0 := by
  simp only [KMemoryBlock.endAddress, KMemoryBlock.size, pageSize] at h ⊢
  omega

variable {a e hi lo s : Nat} {bs : List KMemoryBlock}

lemma BlocksTile.head_bounds (h : BlocksTile s e bs) (hb : b ∈ bs.head?) :
    b.address = s ∧ s < b.endAddress := by
  cases bs with
  | nil => simp at hb
  | cons c cs =>
    obtain rfl : c = b := by simpa using hb
    exact ⟨h.1, h.2.1⟩

lemma BlocksTile.head_ends (h : BlocksTile s e bs) : ∀ b ∈ bs.head?, s < b.endAddress :=
  fun _ hb => (h.head_bounds hb).2

/-- A page of the first block shows the view of that block. -/
lemma pageView_cons_of_lt (h1 : b.address ≤ a) (h2 : a < b.endAddress) :
    pageView (b :: bs) a = some b.view := by
  rw [pageView, lookup_cons_of_covers ⟨h1, h2⟩, map_some]

lemma pageView_cons_of_ge (h : b.endAddress ≤ a) : pageView (b :: bs) a = pageView bs a := by
  rw [pageView, lookup_cons_of_not_covers (by omega)]
  rfl

lemma BlocksTile.aligned (h : BlocksTile s e bs) (hs : s % pageSize = 0) : e % pageSize = 0 := by
  induction bs generalizing s with
  | nil => exact (show s = e from h) ▸ hs
  | cons b bs ih =>
    obtain ⟨rfl, -, hrest⟩ := h
    exact ih hrest (endAddress_aligned hs)

lemma BlocksTile.pageView_eq_none (h : BlocksTile s e bs) (ha : a < s ∨ e ≤ a) :
    pageView bs a = none := by
  rw [pageView, lookup_eq_none h ha, map_none]

/-! ## Merge edges -/

/-- The blocks look the same to a neighbour on the left. -/
structure SameLeft (b c : KMemoryBlock) : Prop where
  view_eq : c.view = b.view
  left_eq : c.disableMergeAttribute &&& allLeft =
    b.disableMergeAttribute &&& allLeft

/-- The blocks look the same to a neighbour on the right. -/
structure SameRight (b c : KMemoryBlock) : Prop where
  view_eq : c.view = b.view
  right_eq : c.disableMergeAttribute &&& allRight =
    b.disableMergeAttribute &&& allRight

lemma SameLeft.refl (b : KMemoryBlock) : SameLeft b b :=
  ⟨rfl, rfl⟩

lemma SameLeft.trans {d : KMemoryBlock} (h : SameLeft b c) (h' : SameLeft c d) : SameLeft b d :=
  ⟨h'.view_eq.trans h.view_eq, h'.left_eq.trans h.left_eq⟩

lemma SameLeft.canMergeWith_eq (h : SameLeft b c) (x : KMemoryBlock) :
    x.canMergeWith c = x.canMergeWith b := by
  rw [Bool.eq_iff_iff, canMergeWith_iff, canMergeWith_iff, h.view_eq, h.left_eq]

lemma SameRight.canMergeWith_eq (h : SameRight b c) (x : KMemoryBlock) :
    c.canMergeWith x = b.canMergeWith x := by
  rw [Bool.eq_iff_iff, canMergeWith_iff, canMergeWith_iff, h.view_eq, h.right_eq]

lemma splitFront_sameLeft (b : KMemoryBlock) (addr : Nat) : SameLeft b (b.splitFront addr) :=
  ⟨rfl, and_and_of_sub (by decide)⟩

lemma splitBack_sameRight (b : KMemoryBlock) (addr : Nat) : SameRight b (b.splitBack addr) :=
  ⟨rfl, and_and_of_sub (by decide)⟩

lemma merged_sameLeft (h : b.canMergeWith c = true) : SameLeft b (b.merged c) :=
  ⟨rfl, or_and_of_disjoint ((canMergeWith_iff b c).1 h).2.2⟩

lemma merged_sameRight (h : b.canMergeWith c = true) : SameRight c (b.merged c) := by
  obtain ⟨hview, hright, -⟩ := (canMergeWith_iff b c).1 h
  refine ⟨hview, ?_⟩
  rw [merged, BitVec.or_comm]
  exact or_and_of_disjoint hright

/-! ## The effect of the update loop -/

/-- The pieces of a block around the part of it inside a range.  `before` and
`after` hold at most the one piece that sticks out on their side. -/
structure Carved (it : KMemoryBlock) (lo hi : Nat) (before : List KMemoryBlock)
    (mid : KMemoryBlock) (after : List KMemoryBlock) : Prop where
  mid_address : mid.address = max it.address lo
  mid_endAddress : mid.endAddress = min it.endAddress hi
  mid_view : mid.view = it.view
  before_cases : (lo ≤ it.address ∧ before = []) ∨
    (it.address < lo ∧ ∃ b, before = [b] ∧ b.address = it.address ∧ b.endAddress = lo ∧
      SameLeft it b)
  after_cases : (it.endAddress ≤ hi ∧ after = []) ∨
    (hi < it.endAddress ∧ ∃ b, after = [b] ∧ b.address = hi ∧
      b.endAddress = it.endAddress ∧ SameRight it b)

/-- The blocks from the iterator on, before and after the update of the addresses
from the first index up to `hi`. -/
inductive Updated (skip : KMemoryBlock → Bool)
    (act : KMemoryBlock → Except Fault KMemoryBlock) (hi : Nat) :
    Nat → List KMemoryBlock → List KMemoryBlock → Prop
  | done {lo : Nat} {bs : List KMemoryBlock} (hdone : hi ≤ lo) : Updated skip act hi lo bs bs
  | pass {lo : Nat} {it : KMemoryBlock} {rest rest' : List KMemoryBlock} (hlo : lo < hi)
      (hskip : skip it = true) (htail : Updated skip act hi it.endAddress rest rest') :
      Updated skip act hi lo (it :: rest) (it :: rest')
  | change {lo : Nat} {it mid mid' : KMemoryBlock}
      {rest rest' before after : List KMemoryBlock} (hlo : lo < hi)
      (hskip : skip it = false) (hcarved : Carved it lo hi before mid after)
      (hact : act mid = .ok mid')
      (htail : Updated skip act hi it.endAddress rest rest') :
      Updated skip act hi lo (it :: rest) (before ++ mid' :: (after ++ rest'))

lemma Updated.eq_of_le {skip : KMemoryBlock → Bool}
    {act : KMemoryBlock → Except Fault KMemoryBlock} {bs' : List KMemoryBlock}
    (h : Updated skip act hi lo bs bs') (hle : hi ≤ lo) : bs' = bs := by
  cases h with
  | done _ => rfl
  | pass hlo _ _ | change hlo _ _ _ _ => omega

variable {allocator : UpdateAllocator}

lemma UpdateAllocator.allocate_eq_ok (h : allocator.index + 1 ≤ 2) :
    allocator.allocate = .ok { index := allocator.index + 1 } := by
  rw [allocate, if_pos]
  exact h

section
variable (halign : it.address % pageSize = 0)
include halign

/-- The two splits of the loop carve the current block, with one allocation each. -/
lemma splitBefore_spec (hlo : lo % pageSize = 0) (h1 : it.address ≤ lo) (h2 : lo < it.endAddress)
    (hbudget : allocator.index + (if it.address < lo then 2 else 1) ≤ 2) :
    ∃ before mid allocator', splitBefore it lo allocator = .ok (before, mid, allocator') ∧
      allocator'.index + 1 ≤ 2 ∧ mid.address = lo ∧ mid.endAddress = it.endAddress ∧
      SameRight it mid ∧
      ((it.address = lo ∧ before = []) ∨
        (it.address < lo ∧ ∃ b, before = [b] ∧ b.address = it.address ∧ b.endAddress = lo ∧
          SameLeft it b)) := by
  unfold splitBefore
  by_cases heq : it.address = lo
  · rw [if_neg (not_not.2 heq)]
    rw [if_neg (by omega)] at hbudget
    exact ⟨_, _, _, rfl, hbudget, heq, rfl, ⟨rfl, rfl⟩, .inl ⟨heq, rfl⟩⟩
  have hlt : it.address < lo := by omega
  rw [if_pos hlt] at hbudget
  rw [if_pos heq, UpdateAllocator.allocate_eq_ok (by omega), split_eq_ok hlo hlt h2]
  exact ⟨_, _, _, rfl, hbudget, rfl, splitBack_endAddress halign hlo h1 h2.le,
    splitBack_sameRight it lo, .inr ⟨hlt, _, rfl, rfl,
      splitFront_endAddress halign hlo h1, splitFront_sameLeft it lo⟩⟩

lemma splitAfter_spec {remainingSize : Nat} (hhi : hi % pageSize = 0)
    (hrem : it.address + remainingSize = hi) (hlt : it.address < hi)
    (hbudget : allocator.index + 1 ≤ 2) :
    ∃ mid after allocator', splitAfter it remainingSize allocator = .ok (mid, after, allocator') ∧
      mid.address = it.address ∧ mid.endAddress = min it.endAddress hi ∧
      mid.view = it.view ∧
      allocator'.index ≤ 2 ∧
      ((it.endAddress ≤ hi ∧ after = [] ∧ allocator' = allocator) ∨
        (hi < it.endAddress ∧ ∃ b, after = [b] ∧ b.address = hi ∧
          b.endAddress = it.endAddress ∧ SameRight it b)) := by
  have hend : it.endAddress = it.address + it.size := rfl
  unfold splitAfter
  by_cases hover : it.size > remainingSize
  · have hlt' : hi < it.endAddress := by omega
    rw [if_pos hover, UpdateAllocator.allocate_eq_ok hbudget, hrem, split_eq_ok hhi hlt hlt']
    refine ⟨_, _, _, rfl, rfl, ?_, rfl, hbudget, .inr ⟨hlt', _, rfl, rfl,
      splitBack_endAddress halign hhi hlt.le hlt'.le, splitBack_sameRight it hi⟩⟩
    rw [min_eq_right hlt'.le]
    exact splitFront_endAddress halign hhi hlt.le
  · have hle : it.endAddress ≤ hi := by omega
    rw [if_neg hover]
    exact ⟨_, _, _, rfl, rfl, (min_eq_left hle).symm, rfl, by omega, .inl ⟨hle, rfl, rfl⟩⟩

lemma carve_spec {remainingSize : Nat} (hloalign : lo % pageSize = 0)
    (hhialign : hi % pageSize = 0) (hrem : lo + remainingSize = hi)
    (hlohi : lo < hi) (h1 : it.address ≤ lo) (h2 : lo < it.endAddress)
    (hbudget : allocator.index + (if it.address < lo then 2 else 1) ≤ 2) :
    ∃ before mid₁ allocator₁ mid after allocator₂,
      splitBefore it lo allocator = .ok (before, mid₁, allocator₁) ∧
      splitAfter mid₁ remainingSize allocator₁ = .ok (mid, after, allocator₂) ∧
      Carved it lo hi before mid after ∧ allocator₂.index ≤ 2 ∧
      (it.endAddress ≤ hi → allocator₂.index + 1 ≤ 2) := by
  obtain ⟨before, mid₁, allocator₁, hbefore, hbudget₁, haddr₁, hend₁, hedge₁, hbeforeCases⟩ :=
    splitBefore_spec halign hloalign h1 h2 hbudget
  obtain ⟨mid, after, allocator₂, hafter, haddr, hend, hview, hbudget₂, hafterCases⟩ :=
    splitAfter_spec (haddr₁ ▸ hloalign) hhialign (haddr₁ ▸ hrem) (haddr₁ ▸ hlohi) hbudget₁
  rw [hend₁] at hafterCases
  refine ⟨before, mid₁, allocator₁, mid, after, allocator₂, hbefore, hafter,
    ⟨?_, ?_, ?_, ?_, ?_⟩, hbudget₂, ?_⟩
  · rw [haddr, haddr₁, max_eq_right h1]
  · rw [hend, hend₁]
  · rw [hview, hedge₁.view_eq]
  · rcases hbeforeCases with ⟨heq, rfl⟩ | h
    · exact .inl ⟨heq.ge, rfl⟩
    · exact .inr h
  · rcases hafterCases with ⟨hle, rfl, -⟩ | ⟨hlt, b, rfl, hb1, hb2, hb3⟩
    · exact .inl ⟨hle, rfl⟩
    · exact .inr ⟨hlt, b, rfl, hb1, hb2, hb3.view_eq.trans hedge₁.view_eq,
        hb3.right_eq.trans hedge₁.right_eq⟩
  · intro hle
    rcases hafterCases with ⟨-, -, rfl⟩ | ⟨hlt, -⟩
    · exact hbudget₁
    · omega

end

lemma Carved.remaining {mid : KMemoryBlock} {n : Nat} {before after : List KMemoryBlock}
    (h : Carved it lo hi before mid after) (hhi : lo + n * pageSize = hi) (h1 : it.address ≤ lo) :
    (it.endAddress ≤ hi ∧ mid.endAddress = it.endAddress ∧
        it.endAddress + (n - mid.numPages) * pageSize = hi) ∨
      (hi < it.endAddress ∧ mid.endAddress = hi ∧ n - mid.numPages = 0) := by
  have haddr := h.mid_address
  have hend := h.mid_endAddress
  have hsize : mid.endAddress = mid.address + mid.numPages * pageSize := rfl
  rcases lt_or_ge hi it.endAddress with hlt | hle
  · simp only [pageSize] at hhi hsize
    omega
  · simp only [pageSize] at hhi hsize ⊢
    omega

variable {skip : KMemoryBlock → Bool} {act : KMemoryBlock → Except Fault KMemoryBlock}

/-- From an iterator whose block covers the start of the range, the update loop
has the effect `Updated` unless a block operation asserts.  Only the first
block can stick out in front of the range and only the last one behind it, which
is why two blocks suffice. -/
lemma updateLoop_spec (skip : KMemoryBlock → Bool) (hact : ∀ b, AssertsOnly (act b)) :
    ∀ {s e lo : Nat} (n : Nat) (allocator : UpdateAllocator), BlocksTile s e bs →
      s % pageSize = 0 → lo % pageSize = 0 → s ≤ lo →
      (∀ b ∈ bs.head?, lo < b.endAddress) → lo + n * pageSize ≤ e →
      allocator.index + (if s < lo then 2 else 1) ≤ 2 →
      (∃ bs' allocator', updateLoop skip act bs lo n allocator = .ok (bs', allocator') ∧
        allocator'.index ≤ 2 ∧ Updated skip act (lo + n * pageSize) lo bs bs') ∨
      updateLoop skip act bs lo n allocator = .error .blockAssertion := by
  induction bs with
  | nil =>
    intro s e lo n allocator htiles _ _ hs _ hn _
    obtain rfl : n = 0 := by
      have hse : s = e := htiles
      simp only [pageSize] at hn
      omega
    exact .inl ⟨[], allocator, by simp [updateLoop], by omega, .done (by omega)⟩
  | cons it rest ih =>
    intro s e lo n allocator htiles hsalign hloalign hs hcover hn hbudget
    obtain ⟨rfl, hsize, htail⟩ := htiles
    have hlo : lo < it.endAddress := hcover it rfl
    have hendalign := endAddress_aligned hsalign
    cases n with
    | zero =>
      exact .inl ⟨it :: rest, allocator, by simp [updateLoop], by omega, .done (by omega)⟩
    | succ n =>
      obtain ⟨hi, hhi⟩ : ∃ hi, lo + (n + 1) * pageSize = hi := ⟨_, rfl⟩
      have hhialign : hi % pageSize = 0 := by
        simp only [pageSize] at hhi hloalign ⊢
        omega
      have hlohi : lo < hi := by
        simp only [pageSize] at hhi
        omega
      -- behind this block the loop starts at a block boundary
      have hnext : ∀ k allocator', it.endAddress + k * pageSize = hi →
          allocator'.index + 1 ≤ 2 →
          (∃ bs' allocator'',
            updateLoop skip act rest it.endAddress k allocator' = .ok (bs', allocator'') ∧
            allocator''.index ≤ 2 ∧ Updated skip act hi it.endAddress rest bs') ∨
          updateLoop skip act rest it.endAddress k allocator' =
            .error .blockAssertion := by
        intro k allocator' hk hbudget'
        rw [← hk]
        exact ih k allocator' htail hendalign hendalign le_rfl
          (BlocksTile.head_ends htail) (by omega)
          (by rw [if_neg (lt_irrefl _)]; exact hbudget')
      rw [hhi]
      cases hskip : skip it with
      | true =>
        simp only [updateLoop, hskip, if_true, hhi]
        by_cases hinside : hi < it.endAddress
        · rw [if_pos hinside]
          exact .inl ⟨_, _, rfl, by omega, .pass hlohi hskip (.done hinside.le)⟩
        rw [if_neg hinside]
        have hk : it.endAddress + (hi - it.endAddress) / pageSize * pageSize = hi := by
          simp only [pageSize] at hhialign hendalign ⊢
          omega
        have hbudget' : allocator.index + 1 ≤ 2 := by
          split at hbudget <;> omega
        rcases hnext _ allocator hk hbudget' with ⟨bs', allocator', hrun, hused, hupd⟩ | hrun
        · rw [hrun]
          exact .inl ⟨it :: bs', allocator', rfl, hused, .pass hlohi hskip hupd⟩
        · rw [hrun]
          exact .inr rfl
      | false =>
        simp only [updateLoop, hskip, Bool.false_eq_true, if_false]
        obtain ⟨before, mid₁, allocator₁, mid, after, allocator₂, hbefore, hafter, hcarved, hused,
          hbudget₂⟩ := carve_spec hsalign hloalign hhialign hhi hlohi hs hlo hbudget
        simp only [hbefore, hafter, bind, Except.bind]
        cases hmid : act mid with
        | error fault =>
          rw [hact mid fault hmid]
          exact .inr rfl
        | ok mid' =>
          have hcur : mid.address + mid.size = mid.endAddress := rfl
          simp only [hcur]
          rcases hcarved.remaining hhi hs with ⟨hle, hend, hk⟩ | ⟨hlt, hend, hk⟩
          · rw [hend]
            rcases hnext _ allocator₂ hk (hbudget₂ hle) with
              ⟨bs', allocator', hrun, hused, hupd⟩ | hrun
            · rw [hrun]
              exact .inl ⟨_, allocator', rfl, hused, .change hlohi hskip hcarved hmid hupd⟩
            · rw [hrun]
              exact .inr rfl
          · rw [hk, updateLoop]
            exact .inl ⟨_, allocator₂, rfl, hused, .change hlohi hskip hcarved hmid
              (.done hlt.le)⟩

/-! ## What the update loop keeps -/

/-- The carved pieces tile the block, also after the middle one has changed. -/
lemma Carved.tiles {mid mid' : KMemoryBlock} {before after : List KMemoryBlock}
    (h : Carved it lo hi before mid after) (hrange : SameRange mid mid') (h1 : it.address ≤ lo)
    (h2 : lo < it.endAddress) (hlohi : lo < hi) :
    BlocksTile it.address it.endAddress (before ++ mid' :: after) := by
  have haddr : mid'.address = lo := by
    rw [hrange.address_eq, h.mid_address, max_eq_right h1]
  have hend : mid'.endAddress = min it.endAddress hi := by
    rw [hrange.endAddress_eq, h.mid_endAddress]
  have hmid : BlocksTile lo it.endAddress (mid' :: after) := by
    refine ⟨haddr, by rw [hend]; exact lt_min h2 hlohi, ?_⟩
    rw [hend]
    rcases h.after_cases with ⟨hle, rfl⟩ | ⟨hlt, b, rfl, hb1, hb2, -⟩
    · exact min_eq_left hle
    · rw [min_eq_right hlt.le]
      exact ⟨hb1, by omega, hb2⟩
  rcases h.before_cases with ⟨hle, rfl⟩ | ⟨hlt, b, rfl, hb1, hb2, -⟩
  · rw [nil_append, le_antisymm h1 hle]
    exact hmid
  · refine ⟨hb1, by omega, ?_⟩
    rw [hb2]
    exact hmid

section
variable {lo hi s e : Nat} {bs bs' : List KMemoryBlock}

lemma Updated.tiles (h : Updated skip act hi lo bs bs')
    (hrange : ∀ b c, act b = .ok c → SameRange b c) (htiles : BlocksTile s e bs)
    (hs : s ≤ lo) (hcover : ∀ b ∈ bs.head?, lo < b.endAddress) : BlocksTile s e bs' := by
  induction h generalizing s with
  | done _ => exact htiles
  | pass _ _ _ ih =>
    obtain ⟨h1, h2, htail⟩ := htiles
    exact ⟨h1, h2, ih htail le_rfl (BlocksTile.head_ends htail)⟩
  | change hlo _ hcarved hact _ ih =>
    obtain ⟨rfl, -, htail⟩ := htiles
    have hpieces := hcarved.tiles (hrange _ _ hact) hs (hcover _ rfl) hlo
    have hrest := ih htail le_rfl (BlocksTile.head_ends htail)
    rw [← cons_append, ← append_assoc]
    exact tiles_append.2 ⟨_, hpieces, hrest⟩

lemma Updated.head_sameLeft (h : Updated skip act hi lo bs bs') {b : KMemoryBlock}
    (hb : b ∈ bs.head?) (hlt : b.address < lo) : ∃ b' ∈ bs'.head?, SameLeft b b' := by
  cases h with
  | done _ | pass _ _ _ => exact ⟨b, hb, .refl b⟩
  | change _ _ hcarved _ _ =>
    cases hb
    rcases hcarved.before_cases with ⟨hle, -⟩ | ⟨-, c, rfl, -, -, hc⟩
    · omega
    · exact ⟨c, rfl, hc⟩

/-- A junction of the block behind the range with the block that follows it. -/
lemma Updated.coalesced_tail {it last : KMemoryBlock} {rest rest' : List KMemoryBlock}
    (htail : Updated skip act hi it.endAddress rest rest') (hlast : SameRight it last)
    (hc : Coalesced (it :: rest)) (hhi : hi < it.endAddress) :
    ∀ c ∈ rest'.head?, last.canMergeWith c = false := by
  intro c hmem
  rw [htail.eq_of_le hhi.le] at hmem
  rw [hlast.canMergeWith_eq]
  exact (isChain_cons.1 hc).1 c hmem

/-- The update loop can make neighbours mergeable only inside its range. -/
lemma Updated.coalescedOutside (h : Updated skip act hi lo bs bs')
    (hrange : ∀ b c, act b = .ok c → SameRange b c) (htiles : BlocksTile s e bs)
    (hs : s ≤ lo) (hcover : ∀ b ∈ bs.head?, lo < b.endAddress) (hc : Coalesced bs) :
    CoalescedOutside lo hi bs' := by
  induction h generalizing s with
  | done _ => exact hc.imp fun _ _ hmerge _ => hmerge
  | @pass lo it rest rest' hlo _ htail ih =>
    obtain ⟨rfl, -, hrest⟩ := htiles
    have hloend : lo < it.endAddress := hcover it rfl
    have hheads := BlocksTile.head_ends hrest
    have hrest' := htail.tiles hrange hrest le_rfl hheads
    have hchain := ih hrest le_rfl hheads (isChain_cons.1 hc).2
    refine isChain_cons.2 ⟨fun c hmem hout => ?_, ?_⟩
    · have hc' := (BlocksTile.head_bounds hrest' hmem).1
      exact htail.coalesced_tail ⟨rfl, rfl⟩ hc (by omega) c hmem
    · exact hchain.imp fun _ _ hmerge hout => hmerge (by omega)
  | @change lo it mid mid' rest rest' before after hlo _ hcarved hact htail ih =>
    obtain ⟨rfl, -, hrest⟩ := htiles
    have hloend : lo < it.endAddress := hcover it rfl
    have hheads := BlocksTile.head_ends hrest
    have hrest' := htail.tiles hrange hrest le_rfl hheads
    have hchain : CoalescedOutside lo hi rest' :=
      (ih hrest le_rfl hheads (isChain_cons.1 hc).2).imp
        fun _ _ hmerge hout => hmerge (by omega)
    have hmid : mid'.address = lo := by
      rw [(hrange _ _ hact).address_eq, hcarved.mid_address, max_eq_right hs]
    -- the junctions of the pieces with each other lie at the ends of the range
    have hfrom : CoalescedOutside lo hi (mid' :: (after ++ rest')) := by
      rcases hcarved.after_cases with ⟨hle, rfl⟩ | ⟨hlt, b, rfl, hb, -, hedge⟩
      · refine isChain_cons.2 ⟨fun c hmem hout => ?_, hchain⟩
        have hc' := (BlocksTile.head_bounds hrest' hmem).1
        omega
      · refine isChain_cons.2 ⟨fun c hmem hout => ?_, isChain_cons.2
          ⟨fun c hmem _ => htail.coalesced_tail hedge hc hlt c hmem, hchain⟩⟩
        cases hmem
        omega
    rcases hcarved.before_cases with ⟨-, rfl⟩ | ⟨-, b, rfl, -⟩
    · exact hfrom
    · refine isChain_cons.2 ⟨fun c hmem hout => ?_, hfrom⟩
      cases hmem
      omega

lemma Updated.counts (h : Updated skip act hi lo bs bs') (hkeeps : ∀ b, Keeps b (act b))
    (hcounts : ∀ b ∈ bs, CountsConsistent b.view) : ∀ b ∈ bs', CountsConsistent b.view := by
  induction h with
  | done _ => exact hcounts
  | pass _ _ _ ih =>
    rw [forall_mem_cons] at hcounts ⊢
    exact ⟨hcounts.1, ih hcounts.2⟩
  | @change lo it mid mid' rest rest' before after _ _ hcarved hact _ ih =>
    rw [forall_mem_cons] at hcounts
    have hbefore : ∀ b ∈ before, CountsConsistent b.view := by
      rcases hcarved.before_cases with ⟨-, rfl⟩ | ⟨-, b, rfl, -, -, hedge⟩
      · simp
      · simpa [hedge.view_eq] using hcounts.1
    have hafter : ∀ b ∈ after, CountsConsistent b.view := by
      rcases hcarved.after_cases with ⟨-, rfl⟩ | ⟨-, b, rfl, -, -, hedge⟩
      · simp
      · simpa [hedge.view_eq] using hcounts.1
    have hmid : CountsConsistent mid'.view :=
      ((hkeeps _).preserves _ hact).counts (hcarved.mid_view ▸ hcounts.1)
    simp only [forall_mem_append, forall_mem_cons]
    exact ⟨hbefore, hmid, hafter, ih hcounts.2⟩

end

/-! ## Coalescing -/

lemma pageView_merged {prev : KMemoryBlock} {rest : List KMemoryBlock}
    (htiles : BlocksTile s e (prev :: it :: rest)) (hmerge : prev.canMergeWith it = true)
    (a : Nat) : pageView (prev.merged it :: rest) a = pageView (prev :: it :: rest) a := by
  obtain ⟨rfl, hprev, hit, hitsize, -⟩ := id htiles
  have hend : (prev.merged it).endAddress = it.endAddress := merged_endAddress hit.symm
  rcases lt_or_ge a prev.address with hlt | hge
  · rw [htiles.pageView_eq_none (.inl hlt), pageView, lookup_cons_of_not_covers
      (by rw [merged_address]; omega)]
    exact BlocksTile.pageView_eq_none htiles.2.2.2.2 (.inl (by omega))
  rcases lt_or_ge a it.endAddress with hlt | hge'
  · rw [pageView_cons_of_lt (b := prev.merged it) hge (by rw [hend]; exact hlt), merged_view]
    rcases lt_or_ge a prev.endAddress with hlt' | hge'
    · rw [pageView_cons_of_lt hge hlt']
    · rw [pageView_cons_of_ge hge', pageView_cons_of_lt (hit.le.trans hge') hlt,
        ((canMergeWith_iff prev it).1 hmerge).1]
  · rw [pageView_cons_of_ge (hend.le.trans hge'), pageView_cons_of_ge (by omega),
      pageView_cons_of_ge hge']

/-- Past the updated range every remaining junction is already settled. -/
lemma coalesced_of_lt :
    ∀ {s : Nat} {b : KMemoryBlock}, BlocksTile s e (b :: bs) → hi < b.endAddress →
      CoalescedOutside 0 hi (b :: bs) → Coalesced (b :: bs) := by
  induction bs with
  | nil =>
    intro s b _ _ _
    exact isChain_singleton b
  | cons c cs ih =>
    intro s b htiles hhi hc
    obtain ⟨-, -, htail⟩ := htiles
    obtain ⟨hcb, hlt, -⟩ := id htail
    replace hc := isChain_cons_cons.1 hc
    exact isChain_cons_cons.2 ⟨hc.1 (by omega), ih htail (by omega) hc.2⟩

/-- The coalescing loop merges every pair it passes and stops only where the
remaining pairs meet behind the updated range.  A merge keeps the outer edges of
its two blocks, so the neighbours on both sides see no difference. -/
lemma coalesceLoop_spec {rest : List KMemoryBlock} :
    ∀ {s : Nat} {prev : KMemoryBlock} (allocator : UpdateAllocator), BlocksTile s e (prev :: rest) →
      CoalescedOutside 0 hi (prev :: rest) →
      ∃ head tail allocator', coalesceLoop hi prev rest allocator = .ok (head :: tail, allocator') ∧
        BlocksTile s e (head :: tail) ∧ Coalesced (head :: tail) ∧ SameLeft prev head ∧
        ∀ a, pageView (head :: tail) a = pageView (prev :: rest) a := by
  induction rest with
  | nil =>
    intro s prev allocator htiles _
    exact ⟨prev, [], allocator, rfl, htiles, isChain_singleton _, .refl prev, fun _ => rfl⟩
  | cons it rest ih =>
    intro s prev allocator htiles hc
    obtain ⟨rfl, hprev, hit, hitsize, hrest⟩ := id htiles
    obtain ⟨hjunction, hc⟩ := isChain_cons_cons.1 hc
    cases hmerge : prev.canMergeWith it with
    | true =>
      have hend := merged_endAddress hit.symm
      have hright := merged_sameRight hmerge
      have htiles' : BlocksTile prev.address e (prev.merged it :: rest) := by
        refine ⟨rfl, ?_, ?_⟩
        · omega
        · rw [hend]
          exact hrest
      have hc' : CoalescedOutside 0 hi (prev.merged it :: rest) := by
        rw [isChain_cons] at hc
        exact isChain_cons.2 ⟨fun c hmem hout => hright.canMergeWith_eq c ▸ hc.1 c hmem hout, hc.2⟩
      have hview := pageView_merged htiles hmerge
      simp only [coalesceLoop, hmerge, if_true, add_eq_ok hprev (hit ▸ hitsize), bind, Except.bind]
      by_cases hstop : hi < (prev.merged it).endAddress
      · rw [if_pos hstop]
        exact ⟨_, _, _, rfl, htiles', coalesced_of_lt htiles' hstop hc',
          merged_sameLeft hmerge, hview⟩
      · rw [if_neg hstop]
        obtain ⟨head, tail, allocator', hrun, h1, h2, h3, h4⟩ := ih _ htiles' hc'
        exact ⟨head, tail, allocator', hrun, h1, h2, (merged_sameLeft hmerge).trans h3,
          fun a => (h4 a).trans (hview a)⟩
    | false =>
      simp only [coalesceLoop, hmerge, Bool.false_eq_true, if_false]
      by_cases hstop : hi < it.endAddress
      · rw [if_pos hstop]
        have hsettled := coalesced_of_lt htiles.2.2 hstop hc
        exact ⟨_, _, _, rfl, htiles, isChain_cons_cons.2 ⟨hmerge, hsettled⟩,
          .refl prev, fun _ => rfl⟩
      rw [if_neg hstop]
      obtain ⟨head, tail, allocator', hrun, h1, h2, h3, h4⟩ := ih allocator htiles.2.2 hc
      rw [hrun]
      refine ⟨prev, head :: tail, allocator', rfl, ⟨rfl, hprev, h1⟩,
        isChain_cons_cons.2 ⟨?_, h2⟩, .refl prev, fun a => ?_⟩
      · rw [h3.canMergeWith_eq]
        exact hmerge
      · simp only [pageView, lookup, find?_cons]
        split
        · rfl
        · exact h4 a

/-! ## One update -/

namespace KMemoryBlockManager

variable {hi lo s : Nat} {pre rest : List KMemoryBlock} {it : KMemoryBlock}

lemma findIterator_eq {a : Nat} {post : List KMemoryBlock} (hpre : BlocksTile s it.address pre)
    (h1 : it.address ≤ a) (h2 : a < it.endAddress) :
    findIterator (pre ++ it :: post) a = (pre, it :: post) := by
  have hpass : ∀ b ∈ pre,
      (!(decide (b.address ≤ a) && decide (a < b.endAddress))) = true := by
    intro b hb
    have hend := (mem_bounds hpre hb).2.2
    simp only [Bool.not_eq_true', Bool.and_eq_false_iff, decide_eq_false_iff_not]
    omega
  have hstop : (!(decide (it.address ≤ a) && decide (a < it.endAddress))) = false := by
    simp [h1, h2]
  rw [findIterator, span_eq_takeWhile_dropWhile, takeWhile_append_of_pos hpass,
    dropWhile_append_of_pos hpass, takeWhile_cons_of_neg (by simp [hstop]),
    dropWhile_cons_of_neg (by simp [hstop]), append_nil]

lemma splitLast_concat (front : List KMemoryBlock) (prev : KMemoryBlock) :
    splitLast (front ++ [prev]) = some (front, prev) := by
  induction front with
  | nil => rfl
  | cons b bs ih => rw [cons_append, splitLast, ih]

/-- The first block covers the address, and the address is not where the managed
range starts.  This is where `CoalesceForUpdate` decrements the iterator of the
first block. -/
def FirstCovers (m : KMemoryBlockManager) (address : Nat) : Prop :=
  address ≠ m.startAddress ∧ ∃ b ∈ m.memoryBlockTree.head?, address < b.endAddress

/-- What `CoalesceForUpdate` leaves behind. -/
structure CoalescedFrom (m m' : KMemoryBlockManager) : Prop where
  startAddress_eq : m'.startAddress = m.startAddress
  endAddress_eq : m'.endAddress = m.endAddress
  tiles : BlocksTile m'.startAddress m'.endAddress m'.memoryBlockTree
  coalesced : Coalesced m'.memoryBlockTree
  pageView_eq : ∀ a, pageView m'.memoryBlockTree a = pageView m.memoryBlockTree a

/-- Replacing the blocks from one block on by a coalesced list that presents the
same left edge keeps the blocks in front coalesced. -/
lemma coalesced_front {front tail : List KMemoryBlock} {prev head : KMemoryBlock}
    (hfront : BlocksTile s prev.address front) (hprev : prev.address < lo)
    (hout : CoalescedOutside lo hi (front ++ prev :: rest)) (hedge : SameLeft prev head)
    (htail : Coalesced (head :: tail)) : Coalesced (front ++ head :: tail) := by
  have hchain : Coalesced (front ++ [prev]) := by
    refine (isChain_split.1 hout).1.imp_of_mem_imp fun b c _ hc hmerge => hmerge (.inl ?_)
    rcases mem_append.1 hc with hc | hc
    · have hbounds := mem_bounds hfront hc
      omega
    · rw [mem_singleton.1 hc]
      exact hprev
  refine isChain_split.2 ⟨?_, htail⟩
  have hchain := isChain_append.1 hchain
  refine isChain_append.2 ⟨hchain.1, isChain_singleton head, fun x hx y hy => ?_⟩
  obtain rfl : head = y := by simpa using hy
  rw [hedge.canMergeWith_eq]
  exact hchain.2.2 x hx prev rfl

variable {m : KMemoryBlockManager}

/-- The coalescing loop from any block in front of the range, or from the first
block, leaves the whole list coalesced. -/
lemma coalesceLoop_front {front : List KMemoryBlock} {prev : KMemoryBlock}
    (allocator : UpdateAllocator) (heq : m.memoryBlockTree = front ++ prev :: rest)
    (htiles : BlocksTile m.startAddress m.endAddress m.memoryBlockTree)
    (hout : CoalescedOutside lo hi m.memoryBlockTree) (hfirst : front = [] ∨ prev.address < lo) :
    ∃ blocks allocator', coalesceLoop hi prev rest allocator = .ok (blocks, allocator') ∧
      CoalescedFrom m { m with memoryBlockTree := front ++ blocks } := by
  rw [heq] at htiles hout
  obtain ⟨q, hfront, hblocks⟩ := tiles_append.1 htiles
  obtain rfl : prev.address = q := hblocks.1
  obtain ⟨head, tail, allocator', hrun, ht, hc, hedge, hview⟩ :=
    coalesceLoop_spec allocator hblocks
      ((isChain_split.1 hout).2.imp fun _ _ hmerge hlt => hmerge (hlt.imp_left (by omega)))
  refine ⟨head :: tail, allocator', hrun, rfl, rfl, tiles_append.2 ⟨_, hfront, ht⟩, ?_, fun a => ?_⟩
  · rcases hfirst with rfl | hlt
    · exact hc
    · exact coalesced_front hfront hlt hout hedge hc
  · have htail := hview a
    simp only [heq, pageView, lookup, find?_append] at htail ⊢
    cases find? (covers KMemoryBlock.address KMemoryBlock.endAddress a) front with
    | none => simpa only [none_or] using htail
    | some b => rfl

lemma coalesceForUpdate_spec {n : Nat} (allocator : UpdateAllocator)
    (htiles : BlocksTile m.startAddress m.endAddress m.memoryBlockTree)
    (hout : CoalescedOutside lo (lo + n * pageSize) m.memoryBlockTree) (h1 : m.startAddress ≤ lo)
    (h2 : lo < m.endAddress) :
    (m.FirstCovers lo ∧ m.coalesceForUpdate lo n allocator = .error .beginIterator) ∨
      (¬ m.FirstCovers lo ∧
        ∃ m', m.coalesceForUpdate lo n allocator = .ok m' ∧ CoalescedFrom m m') := by
  obtain ⟨pre, it, post, heq, hpre, hit1, hit2, hpost⟩ := exists_split htiles h1 h2
  have hfind : findIterator m.memoryBlockTree lo = (pre, it :: post) := by
    rw [heq, findIterator_eq hpre hit1 hit2]
  unfold coalesceForUpdate
  simp only [hfind]
  by_cases hstart : lo = m.startAddress
  · -- the iterator is at the first block and stays there
    have hnil : pre = [] := by
      cases pre with
      | nil => rfl
      | cons b bs =>
        have hbound := le hpre.2.2
        have hlt := hpre.2.1
        omega
    subst hnil
    obtain ⟨blocks, allocator', hrun, hafter⟩ :=
      coalesceLoop_front allocator heq htiles hout (.inl rfl)
    rw [if_neg (not_not.2 hstart), hrun]
    exact .inr ⟨fun h => h.1 hstart, _, rfl, hafter⟩
  rw [if_pos hstart]
  rcases eq_nil_or_concat pre with rfl | ⟨front, prev, rfl⟩
  · refine .inl ⟨⟨hstart, it, ?_, hit2⟩, rfl⟩
    rw [heq]
    rfl
  rw [concat_eq_append] at heq hpre ⊢
  rw [splitLast_concat]
  obtain ⟨q, hfront, rfl, hprevsize, hprevend⟩ := tiles_append.1 hpre
  have hprevend : prev.endAddress = it.address := hprevend
  have heq' : m.memoryBlockTree = front ++ prev :: it :: post := by
    rw [heq, append_assoc]
    rfl
  obtain ⟨blocks, allocator', hrun, hafter⟩ :=
    coalesceLoop_front allocator heq' htiles hout (.inr (by omega))
  simp only [hrun]
  refine .inr ⟨fun h => ?_, _, rfl, hafter⟩
  -- the first block ends at or before the block of the address
  obtain ⟨-, b, hb, hlt⟩ := h
  have hmem : b ∈ front ++ [prev] := by
    rw [heq'] at hb
    cases front with
    | nil => simpa using hb.symm
    | cons c cs => simp_all
  have hbound := mem_bounds hpre hmem
  omega

/-- The invariant of the manager: the blocks tile the managed range, neighbours do
not merge, and lock bits come with their counts. -/
structure WellFormed (m : KMemoryBlockManager) : Prop where
  aligned : m.startAddress % pageSize = 0
  tiles : BlocksTile m.startAddress m.endAddress m.memoryBlockTree
  coalesced : Coalesced m.memoryBlockTree
  counts : ∀ b ∈ m.memoryBlockTree, CountsConsistent b.view

/-- The update starts inside the first block, behind its start, and passes over it:
the loop then splits nothing off in front of the range, and the coalescing step
decrements the iterator of the first block. -/
def FirstSkipped (m : KMemoryBlockManager) (address : Nat) (skip : KMemoryBlock → Bool) : Prop :=
  address ≠ m.startAddress ∧ ∃ b ∈ m.memoryBlockTree.head?, address < b.endAddress ∧ skip b = true

instance (m : KMemoryBlockManager) (address : Nat) (skip : KMemoryBlock → Bool) :
    Decidable (m.FirstSkipped address skip) :=
  inferInstanceAs (Decidable (_ ∧ _))

/-- A completed update of the addresses from `lo` up to `hi`. -/
structure RangeUpdated (skip : KMemoryBlock → Bool)
    (act : KMemoryBlock → Except Fault KMemoryBlock) (lo hi : Nat)
    (m m' : KMemoryBlockManager) : Prop where
  wellFormed : m'.WellFormed
  startAddress_eq : m'.startAddress = m.startAddress
  endAddress_eq : m'.endAddress = m.endAddress
  loop : ∃ pre found found' mid, m.memoryBlockTree = pre ++ found ∧
    BlocksTile m.startAddress mid pre ∧ BlocksTile mid m.endAddress found ∧ mid ≤ lo ∧
    (∀ b ∈ found.head?, lo < b.endAddress) ∧ Updated skip act hi lo found found' ∧
    ∀ a, pageView m'.memoryBlockTree a = pageView (pre ++ found') a

/-- The loop leaves the address under the first block exactly when it passed over
the first block. -/
lemma firstCovers_iff {found' : List KMemoryBlock} (heq : m.memoryBlockTree = pre ++ it :: rest)
    (hpre : BlocksTile m.startAddress it.address pre) (hit1 : it.address ≤ lo)
    (hlohi : lo < hi) (hupd : Updated skip act hi lo (it :: rest) found') :
    FirstCovers { m with memoryBlockTree := pre ++ found' } lo ↔ m.FirstSkipped lo skip := by
  simp only [FirstCovers, FirstSkipped, heq]
  refine and_congr_right fun hstart => ?_
  cases pre with
  | cons b bs =>
    have hbound := (mem_bounds hpre mem_cons_self).2.2
    simp only [cons_append, head?_cons, mem_def, some.injEq, exists_eq_left']
    constructor
    · omega
    · omega
  | nil =>
    have hit : m.startAddress = it.address := hpre
    cases hupd with
    | done hle => omega
    | pass _ hskip _ => simp [hskip]
    | change _ hskip hcarved _ _ =>
      rcases hcarved.before_cases with ⟨hle, -⟩ | ⟨-, b, rfl, -, hb, -⟩
      · omega
      · simp [hb, hskip]

/-- The consistency of the counts only depends on what the pages show. -/
lemma counts_of_pageView {e : Nat} {bs bs' : List KMemoryBlock} (htiles : BlocksTile s e bs')
    (hview : ∀ a, pageView bs' a = pageView bs a) (hcounts : ∀ b ∈ bs, CountsConsistent b.view) :
    ∀ b ∈ bs', CountsConsistent b.view := by
  intro b hb
  obtain ⟨pre, post, rfl⟩ := append_of_mem hb
  obtain ⟨q, hpre, rfl, hsize, -⟩ := tiles_append.1 htiles
  have hat : pageView (pre ++ b :: post) b.address = some b.view := by
    rw [pageView, lookup_split hpre le_rfl hsize, map_some]
  rw [hview, pageView, map_eq_some_iff] at hat
  obtain ⟨c, hc, hcb⟩ := hat
  rw [← hcb]
  exact hcounts c (mem_of_find?_eq_some hc)

lemma coalescedOutside_append {e : Nat} {found' : List KMemoryBlock}
    (hc : Coalesced (pre ++ it :: rest)) (hit : it.address ≤ lo) (hlohi : lo < hi)
    (hupd : Updated skip act hi lo (it :: rest) found') (htiles : BlocksTile it.address e found')
    (hout : CoalescedOutside lo hi found') : CoalescedOutside lo hi (pre ++ found') := by
  obtain ⟨hpre, -, hjunction⟩ := isChain_append.1 hc
  refine isChain_append.2 ⟨hpre.imp fun _ _ hmerge _ => hmerge, hout, fun x hx y hy houtside => ?_⟩
  have hy' := (BlocksTile.head_bounds htiles hy).1
  obtain ⟨z, hz, hedge⟩ := hupd.head_sameLeft (b := it) rfl (by omega)
  obtain rfl : z = y := mem_unique hz hy
  rw [hedge.canMergeWith_eq]
  exact hjunction x hx it rfl

/-- In a well-formed manager the iterator found for the range starts the loop at a block that
covers the start, so two blocks are enough. -/
lemma updateLoop_found (skip : KMemoryBlock → Bool) (hwf : m.WellFormed) {n : Nat}
    (halign : lo % pageSize = 0) (hn : 0 < n) (h1 : m.startAddress ≤ lo)
    (h2 : lo + n * pageSize ≤ m.endAddress) (hact : ∀ b, AssertsOnly (act b)) :
    ∃ pre it rest, m.memoryBlockTree = pre ++ it :: rest ∧
      findIterator m.memoryBlockTree lo = (pre, it :: rest) ∧
      BlocksTile m.startAddress it.address pre ∧ BlocksTile it.address m.endAddress (it :: rest) ∧
      it.address ≤ lo ∧ (∀ b ∈ (it :: rest).head?, lo < b.endAddress) ∧
      ((∃ bs' allocator', updateLoop skip act (it :: rest) lo n .initialized =
          .ok (bs', allocator') ∧ allocator'.index ≤ 2 ∧
          Updated skip act (lo + n * pageSize) lo (it :: rest) bs') ∨
        updateLoop skip act (it :: rest) lo n .initialized = .error .blockAssertion) := by
  have hlohi : lo < lo + n * pageSize := by
    simp only [pageSize]
    omega
  obtain ⟨pre, it, rest, heq, hpre, hit1, hit2, hrest⟩ := exists_split hwf.tiles h1 (by omega)
  have hfound : BlocksTile it.address m.endAddress (it :: rest) := ⟨rfl, by omega, hrest⟩
  have hcover : ∀ b ∈ (it :: rest).head?, lo < b.endAddress := by
    rintro b ⟨⟩
    exact hit2
  refine ⟨pre, it, rest, heq, by rw [heq, findIterator_eq hpre hit1 hit2], hpre, hfound, hit1,
    hcover, updateLoop_spec skip hact n .initialized hfound (BlocksTile.aligned hpre hwf.aligned)
      halign hit1 hcover h2 ?_⟩
  simp only [UpdateAllocator.initialized]
  split <;> omega

/-- One update of a well-formed manager.  It stops on an assertion of a block, or it
moves an iterator in front of the tree, or it completes. -/
lemma updateRange_spec (hwf : m.WellFormed) {n : Nat} (halign : lo % pageSize = 0) (hn : 0 < n)
    (h1 : m.startAddress ≤ lo) (h2 : lo + n * pageSize ≤ m.endAddress)
    (hkeeps : ∀ b, Keeps b (act b)) :
    m.updateRange lo n skip act = .error .blockAssertion ∨
      (m.FirstSkipped lo skip ∧ m.updateRange lo n skip act = .error .beginIterator) ∨
      (¬ m.FirstSkipped lo skip ∧ ∃ m', m.updateRange lo n skip act = .ok m' ∧
        RangeUpdated skip act lo (lo + n * pageSize) m m') := by
  have hlohi : lo < lo + n * pageSize := by
    simp only [pageSize]
    omega
  have hrange : ∀ b c, act b = .ok c → SameRange b c :=
    fun b c h => ((hkeeps b).preserves c h).range
  obtain ⟨pre, it, rest, heq, hfind, hpre, hfound, hit1, hcover,
    ⟨found', allocator', hrun, -, hupd⟩ | hrun⟩ :=
    updateLoop_found skip hwf halign hn h1 h2 fun b => (hkeeps b).fails
  all_goals rw [updateRange, if_pos halign, hfind]
  · refine .inr ?_
    have hfound' := hupd.tiles hrange hfound hit1 hcover
    have hwfcounts := heq ▸ hwf.counts
    have hwfcoalesced := heq ▸ hwf.coalesced
    have hout := coalescedOutside_append hwfcoalesced hit1 hlohi hupd hfound'
      (hupd.coalescedOutside hrange hfound hit1 hcover (isChain_append.1 hwfcoalesced).2.1)
    have hcounts : ∀ b ∈ pre ++ found', CountsConsistent b.view := by
      rw [forall_mem_append] at hwfcounts ⊢
      exact ⟨hwfcounts.1, hupd.counts hkeeps hwfcounts.2⟩
    have hcovers := firstCovers_iff heq hpre hit1 hlohi hupd
    simp only [hrun, bind, Except.bind]
    rcases coalesceForUpdate_spec (m := { m with memoryBlockTree := pre ++ found' }) allocator'
      (tiles_append.2 ⟨_, hpre, hfound'⟩) hout h1 (by simp only; omega)
      with ⟨hfirst, hfault⟩ | ⟨hfirst, m', hok, hafter⟩
    · exact .inl ⟨hcovers.1 hfirst, hfault⟩
    refine .inr ⟨fun h => hfirst (hcovers.2 h), m', hok, ⟨?_, hafter.tiles, hafter.coalesced,
      counts_of_pageView hafter.tiles hafter.pageView_eq hcounts⟩, hafter.startAddress_eq,
      hafter.endAddress_eq, pre, it :: rest, found', it.address, heq, hpre, hfound, hit1,
      hcover, hupd, hafter.pageView_eq⟩
    rw [hafter.startAddress_eq]
    exact hwf.aligned
  · simp only [hrun]
    exact .inl rfl

end KMemoryBlockManager
end Drippu.Kernel
