import Drippu.Common.AddressSpaceRuns

/-!
# Common - The flat allocator

`FlatAllocator` hands out virtual ranges.  A range is allocated by mapping it in an
address space whose blocks only tell whether they are mapped.  `Allocate` takes the
range behind a bump pointer when it lies below the limit, and searches the blocks for a gap
otherwise.

The linear pass does not look whether the range behind the bump pointer is mapped, its scan
past fixed allocations stops at the blocks that it should skip, and the search leaves out
the space in the first and in the last block.  `allocatable` is the condition under
which none of this matters.

Main results:

- Theorem `allocate_right`: every allocation of a run whose calls meet their conditions
  is disjoint from what is allocated and fails only when no gap is left.
-/

namespace Drippu.Common

open Library AddressSpace List Option

/-! ## The allocator -/

/-- `current` is `current_linear_alloc_end`. -/
structure FlatAllocator where
  space : AddressSpace Bool Unit
  virtStart : Nat
  current : Nat

namespace FlatAllocator

abbrev Block := MapBlock Bool Unit

def mapped (b : Block) : Bool :=
  !isUnmapped mappedFlag b

/-- The scan past fixed mappings, from the last block below the end of the range on.  It
finds no start when it runs out of blocks. -/
def skipFixed (s : AddressSpace Bool Unit) (size : Nat) : List Block → Option Nat
  | pred :: succ :: rest =>
    if succ.virt - pred.virt < size ∨ mapped pred then some pred.virt
    else
      match rest with
      | [] =>
        -- the final block has no successor
        let allocEnd := s.addVa succ.virt size
        if succ.virt ≤ allocEnd ∧ allocEnd ≤ s.vaLimit then some succ.virt else none
      | _ :: _ => skipFixed s size (succ :: rest)
  | _ => none

/-- The linear pass. -/
def linearStart (a : FlatAllocator) (size : Nat) : Option (Option Nat) :=
  let allocEnd := a.space.addVa a.current size
  if a.current ≤ allocEnd ∧ allocEnd ≤ a.space.vaLimit then
    let succ := lowerBlock a.space.blocks allocEnd
    if succ = 0 then none
    else a.space.blocks[succ - 1]?.map fun pred =>
      if pred.virt ≤ a.current then some a.current
      else skipFixed a.space size (a.space.blocks.drop (succ - 1))
  else some none

/-- The search for a block that is unmapped and long enough. -/
def findGap (size : Nat) : List Block → Option Nat
  | pred :: succ :: rest =>
    if succ.virt - pred.virt < size ∨ mapped pred then findGap size (succ :: rest)
    else some pred.virt
  | _ => none

/-- The search starts at the second block; the iterator behind it has to exist. -/
def gapStart (a : FlatAllocator) (size : Nat) : Option (Option Nat) :=
  if a.space.blocks.length < 2 then none
  else some (findGap size a.space.blocks.tail)

def mapAt (a : FlatAllocator) (virt size : Nat) : Option FlatAllocator :=
  (call mappedFlag () a.space (.map virt true size ())).map fun s => { a with space := s }

/-- `Allocate`: the allocator afterwards and the start of the range, or none when the
address space is full. -/
def allocate (a : FlatAllocator) (size : Nat) : Option (FlatAllocator × Option Nat) :=
  (linearStart a size).bind fun
    | some start =>
      (mapAt { a with current := a.space.addVa start size } start size).map fun a' =>
        (a', some start)
    | none =>
      (gapStart a size).bind fun
        | some start => (mapAt a start size).map fun a' => (a', some start)
        | none => some (a, none)

def allocateFixed (a : FlatAllocator) (virt size : Nat) : Option FlatAllocator :=
  mapAt a virt size

def free (a : FlatAllocator) (virt size : Nat) : Option FlatAllocator :=
  (call mappedFlag () a.space (.unmap virt size)).map fun s => { a with space := s }

/-! ## Allocated addresses -/

/-- The calls and what they allocate.  The tracked addresses are those allocated and not
freed. -/
structure Tracked where
  allocator : FlatAllocator
  allocated : Nat → Bool

inductive AllocatorCall where
  | allocate (size : Nat)
  | allocateFixed (virt size : Nat)
  | free (virt size : Nat)
  deriving DecidableEq, Repr

/-- Mark a range. -/
def mark (allocated : Nat → Bool) (virt size : Nat) (c : Bool) : Nat → Bool := fun x =>
  if virt ≤ x ∧ x < virt + size then c else allocated x

lemma mark_apply (allocated : Nat → Bool) (virt size : Nat) (c : Bool) (x : Nat) :
    mark allocated virt size c x = if virt ≤ x ∧ x < virt + size then c else allocated x :=
  rfl

def Tracked.exec (t : Tracked) : AllocatorCall → Option Tracked
  | .allocate size => (t.allocator.allocate size).map fun r =>
    match r.2 with
    | some start => ⟨r.1, mark t.allocated start size true⟩
    | none => ⟨r.1, t.allocated⟩
  | .allocateFixed virt size => (t.allocator.allocateFixed virt size).map fun a =>
    ⟨a, mark t.allocated virt size true⟩
  | .free virt size => (t.allocator.free virt size).map fun a =>
    ⟨a, mark t.allocated virt size false⟩

/-! ## Conditions -/

/-- No two neighbouring blocks are unmapped. -/
def separated (blocks : List Block) : Prop :=
  blocks.IsChain fun b c => mapped b = true ∨ mapped c = true

instance (blocks : List Block) : Decidable (separated blocks) :=
  inferInstanceAs (Decidable (List.IsChain _ _))

/-- The first block from the start of the allocator on is shorter than a size. -/
def firstShort (a : FlatAllocator) (size : Nat) : Prop :=
  ∀ b ∈ a.space.blocks[1]?, b.virt < a.virtStart + size

/-- The last block up to the limit is shorter than a size. -/
def lastShort (a : FlatAllocator) (size : Nat) : Prop :=
  ∀ b ∈ a.space.blocks.getLast?, a.space.vaLimit < b.virt + size

instance (a : FlatAllocator) (size : Nat) : Decidable (firstShort a size) :=
  inferInstanceAs (Decidable (∀ b ∈ a.space.blocks[1]?, b.virt < a.virtStart + size))

instance (a : FlatAllocator) (size : Nat) : Decidable (lastShort a size) :=
  inferInstanceAs (Decidable (∀ b ∈ a.space.blocks.getLast?, a.space.vaLimit < b.virt + size))

/-- The search finds a gap, or there is none in the blocks that it leaves out. -/
def searchable (a : FlatAllocator) (size : Nat) : Prop :=
  2 ≤ a.space.blocks.length ∧ ((findGap size a.space.blocks.tail).isSome = true ∨
    separated a.space.blocks ∧ firstShort a size ∧ lastShort a size)

instance (a : FlatAllocator) (size : Nat) : Decidable (searchable a size) :=
  inferInstanceAs (Decidable (_ ∧ (_ ∨ _ ∧ _ ∧ _)))

/-- The last block that starts below the end of the linear range. -/
def linearPred (a : FlatAllocator) (size : Nat) : Option Block :=
  (a.space.blocks.filter fun b => b.virt < a.current + size).getLast?

/-- An allocation of a size is right: the range behind the bump pointer lies in one unmapped
block, or the linear pass is out of the question and the search is right. -/
def allocatable (a : FlatAllocator) (size : Nat) : Prop :=
  if a.current + size ≤ a.space.vaLimit then
    ∃ pred ∈ linearPred a size, (pred.virt ≤ a.current ∧ mapped pred = false) ∨
      (a.current < pred.virt ∧ a.space.blocks.getLast? = some pred ∧ searchable a size)
  else searchable a size

instance (a : FlatAllocator) (size : Nat) : Decidable (allocatable a size) := by
  unfold allocatable
  infer_instance

/-- The condition of each call. -/
def meets (t : Tracked) : AllocatorCall → Prop
  | .allocate size => 0 < size ∧ size < 2 ^ t.allocator.space.vaBits ∧ allocatable t.allocator size
  | .allocateFixed virt size => 0 < size ∧ t.allocator.virtStart ≤ virt ∧
      virt + size ≤ t.allocator.space.vaLimit
  | .free virt size => 0 < size ∧ t.allocator.virtStart ≤ virt ∧
      virt + size ≤ t.allocator.space.vaLimit ∧
      unmappable mappedFlag t.allocator.space.blocks virt (virt + size) = true

/-- A new allocator and the calls that meet their conditions. -/
def system : TransitionSystem Tracked where
  init t := t.allocator.space.blocks = initialBlocks mappedFlag () ∧ 0 < t.allocator.virtStart ∧
    t.allocator.virtStart ≤ t.allocator.space.vaLimit ∧
    t.allocator.current = t.allocator.virtStart ∧ t.allocated = fun _ => false
  step t t' := ∃ c, meets t c ∧ t.exec c = some t'

/-! ## The invariant -/

/-- The blocks lie in the region of the allocator and tell what is allocated. -/
structure Invariant (t : Tracked) : Prop where
  wellFormed : WellFormed mappedFlag t.allocator.space.blocks
  start_pos : 0 < t.allocator.virtStart
  start_le : t.allocator.virtStart ≤ t.allocator.current
  current_le : t.allocator.current ≤ t.allocator.space.vaLimit
  bounds : ∀ b ∈ t.allocator.space.blocks,
    b.virt = 0 ∨ t.allocator.virtStart ≤ b.virt ∧ b.virt ≤ t.allocator.space.vaLimit
  allocated : ∀ x, t.allocated x = (translate mappedFlag t.allocator.space.blocks x).isSome

lemma Invariant.init {t : Tracked} (h : system.init t) : Invariant t := by
  obtain ⟨hblocks, hpos, hle, hcurrent, hallocated⟩ := h
  refine ⟨?_, hpos, hcurrent.ge, hcurrent ▸ hle, ?_, ?_⟩
  · rw [hblocks]
    exact initialBlocks_wellFormed ()
  · rw [hblocks]
    exact fun b hb => .inl (mem_singleton.1 hb ▸ rfl)
  · rw [hblocks, hallocated]
    simp [AddressSpace.translate, initialBlocks, floor_cons, valueOf, isUnmapped]

variable {a : FlatAllocator} {allocated : Nat → Bool} (h : Invariant ⟨a, allocated⟩)

lemma Invariant.moveCurrent (h : Invariant ⟨a, allocated⟩) {current : Nat}
    (hle : a.virtStart ≤ current) (hlimit : current ≤ a.space.vaLimit) :
    Invariant ⟨{ a with current := current }, allocated⟩ :=
  ⟨h.wellFormed, h.start_pos, hle, hlimit, h.bounds, h.allocated⟩

variable {size : Nat} (hsize : 0 < size)

section
variable {virt : Nat} (hvirt : a.virtStart ≤ virt)
  (hlimit : virt + size ≤ a.space.vaLimit)
include h hsize hvirt hlimit

lemma mapAt_spec :
    ∃ a', mapAt a virt size = some a' ∧ Invariant ⟨a', mark allocated virt size true⟩ := by
  obtain ⟨after, heq, hafter, hblocks, htranslate⟩ := mapLocked_spec () h.wellFormed
    (h.start_pos.trans_le hvirt) hsize (hlimit.trans_lt a.space.limit_lt) true ()
  refine ⟨{ a with space := { a.space with blocks := after } }, ?_, hafter, h.start_pos,
    h.start_le, h.current_le, fun b hb => ?_, fun x => ?_⟩
  · rw [mapAt, call, Call.run, heq]
    rfl
  · rcases hblocks b hb with hb | hb
    · exact h.bounds b hb
    · exact .inr ⟨hvirt.trans hb.1, hb.2.trans hlimit⟩
  · have hallocated : allocated x = _ := h.allocated x
    change mark allocated virt size true x = (translate mappedFlag after x).isSome
    rw [htranslate, mark_apply, hallocated]
    split <;> simp [valueOf, isUnmapped, mappedFlag]

lemma free_spec (hright : unmappable mappedFlag a.space.blocks virt (virt + size) = true) :
    ∃ a', free a virt size = some a' ∧ Invariant ⟨a', mark allocated virt size false⟩ := by
  obtain ⟨after, assertions, heq, hafter, hblocks, houtside, hiff⟩ := unmapLocked_spec ()
    h.wellFormed (h.start_pos.trans_le hvirt) hsize (hlimit.trans_lt a.space.limit_lt)
  obtain ⟨-, hinside⟩ := hiff.2 hright
  refine ⟨{ a with space := { a.space with blocks := after } }, ?_, hafter,
    h.start_pos, h.start_le, h.current_le, fun b hb => ?_, fun x => ?_⟩
  · rw [free, call, Call.run, heq]
    rfl
  · rcases hblocks b hb with hb | hb
    · exact h.bounds b hb
    · exact .inr ⟨hvirt.trans hb.1, hb.2.trans hlimit⟩
  · have hallocated : allocated x = _ := h.allocated x
    change mark allocated virt size false x = (translate mappedFlag after x).isSome
    rw [mark_apply, hallocated]
    split <;> rename_i hx
    · rw [hinside x hx.1 hx.2]
      rfl
    · rw [houtside x hx]

end

/-! ## Where an allocation goes -/

/-- A range in the region of the allocator of which nothing is allocated. -/
def FreeRange (a : FlatAllocator) (allocated : Nat → Bool) (start size : Nat) : Prop :=
  a.virtStart ≤ start ∧ start + size ≤ a.space.vaLimit ∧
    ∀ x, start ≤ x → x < start + size → allocated x = false

/-- A block tells whether the addresses up to the blocks behind it are allocated. -/
lemma Invariant.allocated_eq (h : Invariant ⟨a, allocated⟩) {front back : List Block} {b : Block}
    (hblocks : a.space.blocks = front ++ b :: back) {x : Nat} (hx : b.virt ≤ x)
    (hback : ∀ c ∈ back, x < c.virt) : allocated x = mapped b := by
  have hvalue := h.allocated x
  rw [AddressSpace.translate, hblocks, floor_eq hx hback, bind_some, valueOf] at hvalue
  refine hvalue.trans ?_
  rw [mapped]
  cases isUnmapped mappedFlag b <;> rfl

lemma Invariant.exists_block (h : Invariant ⟨a, allocated⟩) (x : Nat) :
    ∃ front b back, a.space.blocks = front ++ b :: back ∧ b.virt ≤ x ∧ ∀ c ∈ back, x < c.virt := by
  obtain ⟨low, mid, back, hblocks, hlow, hmid, hback⟩ :=
    exists_split_of_sorted h.wellFormed.sorted (x + 1) (x + 1)
  obtain rfl : mid = [] := eq_nil_iff_forall_not_mem.2 fun b hb => by
    have := hmid b hb
    omega
  rcases eq_nil_or_concat' low with rfl | ⟨front, b, rfl⟩
  · -- the first block starts at zero
    obtain ⟨first, hfirst, hzero, -⟩ := h.wellFormed.first
    have hmem := List.mem_of_head? hfirst
    rw [hblocks] at hmem
    have := hback first hmem
    omega
  · refine ⟨front, b, back, by simpa using hblocks, ?_, fun c hc => ?_⟩
    · have := hlow b (by simp)
      omega
    · have := hback c hc
      omega

lemma linearPred_split (a : FlatAllocator) (hsorted : a.space.blocks.Pairwise
    fun b c => b.virt < c.virt) {size : Nat} {pred : Block}
    (hpred : pred ∈ linearPred a size) :
    ∃ front back, a.space.blocks = front ++ pred :: back ∧
      lowerBlock a.space.blocks (a.current + size) = front.length + 1 ∧
      pred.virt < a.current + size ∧ ∀ c ∈ back, a.current + size ≤ c.virt := by
  obtain ⟨low, mid, back, hblocks, hlow, hmid, hback⟩ :=
    exists_split_of_sorted hsorted (a.current + size) (a.current + size)
  obtain rfl : mid = [] := eq_nil_iff_forall_not_mem.2 fun b hb => by
    have := hmid b hb
    omega
  rw [nil_append] at hblocks
  have hfilter := (filter_split le_rfl hlow hmid hback).1
  rw [nil_append, ← hblocks] at hfilter
  rw [linearPred, hfilter] at hpred
  obtain ⟨front, rfl⟩ := List.getLast?_eq_some_iff.1 hpred
  refine ⟨front, back, by simpa using hblocks, ?_, hlow pred (by simp), hback⟩
  rw [hblocks, lowerBlock, lowerBound_append hlow hback]
  simp

section
include h hsize

lemma linearStart_of_free (hlimit : a.current + size ≤ a.space.vaLimit) {pred : Block}
    (hpred : pred ∈ linearPred a size) (hle : pred.virt ≤ a.current)
    (hunmapped : mapped pred = false) :
    linearStart a size = some (some a.current) ∧ FreeRange a allocated a.current size := by
  obtain ⟨front, back, hblocks, hsucc, -, hback⟩ := linearPred_split a h.wellFormed.sorted hpred
  refine ⟨?_, h.start_le, hlimit, fun x hx hxend => ?_⟩
  · rw [linearStart, addVa, Nat.mod_eq_of_lt (hlimit.trans_lt a.space.limit_lt),
      if_pos ⟨by omega, hlimit⟩, hsucc, if_neg (by omega), Nat.add_sub_cancel, hblocks,
      getElem?_split rfl, map_some, if_pos hle]
  · rw [h.allocated_eq hblocks (hle.trans hx) fun c hc => hxend.trans_le (hback c hc)]
    exact hunmapped

omit hsize in
/-- The last block starts inside the range behind the bump pointer. -/
lemma linearStart_of_last (hlimit : a.current + size ≤ a.space.vaLimit) {pred : Block}
    (hpred : pred ∈ linearPred a size) (hlt : a.current < pred.virt)
    (hlast : a.space.blocks.getLast? = some pred) : linearStart a size = some none := by
  obtain ⟨front, back, hblocks, hsucc, hend, hback⟩ := linearPred_split a h.wellFormed.sorted hpred
  have hnil : back = [] := by
    rcases eq_nil_or_concat' back with rfl | ⟨back, c, rfl⟩
    · rfl
    · have hc : c = pred := by simpa [hblocks, List.getLast?_cons] using hlast
      have := hback c (by simp)
      rw [hc] at this
      omega
  subst hnil
  rw [linearStart, addVa, Nat.mod_eq_of_lt (hlimit.trans_lt a.space.limit_lt),
    if_pos ⟨Nat.le_add_right _ _, hlimit⟩, hsucc, if_neg (by omega), Nat.add_sub_cancel, hblocks,
    getElem?_split rfl, map_some, if_neg (not_le.2 hlt), drop_left]
  rfl

omit h hsize in
lemma linearStart_of_limit (hfits : size < 2 ^ a.space.vaBits)
    (hlimit : a.space.vaLimit < a.current + size) : linearStart a size = some none := by
  refine if_neg fun hfit => ?_
  rw [addVa] at hfit
  rcases lt_or_ge (a.current + size) (2 ^ a.space.vaBits) with hlt | hge
  · rw [Nat.mod_eq_of_lt hlt] at hfit
    omega
  · -- the end of the range wraps around to below the bump pointer
    rw [Nat.mod_eq_sub_mod hge, Nat.mod_eq_of_lt (by omega)] at hfit
    omega

end

lemma findGap_eq_some {size start : Nat} {blocks : List Block}
    (hfind : findGap size blocks = some start) :
    ∃ front pred succ rest, blocks = front ++ pred :: succ :: rest ∧ pred.virt = start ∧
      mapped pred = false ∧ size ≤ succ.virt - pred.virt := by
  induction blocks with
  | nil => cases hfind
  | cons pred blocks ih =>
    cases blocks with
    | nil => cases hfind
    | cons succ rest =>
      rw [findGap] at hfind
      split at hfind <;> rename_i hskip
      · obtain ⟨front, p, s, tail, heq, hfound⟩ := ih hfind
        exact ⟨pred :: front, p, s, tail, by rw [heq]; rfl, hfound⟩
      · rw [not_or, not_lt, Bool.not_eq_true] at hskip
        exact ⟨[], pred, succ, rest, rfl, some.inj hfind, hskip.2, hskip.1⟩

lemma findGap_eq_none {size : Nat} {front rest : List Block} {pred succ : Block}
    (hfind : findGap size (front ++ pred :: succ :: rest) = none) :
    succ.virt - pred.virt < size ∨ mapped pred = true := by
  induction front with
  | nil =>
    by_contra hskip
    rw [nil_append, findGap, if_neg hskip] at hfind
    cases hfind
  | cons b front ih =>
    apply ih
    cases front with
    | nil =>
      rw [List.cons_append, nil_append, findGap] at hfind
      split at hfind
      · exact hfind
      · cases hfind
    | cons c front =>
      rw [List.cons_append, List.cons_append, findGap] at hfind
      split at hfind
      · exact hfind
      · cases hfind

section
include h

lemma findGap_free {start : Nat} (hfind : findGap size a.space.blocks.tail = some start) :
    FreeRange a allocated start size := by
  obtain ⟨front, pred, succ, rest, htail, rfl, hunmapped, hsize⟩ := findGap_eq_some hfind
  obtain ⟨first, hblocks⟩ : ∃ first, a.space.blocks = first :: front ++ pred :: succ :: rest := by
    cases hcases : a.space.blocks with
    | nil => simp [hcases] at htail
    | cons first blocks =>
      rw [hcases] at htail
      exact ⟨first, by rw [List.cons_append, ← htail]; rfl⟩
  have hsorted := h.wellFormed.sorted
  rw [hblocks] at hsorted
  obtain ⟨-, hsorted, hfront⟩ := pairwise_append.1 hsorted
  obtain ⟨hpred, hsorted⟩ := pairwise_cons.1 hsorted
  have hsucc := (pairwise_cons.1 hsorted).1
  have hfirst := hfront first mem_cons_self pred mem_cons_self
  have hpredBounds := h.bounds pred (by simp [hblocks])
  have hsuccBounds := h.bounds succ (by simp [hblocks])
  simp only at hpredBounds hsuccBounds
  refine ⟨by omega, by omega, fun x hx hxend => ?_⟩
  rw [h.allocated_eq hblocks hx]
  · exact hunmapped
  · refine forall_mem_cons.2 ⟨by omega, fun c hc => ?_⟩
    have := hsucc c hc
    omega

/-- When the search finds nothing and the blocks that it leaves out are short, no gap is
left. -/
lemma findGap_full (hsize : 0 < size) (hfind : findGap size a.space.blocks.tail = none)
    (hseparated : separated a.space.blocks) (hfirst : firstShort a size)
    (hlast : lastShort a size) (start : Nat) : ¬ FreeRange a allocated start size := by
  rintro ⟨hstart, hlimit, hfree⟩
  obtain ⟨front, b, back, hblocks, hb, hback⟩ := h.exists_block start
  have hunmapped : mapped b = false :=
    (h.allocated_eq hblocks hb hback).symm.trans (hfree start le_rfl (by omega))
  cases back with
  | nil =>
    have := hlast b (by simp [hblocks])
    omega
  | cons n rest =>
    -- the next block is mapped, so it is behind the range
    have hmapped : mapped n = true := by
      rw [separated, hblocks] at hseparated
      have hpair := (isChain_append_cons_cons.1 hseparated).2.1
      simpa [hunmapped] using hpair
    have hend : start + size ≤ n.virt := by
      by_contra hlt
      have hsorted := h.wellFormed.sorted
      rw [hblocks, append_cons] at hsorted
      obtain ⟨hrest, -⟩ := pairwise_cons.1 (pairwise_append.1 hsorted).2.1
      have hn := h.allocated_eq (hblocks.trans (append_cons _ _ _)) le_rfl hrest
      rw [hfree n.virt (hback n mem_cons_self).le (not_le.1 hlt), hmapped] at hn
      cases hn
    cases front with
    | nil =>
      have := hfirst n (by simp [hblocks])
      omega
    | cons first front =>
      rw [hblocks] at hfind
      rcases findGap_eq_none hfind with hshort | hmapped'
      · omega
      · rw [hunmapped] at hmapped'
        cases hmapped'

end

/-! ## Runs -/

/-- What an allocation may do: take a free range, or fail when there is none. -/
def AllocatesRight (a : FlatAllocator) (allocated : Nat → Bool) (size : Nat) : Prop :=
  ∃ a' start, allocate a size = some (a', start) ∧
    match start with
    | some start => FreeRange a allocated start size
    | none => ∀ start, ¬ FreeRange a allocated start size

/-- An allocation is right and keeps the invariant. -/
def Allocates (a : FlatAllocator) (allocated : Nat → Bool) (size : Nat) : Prop :=
  ∃ a' start, allocate a size = some (a', start) ∧
    match start with
    | some start => FreeRange a allocated start size ∧
        Invariant ⟨a', mark allocated start size true⟩
    | none => (∀ start, ¬ FreeRange a allocated start size) ∧ Invariant ⟨a', allocated⟩

section
include h hsize

lemma allocate_search (hlinear : linearStart a size = some none) (hsearch : searchable a size) :
    Allocates a allocated size := by
  obtain ⟨hlength, hgap⟩ := hsearch
  have hstart : gapStart a size = some (findGap size a.space.blocks.tail) :=
    if_neg (not_lt.2 hlength)
  cases hfind : findGap size a.space.blocks.tail with
  | some start =>
    have hfree := findGap_free h hfind
    obtain ⟨a', hmap, hinv⟩ := mapAt_spec h hsize hfree.1 hfree.2.1
    refine ⟨a', some start, ?_, hfree, hinv⟩
    simp [allocate, hlinear, hstart, hfind, hmap]
  | none =>
    rw [hfind] at hgap
    obtain ⟨hseparated, hfirst, hlast⟩ := hgap.resolve_left Bool.false_ne_true
    refine ⟨a, none, ?_, findGap_full h hsize hfind hseparated hfirst hlast, h⟩
    simp [allocate, hlinear, hstart, hfind]

/-- An allocation that meets the condition. -/
lemma allocate_spec (hfits : size < 2 ^ a.space.vaBits) (hright : allocatable a size) :
    Allocates a allocated size := by
  rw [allocatable] at hright
  split at hright <;> rename_i hlimit
  · obtain ⟨pred, hpred, ⟨hle, hunmapped⟩ | ⟨hlt, hlast, hsearch⟩⟩ := hright
    · obtain ⟨hlinear, hfree⟩ := linearStart_of_free h hsize hlimit hpred hle hunmapped
      have hmove := h.moveCurrent (hfree.1.trans (Nat.le_add_right _ size)) hlimit
      obtain ⟨a', hmap, hinv⟩ := mapAt_spec hmove hsize hfree.1 hlimit
      refine ⟨a', some a.current, ?_, hfree, hinv⟩
      simp [allocate, hlinear, addVa, Nat.mod_eq_of_lt (hlimit.trans_lt a.space.limit_lt), hmap]
    · exact allocate_search h hsize (linearStart_of_last h hlimit hpred hlt hlast) hsearch
  · exact allocate_search h hsize (linearStart_of_limit hfits (not_le.1 hlimit)) hright

end

lemma exec_invariant {t t' : Tracked} (h : Invariant t) {c : AllocatorCall} (hmeets : meets t c)
    (hexec : t.exec c = some t') : Invariant t' := by
  cases c with
  | allocate size =>
    obtain ⟨hsize, hfits, hright⟩ := hmeets
    obtain ⟨a', start, heq, hstart⟩ := allocate_spec h hsize hfits hright
    rw [Tracked.exec, heq] at hexec
    cases start <;> cases hexec
    · exact hstart.2
    · exact hstart.2
  | allocateFixed virt size =>
    obtain ⟨hsize, hvirt, hlimit⟩ := hmeets
    obtain ⟨a', heq, hinv⟩ := mapAt_spec h hsize hvirt hlimit
    rw [Tracked.exec, allocateFixed, heq] at hexec
    cases hexec
    exact hinv
  | free virt size =>
    obtain ⟨hsize, hvirt, hlimit, hright⟩ := hmeets
    obtain ⟨a', heq, hinv⟩ := free_spec h hsize hvirt hlimit hright
    rw [Tracked.exec, heq] at hexec
    cases hexec
    exact hinv

lemma reachable_invariant {t : Tracked} (h : system.Reachable t) : Invariant t :=
  h.invariant (P := Invariant) (fun _ hinit => .init hinit) fun _ _ _ hinv hstep => by
    obtain ⟨c, hmeets, hexec⟩ := hstep
    exact exec_invariant hinv hmeets hexec

/-- In every run whose calls meet their conditions, an allocation that meets its own takes a
range of the allocator that is disjoint from what is allocated, and it fails only when there
is none. -/
theorem allocate_right {t : Tracked} (hreach : system.Reachable t) {size : Nat}
    (hmeets : meets t (.allocate size)) : AllocatesRight t.allocator t.allocated size := by
  obtain ⟨hsize, hfits, hright⟩ := hmeets
  obtain ⟨a', start, heq, hstart⟩ := allocate_spec (reachable_invariant hreach) hsize hfits hright
  refine ⟨a', start, heq, ?_⟩
  cases start with
  | none | some start => exact hstart.1

/-! ## Fixed allocations -/

/-- A new allocator for the addresses from 16 to 96. -/
def newAllocator : Tracked where
  allocator :=
    { space :=
        { blocks := initialBlocks mappedFlag (), vaLimit := 96, vaBits := 32,
          hasUnmapCallback := false, limit_lt := by decide }
      virtStart := 16
      current := 16 }
  allocated _ := false

/-- A fixed allocation at the bump pointer is handed out again, and one ahead of it makes an
allocation fail although the space behind it is free. -/
theorem fixed_allocation_overlap :
    ((newAllocator.exec (.allocateFixed 16 8)).bind fun t =>
        (t.allocator.allocate 8).map fun r => (r.2, t.allocated 16)) = some (some 16, true) ∧
      ((newAllocator.exec (.allocateFixed 24 8)).bind fun t =>
        (t.allocator.allocate 20).map fun r =>
          (r.2, (List.range 20).map fun i => t.allocated (32 + i))) =
        some (none, List.replicate 20 false) :=
  ⟨rfl, rfl⟩

theorem allocate_before_fixed :
    ∃ t, newAllocator.exec (.allocateFixed 40 8) = some t ∧
      AllocatesRight t.allocator t.allocated 8 := by
  have hnew : system.Reachable newAllocator := .start ⟨rfl, by decide, by decide, rfl, rfl⟩
  have hfixed : meets newAllocator (.allocateFixed 40 8) := ⟨by decide, by decide, by decide⟩
  refine ⟨_, rfl, allocate_right (hnew.next ⟨_, hfixed, rfl⟩) ⟨by decide, by decide, ?_⟩⟩
  -- the range from 16 to 24 lies in the first block
  exact ⟨⟨0, false, ()⟩, rfl, .inl ⟨by decide, rfl⟩⟩

end FlatAllocator
end Drippu.Common
