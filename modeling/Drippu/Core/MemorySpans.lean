import Mathlib.Data.BitVec
import Drippu.Core.Memory
import Drippu.Library.Transition
import Drippu.Library.Translated

/-!
# Core - Spans of guest memory

A span is one host pointer for a range of guest memory.  `GetSpan` compares the tags of the
two end pages only.  The tag names the mapping call of a page by its address, so the pages in
between may have been unmapped or mapped elsewhere by later calls.

The comparison decides correctly on the tables where each tag is on one run of pages with one
distance to the host.  Calls keep a table like that when they do not cut the middle out of a
mapping and map from a page, other than the first, whose address no page outside still carries
as its tag.

Main results:

- Theorem `getSpan_sound`: spans after any run of such calls.
-/

namespace Drippu.Core

open Library
open RecompMemory (PageType PageInfo.store fmPtrMask)

/-! ## Calls -/

/-- A call that maps or unmaps whole pages, as the two callers make it. -/
inductive Call where
  | map (base size : Nat) (target : BitVec 64) (nonzero : target ≠ 0)
      (aligned : target &&& 0xfff#64 = 0)
  | unmap (base size : Nat)

namespace Call

def base : Call → Nat
  | map base _ _ _ _ => base
  | unmap base _ => base

def size : Call → Nat
  | map _ size _ _ _ => size
  | unmap _ size => size

def apply (device : DeviceMemory) (table : PageTable) : Call → PageTable
  | map base size target _ _ => mapPages device table base size target .memory
  | unmap base size => mapPages device table base size 0 .unmapped

/-- The page is in the range of the call. -/
def Has (call : Call) (page : Nat) : Prop := call.base ≤ page ∧ page < call.base + call.size

instance (call : Call) (page : Nat) : Decidable (call.Has page) :=
  inferInstanceAs (Decidable (_ ∧ _))

lemma Has.size_pos {call : Call} {page : Nat} (h : call.Has page) : 0 < call.size := by
  have := h.1
  have := h.2
  omega

/-- The tag of a new mapping is neither the one of unmapped pages nor on a page outside. -/
def Fresh (table : PageTable) (call : Call) : Prop :=
  match call with
  | map base _ _ _ _ =>
    base ≠ 0 ∧ ∀ p < table.pages, ¬ call.Has p → (table.entries p).block ≠ pageAddress base
  | unmap _ _ => True

/-- A call for some pages has a new tag and does not cut the middle out of a mapping. -/
structure Tidy (table : PageTable) (call : Call) : Prop where
  fresh : 0 < call.size → call.Fresh table
  keeps_runs : 0 < call.size → ∀ p q, p < call.base → call.base + call.size ≤ q →
    q < table.pages → (table.entries p).block = (table.entries q).block →
    (table.entries p).block = 0

end Call

/-- The tables behind runs of calls inside the address space that satisfy a condition. -/
def mapSystem (device : DeviceMemory) (start : PageTable) (P : PageTable → Call → Prop) :
    TransitionSystem PageTable where
  init table := table = start
  step table table' := ∃ call : Call, call.base + call.size ≤ table.pages ∧ P table call ∧
    table' = call.apply device table

/-! ## The entries behind a call -/

lemma pageAddress_succ (page : Nat) : pageAddress (page + 1) = pageAddress page + 0x1000#64 := by
  rw [pageAddress, add_mul, one_mul, BitVec.ofNat_add]
  rfl

lemma getPointer_add (device : DeviceMemory) (target d : BitVec 64) :
    device.getPointer (target + d) = device.getPointer target + d := by
  unfold DeviceMemory.getPointer
  ring

/-- The entry that a mapping writes into all of its pages. -/
def mappedEntry (device : DeviceMemory) (type : PageType) (origBase base : Nat)
    (target : BitVec 64) : PageEntry where
  ptr := PageInfo.store (device.getPointer target - pageAddress base) type
  block := pageAddress origBase
  addr := target - pageAddress base

lemma mappedEntry_succ (device : DeviceMemory) (type : PageType) (origBase base : Nat)
    (target : BitVec 64) :
    mappedEntry device type origBase (base + 1) (target + 0x1000#64) =
      mappedEntry device type origBase base target := by
  have hhost : device.getPointer (target + 0x1000#64) - pageAddress (base + 1) =
      device.getPointer target - pageAddress base := by
    rw [getPointer_add, pageAddress_succ]
    ring
  have hbacking : target + 0x1000#64 - pageAddress (base + 1) = target - pageAddress base := by
    rw [pageAddress_succ]
    ring
  rw [mappedEntry, mappedEntry, hhost, hbacking]

lemma entries_mapLoop (device : DeviceMemory) (type : PageType) (origBase size base : Nat)
    (target : BitVec 64) (entries : Nat → PageEntry) (page : Nat) :
    mapLoop device type origBase size base target entries page =
      if base ≤ page ∧ page < base + size then mappedEntry device type origBase base target
      else entries page := by
  induction size generalizing base target entries with
  | zero => rw [mapLoop, if_neg (by omega)]
  | succ size ih =>
    rw [mapLoop, ih, mappedEntry_succ]
    by_cases hpage : page = base
    · subst hpage
      rw [if_neg (by omega), if_pos (by omega), Function.update_self, mappedEntry]
    · rw [Function.update_of_ne hpage]
      exact if_congr (by omega) rfl rfl

lemma entries_unmapLoop (type : PageType) (size base : Nat) (entries : Nat → PageEntry)
    (page : Nat) :
    unmapLoop type size base entries page =
      if base ≤ page ∧ page < base + size then ⟨PageInfo.store 0 type, 0, 0⟩
      else entries page :=
  loop_apply (fun n k => unmapLoop type n (base + k)) base
    (fun _ _ => ⟨PageInfo.store 0 type, 0, 0⟩)
    (fun _ _ => rfl) (fun _ _ _ => rfl) size 0 entries page

/-- What a call writes into all of its pages. -/
def Call.entry (device : DeviceMemory) : Call → PageEntry
  | map base _ target _ _ => mappedEntry device .memory base base target
  | unmap _ _ => .empty

section
variable (device : DeviceMemory) (table : PageTable)

lemma entries_apply (call : Call) (page : Nat) :
    (call.apply device table).entries page =
      if call.Has page then call.entry device else table.entries page := by
  cases call with
  | map base size target h h' =>
    simp only [Call.apply, mapPages, if_neg h]
    exact entries_mapLoop device .memory base size base target table.entries page
  | unmap base size =>
    exact entries_unmapLoop .unmapped size base table.entries page

@[simp]
lemma pages_apply (call : Call) : (call.apply device table).pages = table.pages := by
  cases call <;> rfl

end

/-! ## The invariant -/

/-- Each tag other than zero is on one run of pages with one distance to the host; pages with
the tag zero are empty, the others are memory. -/
structure Faithful (table : PageTable) : Prop where
  runs : ∀ p q, p ≤ q → q < table.pages → (table.entries p).block ≠ 0 →
    (table.entries p).block = (table.entries q).block →
    ∀ r, p ≤ r → r ≤ q → (table.entries r).ptr = (table.entries p).ptr
  empty : ∀ p < table.pages, (table.entries p).block = 0 → table.entries p = .empty
  memory : ∀ p < table.pages, (table.entries p).block ≠ 0 → (table.entries p).type = .memory

lemma pages_le (table : PageTable) : table.pages ≤ 2 ^ 36 := by
  have := table.bits_le
  exact Nat.pow_le_pow_right (by decide) (by omega)

lemma pageAddress_ne_zero {page : Nat} (hpos : page ≠ 0) (hlt : page < 2 ^ 36) :
    pageAddress page ≠ 0 := by
  intro h
  have := congrArg BitVec.toNat h
  simp only [pageAddress, pageSize, BitVec.toNat_ofNat] at this
  change _ = 0 at this
  omega

lemma toNat_pageAddress_mod (page : Nat) : (pageAddress page).toNat % 4 = 0 := by
  simp only [pageAddress, pageSize, BitVec.toNat_ofNat]
  omega

/-- The pointer stored for a mapping leaves the two bits of the type free. -/
lemma hostPtr_and_tagMask (device : DeviceMemory) {target : BitVec 64}
    (h : target &&& 0xfff#64 = 0) (base : Nat) :
    (device.getPointer target - pageAddress base) &&& 3#64 = 0 := by
  have hbacking := RecompMemory.toNat_aligned device.aligned
  have htarget := RecompMemory.toNat_aligned h
  have hbase := toNat_pageAddress_mod base
  have hlow : ((device.getPointer target - pageAddress base) &&& 3#64).toNat =
      (device.getPointer target - pageAddress base).toNat % 2 ^ 2 :=
    RecompMemory.toNat_and_low _ 2 (by decide)
  apply BitVec.eq_of_toNat_eq
  rw [hlow, DeviceMemory.getPointer, BitVec.toNat_sub, BitVec.toNat_add, BitVec.toNat_sub]
  change _ = 0
  simp only [dramBase, BitVec.toNat_ofNat]
  omega

lemma type_mappedEntry (device : DeviceMemory) {target : BitVec 64}
    (h : target &&& 0xfff#64 = 0) (origBase base : Nat) :
    (mappedEntry device .memory origBase base target).type = .memory := by
  simp only [PageEntry.type, mappedEntry]
  rw [RecompMemory.store_and_tagMask .memory (hostPtr_and_tagMask device h base)]
  rfl

lemma Faithful.resize (bits : Nat) (hge : 12 ≤ bits) (hle : bits ≤ 48) :
    Faithful (.resize bits hge hle) where
  runs _ _ _ _ h := absurd rfl h
  empty _ _ _ := rfl
  memory _ _ h := absurd rfl h

variable {call : Call}

lemma type_entry (device : DeviceMemory) (h : (call.entry device).block ≠ 0) :
    (call.entry device).type = .memory := by
  cases call with
  | map base size target h₁ h₂ => exact type_mappedEntry device h₂ base base
  | unmap base size => exact absurd rfl h

variable {device : DeviceMemory} {table : PageTable}

/-- The tag that a tidy call writes, if it is not zero, is not on a page outside. -/
lemma Call.Fresh.block_ne (h : call.Fresh table) {p : Nat} (hp : p < table.pages)
    (hout : ¬ call.Has p) (hne : (call.entry device).block ≠ 0) :
    (table.entries p).block ≠ (call.entry device).block := by
  cases call with
  | map base size target h₁ h₂ => exact h.2 p hp hout
  | unmap base size => exact absurd rfl hne

lemma Call.Fresh.entry_eq_empty (h : call.Fresh table) (hsize : 0 < call.size)
    (hin : call.base + call.size ≤ table.pages) (hzero : (call.entry device).block = 0) :
    call.entry device = .empty := by
  cases call with
  | map base size target h₁ h₂ =>
    have hle := pages_le table
    have hlt : base + size ≤ table.pages := hin
    have hpos : 0 < size := hsize
    exact absurd hzero (pageAddress_ne_zero h.1 (by omega))
  | unmap base size => rfl

lemma Faithful.apply (hf : Faithful table) (hin : call.base + call.size ≤ table.pages)
    (htidy : call.Tidy table) :
    Faithful (call.apply device table) where
  runs p q hpq hq hne heq r hpr hrq := by
    rw [pages_apply] at hq
    simp only [entries_apply] at hne heq ⊢
    by_cases hp : call.Has p
    · have hfresh := htidy.fresh hp.size_pos
      rw [if_pos hp] at hne heq ⊢
      -- a page outside does not carry the new tag
      have hqin : call.Has q := by
        by_contra hout
        rw [if_neg hout] at heq
        exact hfresh.block_ne hq hout hne heq.symm
      rw [if_pos ⟨hp.1.trans hpr, by have := hqin.2; omega⟩]
    rw [if_neg hp] at hne heq ⊢
    by_cases hqin : call.Has q
    · have hfresh := htidy.fresh hqin.size_pos
      rw [if_pos hqin] at heq
      exact absurd heq (hfresh.block_ne (by omega) hp (heq ▸ hne))
    rw [if_neg hqin] at heq
    by_cases hr : call.Has r
    · -- the range of the call lies between the two pages
      have hr1 := hr.1
      have hr2 := hr.2
      have hleft : p < call.base := by
        by_contra hge
        exact hp ⟨not_lt.mp hge, by omega⟩
      have hright : call.base + call.size ≤ q := by
        by_contra hlt
        exact hqin ⟨by omega, not_le.mp hlt⟩
      exact absurd (htidy.keeps_runs (by omega) p q hleft hright hq heq) hne
    · rw [if_neg hr]
      exact hf.runs p q hpq hq hne heq r hpr hrq
  empty p hp hzero := by
    rw [pages_apply] at hp
    rw [entries_apply] at hzero ⊢
    by_cases hcall : call.Has p
    · rw [if_pos hcall] at hzero ⊢
      exact (htidy.fresh hcall.size_pos).entry_eq_empty hcall.size_pos hin hzero
    · rw [if_neg hcall] at hzero ⊢
      exact hf.empty p hp hzero
  memory p hp hne := by
    rw [pages_apply] at hp
    rw [entries_apply] at hne ⊢
    by_cases hcall : call.Has p
    · rw [if_pos hcall] at hne ⊢
      exact type_entry device hne
    · rw [if_neg hcall] at hne ⊢
      exact hf.memory p hp hne

/-! ## Spans -/

/-- Where a guest byte is in the memory of the host, if its page is mapped. -/
def hostLocation (table : PageTable) (vaddr : Nat) : Option (BitVec 64) :=
  let entry := table.entries (vaddr / pageSize)
  if entry.type = .memory then some (entry.pointer + BitVec.ofNat 64 vaddr) else none

section
variable {device : DeviceMemory} {table : PageTable} {addr size : Nat}

lemma size_addressSpace (table : PageTable) :
    2 ^ table.addressSpaceBits = table.pages * pageSize := by
  have := table.bits_ge
  rw [PageTable.pages, show pageSize = 2 ^ 12 from rfl, ← pow_add]
  congr 1
  omega

lemma addressSpace_le (table : PageTable) : 2 ^ table.addressSpaceBits ≤ 2 ^ 48 :=
  Nat.pow_le_pow_right (by decide) table.bits_le

lemma getPointerSilent_memory (hin : addr < 2 ^ table.addressSpaceBits)
    (htype : table.entries (addr / pageSize) = .empty ∨
      (table.entries (addr / pageSize)).type = .memory)
    (hne : getPointerSilent device table addr ≠ 0) :
    (table.entries (addr / pageSize)).type = .memory ∧
      getPointerSilent device table addr =
        (table.entries (addr / pageSize)).pointer + BitVec.ofNat 64 addr := by
  have hbits := addressSpace_le table
  have hmask : addr % 2 ^ 48 = addr := Nat.mod_eq_of_lt (by omega)
  have hcontains : addressSpaceContains table addr 1 := by
    rw [addressSpaceContains, Nat.mod_eq_of_lt (by omega)]
    omega
  simp only [getPointerSilent, hmask, hcontains, if_true] at hne ⊢
  rcases htype with hempty | hmemory
  · rw [hempty] at hne
    exact absurd rfl hne
  refine ⟨hmemory, ?_⟩
  rw [hmemory] at hne ⊢
  split at hne
  · rename_i hpointer
    rw [if_pos hpointer]
  · exact absurd rfl hne

/-- On faithful tables a span is contiguous. -/
lemma Faithful.hostLocation_of_getSpan (hf : Faithful table) (hsize : 0 < size)
    (hin : addr + size < 2 ^ table.addressSpaceBits) (hne : getSpan device table addr size ≠ 0)
    {i : Nat} (hi : i < size) :
    hostLocation table (addr + i) = some (getSpan device table addr size + BitVec.ofNat 64 i) := by
  have hbits := addressSpace_le table
  have hpages := size_addressSpace table
  have hpage : ∀ j ≤ size, (addr + j) / pageSize < table.pages := by
    intro j hj
    rw [Nat.div_lt_iff_lt_mul (by decide)]
    omega
  have hmod : (addr + size) % 2 ^ 64 = addr + size := Nat.mod_eq_of_lt (by omega)
  rw [getSpan, hmod] at hne ⊢
  split at hne
  case isFalse => exact absurd rfl hne
  rename_i htags
  rw [if_pos htags]
  have hp0 : addr / pageSize < table.pages := hpage 0 (Nat.zero_le _)
  have htype : table.entries (addr / pageSize) = .empty ∨
      (table.entries (addr / pageSize)).type = .memory := by
    by_cases hzero : (table.entries (addr / pageSize)).block = 0
    · exact .inl (hf.empty _ hp0 hzero)
    · exact .inr (hf.memory _ hp0 hzero)
  obtain ⟨hmemory, hpointer⟩ := getPointerSilent_memory (by omega) htype hne
  have hblock : (table.entries (addr / pageSize)).block ≠ 0 := by
    intro hzero
    rw [hf.empty _ hp0 hzero] at hmemory
    exact absurd hmemory (by decide)
  -- every page of the range has the entry pointer of the first
  have hptr := hf.runs (addr / pageSize) ((addr + size) / pageSize)
    (Nat.div_le_div_right (by omega)) (hpage size le_rfl) hblock htags ((addr + i) / pageSize)
    (Nat.div_le_div_right (by omega)) (Nat.div_le_div_right (by omega))
  rw [hpointer]
  simp only [hostLocation, PageEntry.type, PageEntry.pointer, hptr] at hmemory ⊢
  rw [if_pos hmemory, BitVec.ofNat_add, BitVec.add_assoc]

/-- A read of a range whose bytes are all in one stretch of host memory. -/
lemma walkPages_bytes {host : BitVec 64 → UInt8} {p : BitVec 64} (offset pageIndex : Nat)
    (pageOffset : Fin pageSize) (remaining k : Nat)
    (h : ∀ i < remaining, hostLocation table (pageIndex * pageSize + pageOffset + i) =
      some (p + BitVec.ofNat 64 (k + i))) :
    (walkPages device table offset pageIndex pageOffset remaining).flatMap (Visit.bytes host) =
      stretch (fun i => host (p + BitVec.ofNat 64 i)) k remaining := by
  induction hr : remaining using Nat.strong_induction_on
    generalizing offset pageIndex pageOffset remaining k with
  | _ n ih =>
    subst hr
    rw [walkPages]
    by_cases hzero : remaining = 0
    · rw [if_pos hzero, hzero]
      rfl
    rw [if_neg hzero, List.flatMap_cons]
    obtain ⟨amount, hamount⟩ : ∃ amount, amount = min (pageSize - pageOffset) remaining := ⟨_, rfl⟩
    rw [← hamount]
    have hle : amount ≤ remaining := by omega
    have hfirst := h 0 (by omega)
    -- the first page
    have hvisit : (visitPage device table offset amount
        (pageIndex * pageSize + pageOffset)).bytes host =
          stretch (fun i => host (p + BitVec.ofNat 64 i)) k amount := by
      simp only [hostLocation, add_zero] at hfirst
      split at hfirst
      case isFalse => simp at hfirst
      rename_i htype
      simp only [Option.some.injEq] at hfirst
      simp only [visitPage, htype, Visit.bytes, hfirst]
      simp only [stretch]
      refine List.map_congr_left fun i _ => ?_
      rw [BitVec.add_assoc, ← BitVec.ofNat_add, zero_add]
    rw [hvisit]
    -- the others
    have hrest := ih (remaining - amount) (by omega) (offset + amount) (pageIndex + 1)
      ⟨0, by decide⟩ (remaining - amount) (k + amount) ?_ rfl
    · rw [hrest, ← stretch_add, Nat.add_sub_cancel' hle]
    intro i hi
    have hnext := h (amount + i) (by omega)
    have hpage : (pageIndex + 1) * pageSize + 0 + i =
        pageIndex * pageSize + pageOffset + (amount + i) := by
      rw [add_mul]
      omega
    rw [← add_assoc k] at hnext
    rw [hpage]
    exact hnext

end

/-- After any run of tidy calls, every byte of a span is mapped and lies at its place in the
span, which shows the bytes that `ReadBlock` returns. -/
theorem getSpan_sound {device : DeviceMemory} {bits : Nat} {hge : 12 ≤ bits} {hle : bits ≤ 48}
    {table : PageTable}
    (hreach : (mapSystem device (.resize bits hge hle) fun table call => call.Tidy table).Reachable
      table)
    {addr size : Nat} (hsize : 0 < size) (hin : addr + size < 2 ^ table.addressSpaceBits)
    (hspan : getSpan device table addr size ≠ 0) :
    (∀ i < size, hostLocation table (addr + i) =
      some (getSpan device table addr size + BitVec.ofNat 64 i)) ∧
    ∀ host : BitVec 64 → UInt8, readBlockImpl device table host addr size =
      stretch (fun i => host (getSpan device table addr size + BitVec.ofNat 64 i)) 0 size := by
  have hf : Faithful table := by
    refine hreach.invariant ?_ ?_
    · rintro table rfl
      exact Faithful.resize bits hge hle
    · rintro table table' - hf ⟨call, hcall, htidy, rfl⟩
      exact hf.apply hcall htidy
  have hlocation : ∀ i < size, hostLocation table (addr + i) =
      some (getSpan device table addr size + BitVec.ofNat 64 i) :=
    fun i hi => hf.hostLocation_of_getSpan hsize hin hspan hi
  refine ⟨hlocation, fun host => ?_⟩
  have hbits := addressSpace_le table
  have hcontains : addressSpaceContains table addr size := by
    rw [addressSpaceContains, Nat.mod_eq_of_lt (by omega)]
    omega
  rw [readBlockImpl, walkBlock, if_pos hcontains]
  apply walkPages_bytes
  intro i hi
  have hsplit : addr / pageSize * pageSize + (pageOffset addr : Nat) = addr :=
    Nat.div_add_mod' addr pageSize
  rw [hsplit, zero_add]
  exact hlocation i hi

/-- A device whose memory begins somewhere in the host. -/
def sampleDevice : DeviceMemory where
  backing := 0x7f0000000000#64
  aligned := by decide

/-- Three pages from page 1 on. -/
def mapThree : Call := .map 1 3 0x80010000#64 (by decide) (by decide)

/-- The table of a 32-bit process after the three pages are mapped. -/
def threePages : PageTable :=
  mapThree.apply sampleDevice (.resize 32 (by decide) (by decide))

theorem getSpan_threePages :
    getSpan sampleDevice threePages 0x1000 0x2fff = 0x7f0000010000#64 ∧
      ∀ i < 0x2fff, hostLocation threePages (0x1000 + i) =
        some (getSpan sampleDevice threePages 0x1000 0x2fff + BitVec.ofNat 64 i) := by
  have hspan : getSpan sampleDevice threePages 0x1000 0x2fff = 0x7f0000010000#64 := by
    decide +kernel
  have hreach : (mapSystem sampleDevice (.resize 32 (by decide) (by decide))
      fun table call => call.Tidy table).Reachable threePages := by
    refine .next (.start rfl) ⟨mapThree, by decide +kernel, ⟨fun _ => ⟨by decide, ?_⟩, ?_⟩, rfl⟩
    · intro p _ _
      exact (by decide : (0 : BitVec 64) ≠ pageAddress 1)
    · intro _ p q _ _ _ _
      rfl
  refine ⟨hspan, (getSpan_sound hreach (by decide) (by decide +kernel) ?_).1⟩
  decide

/-- The table after the middle of the three pages is unmapped again. -/
def threePagesCut : PageTable := (Call.unmap 2 1).apply sampleDevice threePages

/-- With the middle page unmapped the two end pages still carry one tag, and the span covers the
unmapped page. -/
theorem getSpan_over_unmapped :
    (mapSystem sampleDevice (.resize 32 (by decide) (by decide)) fun _ _ => True).Reachable
        threePagesCut ∧
      getSpan sampleDevice threePagesCut 0x1000 0x2fff = 0x7f0000010000#64 ∧
      hostLocation threePagesCut (0x1000 + 0x1000) = none := by
  refine ⟨?_, by decide +kernel, by decide +kernel⟩
  refine .next (.next (.start rfl) ⟨mapThree, ?_, trivial, rfl⟩) ⟨.unmap 2 1, ?_, trivial, rfl⟩
  · decide +kernel
  · decide +kernel

end Drippu.Core
