import Mathlib.Data.Nat.Bitwise
import Drippu.Recomp.GuestMemory

/-!
# Recomp - The fast path agrees with the walk

The helpers with the fast path and the helpers of ABI 5 return the same values, write the same
bytes and make the same calls.  When the fast path serves an access, the walk would have read
the same entry and come to the same host address; when it declines, it has done nothing.

Main results:

- Theorem `fm1_agrees`: every access does the same with and without the fast path.
-/

namespace Drippu.RecompMemory
open PageInfo Abi5 BitVec

variable {σ : Type} {c : GuestContext σ} {hm : RecompHostMem σ} {w : World σ}
  {va bytes : BitVec 64}

/-! ## The contract of a context -/

/-- The walk serves nothing from this address on. -/
def RecompHostMem.limit (hm : RecompHostMem σ) : Nat := min hm.addressSpaceMax.toNat (2 ^ 48)

/-- The fast path reads the page table of the bridge, with the layout that was compiled in, up
to a page boundary that is not above the limit of the address space. -/
structure FmLayout (c : GuestContext σ) (hm : RecompHostMem σ) : Prop where
  hostMem : c.hostMem = some hm
  entries : hm.pageEntries ≠ 0
  table : c.fmTable = hm.pageEntries
  pageBits : hm.pageBits = BitVec.ofNat 64 fmPageBits
  stride : hm.pageEntryStride = 1#64 <<< fmStrideLog2
  pointerMask : hm.pointerMask = fmPtrMask
  aligned : c.fmLimit.toNat % 0x1000 = 0
  limit : c.fmLimit.toNat ≤ hm.limit

/-- The contract of the fields of the fast path; a limit of zero turns it off. -/
def FmContract (c : GuestContext σ) : Prop := c.fmLimit ≠ 0 → ∃ hm, FmLayout c hm

/-- The encoding of the entries: a page that is not memory has no pointer, and the pointer of a
memory page leads to host memory, which has no byte at the null address. -/
structure Encoded (hm : RecompHostMem σ) (memory : Memory) : Prop where
  null : ∀ va : BitVec 64, va.toNat < hm.limit →
    hm.entry memory va &&& hm.pageTypeMask ≠ hm.pageTypeMemory →
      hm.entry memory va &&& hm.pointerMask = 0
  host : ∀ va : BitVec 64, va.toNat < hm.limit → hm.entry memory va &&& hm.pointerMask ≠ 0 →
    (hm.entry memory va &&& hm.pointerMask) + va ≠ 0

/-! ## Addresses below the limit -/

lemma toNat_and_low (va : BitVec 64) (n : Nat) (hn : n ≤ 64) :
    (va &&& BitVec.ofNat 64 (2 ^ n - 1)).toNat = va.toNat % 2 ^ n := by
  have hle : 2 ^ n ≤ 2 ^ 64 := Nat.pow_le_pow_right (by decide) hn
  rw [toNat_and, toNat_ofNat, Nat.mod_eq_of_lt (by omega), Nat.and_two_pow_sub_one_eq_mod]

lemma and_vaMask (h : va.toNat < 2 ^ 48) : va &&& vaMask = va := by
  apply eq_of_toNat_eq
  rw [show vaMask = BitVec.ofNat 64 (2 ^ 48 - 1) from rfl, toNat_and_low va 48 (by decide),
    Nat.mod_eq_of_lt h]

section
variable (h : FmLayout c hm)
include h

lemma FmLayout.lt_limit (hva : va < c.fmLimit) : va.toNat < hm.limit :=
  lt_of_lt_of_le (lt_def.1 hva) h.limit

lemma FmLayout.entry_eq (memory : Memory) (va : BitVec 64) :
    memory.readWord (c.fmTable + (va >>> fmPageBits <<< fmStrideLog2)) = hm.entry memory va := by
  have hbits : hm.pageBits.toNat = fmPageBits := by
    rw [h.pageBits]
    rfl
  rw [RecompHostMem.entry, h.table, hbits, h.stride, shiftLeft_eq_mul_twoPow]
  rfl

lemma FmLayout.room_eq (va : BitVec 64) : (hm.room va).toNat = 0x1000 - va.toNat % 0x1000 := by
  have hlow : (va &&& (1#64 <<< (12 : Nat) - 1)).toNat = va.toNat % 2 ^ 12 :=
    toNat_and_low va 12 (by decide)
  have hbits : hm.pageBits.toNat = 12 := by
    rw [h.pageBits]
    rfl
  have hsize : (1#64 <<< (12 : Nat)).toNat = 0x1000 := rfl
  simp only [RecompHostMem.room, hbits]
  rw [toNat_sub, hlow, hsize]
  omega

lemma FmLayout.inside (hva : va < c.fmLimit) (hpage : va.toNat % 0x1000 + bytes.toNat ≤ 0x1000) :
    ¬ hm.outside va bytes := by
  have hlt := lt_def.1 hva
  have haligned := h.aligned
  -- the limit is a multiple of the page size, so the whole page is below it
  have hend : va.toNat + bytes.toNat ≤ c.fmLimit.toNat := by omega
  have hlimit : c.fmLimit.toNat ≤ min hm.addressSpaceMax.toNat (2 ^ 48) := h.limit
  have hspace : (0x1000000000000#64).toNat = 2 ^ 48 := rfl
  rw [RecompHostMem.outside, le_def, lt_def, lt_def, toNat_sub, toNat_sub, hspace]
  omega

end

/-! ## One entry -/

lemma recompFmEntry_declined (h : (recompFmEntry c va bytes w).1 = 0) :
    recompFmEntry c va bytes w = (0, w) := by
  unfold recompFmEntry at h ⊢
  split
  · rfl
  split
  · rfl
  rename_i hva hpage
  rw [if_neg hva, if_neg hpage] at h
  dsimp only at h ⊢
  split at h
  · rename_i hne
    exact absurd h hne
  · rename_i hne
    rw [if_neg hne, of_not_not hne]

/-- An access that is served lies in one page below the limit, whose entry has a pointer. -/
lemma recompFmEntry_inv (h : (recompFmEntry c va bytes w).1 ≠ 0) :
    va < c.fmLimit ∧ va &&& 0xfff#64 ≤ 0x1000#64 - bytes ∧
      recompFmEntry c va bytes w =
        (w.memory.readWord (c.fmTable + (va >>> fmPageBits <<< fmStrideLog2)) &&& fmPtrMask,
          recompBump c .fastPathHits w) := by
  unfold recompFmEntry at h ⊢
  split at h
  · exact absurd rfl h
  split at h
  · exact absurd rfl h
  rename_i hva hpage
  refine ⟨BitVec.not_le.1 hva, BitVec.not_lt.1 hpage, ?_⟩
  rw [if_neg hva, if_neg hpage]
  dsimp only at h ⊢
  split at h
  · rename_i hne
    exact if_pos hne
  · exact absurd h ‹_›

section
variable (h : FmLayout c hm)
include h

lemma FmLayout.pageBits_lt : ¬ 64 ≤ hm.pageBits := by
  rw [h.pageBits]
  decide

variable (hva : va < c.fmLimit)
include hva

lemma FmLayout.lt_space : va.toNat < 2 ^ 48 ∧ ¬ hm.addressSpaceMax ≤ va := by
  have hlt : va.toNat < min hm.addressSpaceMax.toNat (2 ^ 48) := h.lt_limit hva
  rw [le_def]
  omega

lemma FmLayout.hostPtr_eq (henc : Encoded hm w.memory)
    (hp : hm.entry w.memory va &&& hm.pointerMask ≠ 0) :
    recompHostPtr c va w =
      ((hm.entry w.memory va &&& hm.pointerMask) + va, recompBump c .fastPathHits w) := by
  obtain ⟨hspace, hmax⟩ := h.lt_space hva
  have htag : ¬ hm.entry w.memory va &&& hm.pageTypeMask ≠ hm.pageTypeMemory :=
    fun htag => hp (henc.null va (h.lt_limit hva) htag)
  unfold recompHostPtr
  simp only [h.hostMem, h.entries, h.pageBits_lt, false_or, if_false, and_vaMask hspace,
    if_neg hmax, if_neg htag, if_neg hp]

lemma FmLayout.hostPtrN_eq (hpos : bytes ≠ 0) (hpage : va.toNat % 0x1000 + bytes.toNat ≤ 0x1000) :
    recompHostPtrN c va bytes w = recompHostPtr c va w := by
  have hroom : ¬ hm.room va < bytes := by
    rw [lt_def, h.room_eq]
    omega
  unfold recompHostPtrN
  simp only [h.hostMem, h.entries, h.pageBits_lt, hpos, false_or, if_false,
    and_vaMask (h.lt_space hva).1, if_neg (h.inside hva hpage), if_neg hroom]

lemma FmLayout.pairPtr_eq (hpos : bytes ≠ 0) (hpage : va.toNat % 0x1000 + bytes.toNat ≤ 0x1000) :
    pairPtr c va bytes w = recompHostPtr c va w := by
  have hroom : bytes ≤ hm.room va := by
    rw [le_def, h.room_eq]
    omega
  have hsame : recompPairSamePage c.hostMem va bytes = true := by
    unfold recompPairSamePage
    simp only [h.hostMem, h.entries, h.pageBits_lt, hpos, false_or, if_false,
      and_vaMask (h.lt_space hva).1, if_neg (h.inside hva hpage), hroom, decide_true]
  exact if_pos hsame

end

/-- What the fast path serves, the walk serves with the same pointer. -/
lemma recompFmEntry_served (hc : FmContract c) (hw : ∀ hm ∈ c.hostMem, Encoded hm w.memory)
    (hpos : bytes ≠ 0) (hbytes : bytes ≤ 0x1000#64) {e : BitVec 64} {w' : World σ}
    (heq : recompFmEntry c va bytes w = (e, w')) (he : e ≠ 0) :
    e + va ≠ 0 ∧ recompHostPtr c va w = (e + va, w') ∧
      recompHostPtrN c va bytes w = (e + va, w') ∧ pairPtr c va bytes w = (e + va, w') := by
  obtain ⟨hva, hfits, hserved⟩ := recompFmEntry_inv (c := c) (w := w) (by rw [heq]; exact he)
  have hon : c.fmLimit ≠ 0 := by
    intro hzero
    rw [hzero] at hva
    exact BitVec.not_lt_zero hva
  obtain ⟨hm, hl⟩ := hc hon
  have hpage : va.toNat % 0x1000 + bytes.toNat ≤ 0x1000 := by
    have hlow : (va &&& 0xfff#64).toNat = va.toNat % 2 ^ 12 := toNat_and_low va 12 (by decide)
    rw [le_def, toNat_sub_of_le hbytes, hlow] at hfits
    rw [le_def] at hbytes
    have hsize : (0x1000#64).toNat = 0x1000 := rfl
    omega
  rw [heq, hl.entry_eq, ← hl.pointerMask] at hserved
  obtain ⟨rfl, rfl⟩ := Prod.mk.inj hserved
  have henc := hw hm hl.hostMem
  have hwalk := hl.hostPtr_eq hva henc he
  refine ⟨henc.host va (hl.lt_limit hva) he, hwalk, ?_, ?_⟩
  · rw [hl.hostPtrN_eq hva hpos hpage, hwalk]
  · rw [hl.pairPtr_eq hva hpos hpage, hwalk]

/-! ## The helpers -/

section
variable (hc : FmContract c) (hw : ∀ hm ∈ c.hostMem, Encoded hm w.memory)
include hc hw

/-- A fast path in front of a helper changes nothing when the helper serves what the fast path
serves in the same way. -/
lemma fastPath_eq {α : Type} {bytes : Nat} (hpos : BitVec.ofNat 64 bytes ≠ 0)
    (hbytes : BitVec.ofNat 64 bytes ≤ 0x1000#64) (a : BitVec 64)
    (served : BitVec 64 → World σ → α) (slow : World σ → α)
    (hslow : ∀ p w', p ≠ 0 → recompHostPtr c a w = (p, w') →
      recompHostPtrN c a (BitVec.ofNat 64 bytes) w = (p, w') →
      pairPtr c a (BitVec.ofNat 64 bytes) w = (p, w') → slow w = served p w') :
    (let (e, w) := recompFmEntry c a (BitVec.ofNat 64 bytes) w
      if e ≠ 0 then served (e + a) w else slow w) = slow w := by
  dsimp only
  split
  · rename_i he
    obtain ⟨hne, hptr, hptrN, hpair⟩ := recompFmEntry_served hc hw hpos hbytes rfl he
    exact (hslow _ _ hne hptr hptrN hpair).symm
  · rename_i he
    rw [recompFmEntry_declined (of_not_not he)]

lemma load8_eq (a : BitVec 64) : Fm1.recompLoad8 c a w = recompLoad8 c a w := by
  refine fastPath_eq hc hw (by decide) (by decide) a (fun p w => (w.get p 1, w))
    (recompLoad8 c a) fun p w' hp hptr _ _ => ?_
  rw [recompLoad8, hptr]
  exact if_pos hp

lemma load_eq {bytes : Nat} (hpos : BitVec.ofNat 64 bytes ≠ 0)
    (hbytes : BitVec.ofNat 64 bytes ≤ 0x1000#64) (a : BitVec 64) :
    Fm1.load bytes (recompLoad bytes) c a w = recompLoad bytes c a w := by
  refine fastPath_eq hc hw hpos hbytes a (fun p w => (w.get p bytes, w))
    (recompLoad bytes c a) fun p w' hp _ hptrN _ => ?_
  rw [recompLoad, hptrN]
  exact if_pos hp

lemma store8_eq (a v : BitVec 64) : Fm1.recompStore8 c a v w = recompStore8 c a v w := by
  refine fastPath_eq hc hw (by decide) (by decide) a (fun p w => w.set p 1 v)
    (recompStore8 c a v) fun p w' hp hptr _ _ => ?_
  rw [recompStore8, hptr]
  exact if_pos hp

lemma store_eq {bytes : Nat} (hpos : BitVec.ofNat 64 bytes ≠ 0)
    (hbytes : BitVec.ofNat 64 bytes ≤ 0x1000#64) (a v : BitVec 64) :
    Fm1.store bytes (recompStore bytes) c a v w = recompStore bytes c a v w := by
  refine fastPath_eq hc hw hpos hbytes a (fun p w => w.set p bytes v)
    (recompStore bytes c a v) fun p w' hp _ hptrN _ => ?_
  rw [recompStore, hptrN]
  exact if_pos hp

lemma ldp_eq {bytes : Nat} (hpos : BitVec.ofNat 64 (2 * bytes) ≠ 0)
    (hbytes : BitVec.ofNat 64 (2 * bytes) ≤ 0x1000#64) (a : BitVec 64) :
    Fm1.ldp bytes (recompLdp bytes) c a w = recompLdp bytes c a w := by
  refine fastPath_eq hc hw hpos hbytes a
    (fun p w => ((w.get p bytes, w.get (p + BitVec.ofNat 64 bytes) bytes), w))
    (recompLdp bytes c a) fun p w' hp _ _ hpair => ?_
  rw [recompLdp, hpair]
  exact if_pos hp

lemma stp_eq {bytes : Nat} (hpos : BitVec.ofNat 64 (2 * bytes) ≠ 0)
    (hbytes : BitVec.ofNat 64 (2 * bytes) ≤ 0x1000#64) (a v₀ v₁ : BitVec 64) :
    Fm1.stp bytes (recompStp bytes) c a v₀ v₁ w = recompStp bytes c a v₀ v₁ w := by
  refine fastPath_eq hc hw hpos hbytes a
    (fun p w => (w.set p bytes v₀).set (p + BitVec.ofNat 64 bytes) bytes v₁)
    (recompStp bytes c a v₀ v₁) fun p w' hp _ _ hpair => ?_
  rw [recompStp, hpair]
  exact if_pos hp

lemma run_eq (access : Access) : Fm1.run c w access = run c w access := by
  cases access with
  | load8 a => exact congrArg oneValue (load8_eq hc hw a)
  | load16 a | load32 a | load64 a =>
    exact congrArg oneValue (load_eq hc hw (by decide) (by decide) a)
  | store8 a v => exact congrArg (Prod.mk []) (store8_eq hc hw a v)
  | store16 a v | store32 a v | store64 a v =>
    exact congrArg (Prod.mk []) (store_eq hc hw (by decide) (by decide) a v)
  | ldp64 a | ldp32 a => exact congrArg twoValues (ldp_eq hc hw (by decide) (by decide) a)
  | stp64 a v₀ v₁ | stp32 a v₀ v₁ =>
    exact congrArg (Prod.mk []) (stp_eq hc hw (by decide) (by decide) a v₀ v₁)

end

/-! ## The host -/

lemma pageStart_aligned (x : BitVec 64) : (x &&& ~~~0xfff#64) &&& 0xfff#64 = 0 := by
  rw [BitVec.and_assoc]
  exact and_zero

/-- An entry as the host stores it: no pointer, or the distance from the guest page to a page of
host memory. -/
inductive Stored (va : BitVec 64) : BitVec 64 → Prop
  | null (type : PageType) : Stored va (store 0 type)
  | memory (page : BitVec 64) (hnull : page ≠ 0) (haligned : page &&& 0xfff#64 = 0) :
      Stored va (store (page - (va &&& ~~~0xfff#64)) .memory)

lemma store_and_fmPtrMask (pointer : BitVec 64) (type : PageType) :
    store pointer type &&& fmPtrMask = pointer &&& fmPtrMask := by
  have htype : type.value &&& fmPtrMask = 0 := by
    cases type <;> rfl
  rw [store, and_or_distrib_right, htype]
  exact or_zero

lemma store_and_tagMask {pointer : BitVec 64} (type : PageType) (h : pointer &&& 3#64 = 0) :
    store pointer type &&& 3#64 = type.value := by
  have htype : type.value &&& 3#64 = type.value := by
    cases type <;> rfl
  rw [store, and_or_distrib_right, htype, h]
  exact zero_or

lemma toNat_aligned {x : BitVec 64} (h : x &&& 0xfff#64 = 0) : x.toNat % 0x1000 = 0 := by
  have hlow : (x &&& 0xfff#64).toNat = x.toNat % 2 ^ 12 := toNat_and_low x 12 (by decide)
  rw [h] at hlow
  exact hlow.symm

lemma toNat_pageStart (va : BitVec 64) :
    (va &&& ~~~0xfff#64).toNat + va.toNat % 0x1000 = va.toNat := by
  have hlow : (va &&& 0xfff#64).toNat = va.toNat % 2 ^ 12 := toNat_and_low va 12 (by decide)
  have hsplit : (va &&& ~~~0xfff#64) + (va &&& 0xfff#64) = va := by
    rw [add_eq_or_of_and_eq_zero, ← and_or_distrib_left]
    · exact and_allOnes
    · rw [BitVec.and_comm va 0xfff#64, ← BitVec.and_assoc, pageStart_aligned]
      exact zero_and
  have hsum := congrArg BitVec.toNat hsplit
  rw [toNat_add, hlow] at hsum
  omega

section
variable {raw : BitVec 64}

lemma pointer_and_tagMask {page : BitVec 64} (hpage : page &&& 0xfff#64 = 0) (va : BitVec 64) :
    (page - (va &&& ~~~0xfff#64)) &&& 3#64 = 0 := by
  have hp := toNat_aligned hpage
  have hv := toNat_aligned (pageStart_aligned va)
  have hlow : ((page - (va &&& ~~~0xfff#64)) &&& 3#64).toNat =
      (page - (va &&& ~~~0xfff#64)).toNat % 2 ^ 2 := toNat_and_low _ 2 (by decide)
  apply eq_of_toNat_eq
  rw [hlow, toNat_sub]
  change _ = 0
  omega

lemma Stored.null_pointer (h : Stored va raw) (htag : raw &&& 3#64 ≠ PageType.memory.value) :
    raw &&& fmPtrMask = 0 := by
  cases h with
  | null type =>
    rw [store_and_fmPtrMask]
    exact zero_and
  | memory page _ haligned =>
    exact absurd (store_and_tagMask .memory (pointer_and_tagMask haligned va)) htag

lemma Stored.host_pointer (h : Stored va raw) (hne : raw &&& fmPtrMask ≠ 0) :
    (raw &&& fmPtrMask) + va ≠ 0 := by
  cases h with
  | null type =>
    rw [store_and_fmPtrMask] at hne
    exact absurd zero_and hne
  | memory page hnull haligned =>
    have hpart : (page - (va &&& ~~~0xfff#64)) &&& fmPtrMask = page - (va &&& ~~~0xfff#64) := by
      have htag := pointer_and_tagMask haligned va
      have hall : (page - (va &&& ~~~0xfff#64)) &&& (3#64 ||| fmPtrMask) =
          page - (va &&& ~~~0xfff#64) := and_allOnes
      rw [and_or_distrib_left, htag] at hall
      exact zero_or.symm.trans hall
    rw [store_and_fmPtrMask, hpart]
    intro hzero
    have hsum := congrArg BitVec.toNat hzero
    have hstart := toNat_pageStart va
    have hp := toNat_aligned haligned
    have hpos : page.toNat ≠ 0 := fun h => hnull (eq_of_toNat_eq h)
    rw [toNat_add, toNat_sub] at hsum
    change _ = 0 at hsum
    omega

end

/-- Page tables that the host fills are in the documented encoding. -/
lemma encoded_of_stored {hm : RecompHostMem σ} {memory : Memory} (hmask : hm.pageTypeMask = 3)
    (hmemory : hm.pageTypeMemory = PageType.memory.value) (hpointer : hm.pointerMask = fmPtrMask)
    (h : ∀ va : BitVec 64, va.toNat < hm.limit → Stored va (hm.entry memory va)) :
    Encoded hm memory := by
  refine ⟨fun va hva htag => ?_, fun va hva hne => ?_⟩
  · rw [hmask, hmemory] at htag
    rw [hpointer]
    exact (h va hva).null_pointer htag
  · rw [hpointer] at hne ⊢
    exact (h va hva).host_pointer hne

/-! ## Agreement -/

/-- For every context that keeps the contract, over every page table in the documented encoding,
each access returns the same values, writes the same bytes and makes the same calls with the fast
path as with the helpers of ABI 5. -/
theorem fm1_agrees (c : GuestContext σ) (hc : FmContract c) (w : World σ)
    (hw : ∀ hm ∈ c.hostMem, Encoded hm w.memory) (access : Access) :
    Fm1.run c w access = run c w access :=
  run_eq hc hw access

/-- A page table with one page of memory. -/
def onePage : GuestContext Unit where
  mem := 0
  memSize := 0
  memBaseVaddr := 0
  hostMem := some
    { load := fun _ _ host => (0, host)
      store := fun _ _ _ host => host
      pageEntries := 0x10000
      pageEntryStride := 32
      pageBits := 12
      pointerMask := fmPtrMask
      addressSpaceMax := 0x1000
      pageTypeMask := 3
      pageTypeMemory := PageType.memory.value
      pageTypeDebug := PageType.debugMemory.value
      pageTypeRasterizerCached := PageType.rasterizerCachedMemory.value
      counters := 0 }
  fmTable := 0x10000
  fmLimit := 0x1000

/-- The page is at the host address `0x20000`. -/
def onePageWorld : World Unit where
  memory p := if p = 0x10000 then 1 else if p = 0x10002 then 2 else 0
  host := ()
  calls := []

lemma onePage_contract : FmContract onePage :=
  fun _ => ⟨_, rfl, by decide, rfl, rfl, rfl, rfl, by decide, by decide⟩

lemma onePage_encoded : ∀ hm ∈ onePage.hostMem, Encoded hm onePageWorld.memory := by
  rintro hm ⟨⟩
  refine encoded_of_stored rfl rfl rfl fun va hva => ?_
  have hlt : va.toNat < 0x1000 := lt_of_lt_of_le hva (by decide)
  have hpage : va >>> (12 : Nat) = 0 := by
    apply eq_of_toNat_eq
    rw [toNat_ushiftRight, Nat.shiftRight_eq_div_pow]
    exact Nat.div_eq_of_lt hlt
  have hstart : va &&& ~~~0xfff#64 = 0 := by
    have hsum := toNat_pageStart va
    exact eq_of_toNat_eq (by change _ = 0; omega)
  have hentry : onePageWorld.memory.readWord (0x10000 + va >>> (12 : Nat) * 32) =
      store (0x20000 - (va &&& ~~~0xfff#64)) .memory := by
    rw [hpage, hstart]
    decide
  have hstored : Stored va (store (0x20000 - (va &&& ~~~0xfff#64)) .memory) :=
    .memory 0x20000 (by decide) (by decide)
  rw [← hentry] at hstored
  exact hstored

theorem fm1_agrees_onePage :
    Fm1.run onePage onePageWorld (.stp64 0x10 7 8) = run onePage onePageWorld (.stp64 0x10 7 8) :=
  fm1_agrees onePage onePage_contract onePageWorld onePage_encoded (.stp64 0x10 7 8)

end Drippu.RecompMemory
