import Drippu.Core.DeviceSpans
import Drippu.VideoCore.GpuMemoryManager

/-!
# Video core - Block accesses of the GPU and its address translation

A block access agrees with the translation of each of its addresses, except where a big page is
reserved and a small page under it is mapped: the translation looks at the small page, the block
access skips the big page.

Main results:

- Theorem `blocks_agree_iff`: when it agrees with the translation.
-/

namespace Drippu.VideoCore.Gpu

open Library DeviceMemory Nat Segment Function List Option MemoryManager

/-! ## Entries -/

lemma EntryType.ofBits_toBits (entry : EntryType) : EntryType.ofBits entry.toBits = entry := by
  cases entry <;> decide

lemma three_getLsbD (i : Nat) : (3#64).getLsbD i = decide (i < 2) := by
  have hall : ∀ j < 64, (3#64).getLsbD j = decide (j < 2) := by decide
  by_cases hlt : i < 64
  · exact hall i hlt
  · rw [BitVec.getLsbD_of_ge _ _ (by omega), decide_eq_false (by omega)]

lemma EntryType.toBits_getLsbD {entry : EntryType} {i : Nat} (hi : ¬ i < 2) :
    entry.toBits.getLsbD i = false := by
  have hmask : entry.toBits = entry.toBits &&& 3#64 := by
    cases entry <;> decide
  rw [hmask, BitVec.getLsbD_and, three_getLsbD, decide_eq_false hi, Bool.and_false]

/-- The two bits of an entry after an entry of the same word was set. -/
lemma field_update (w : BitVec 64) (entry : EntryType) {k l : Nat} (hk : k < 32) (hl : l < 32) :
    (((~~~(3#64 <<< (k * 2)) &&& w) ||| (entry.toBits <<< (k * 2))) >>> (2 * l)) &&& 3#64 =
      if l = k then entry.toBits else (w >>> (2 * l)) &&& 3#64 := by
  apply BitVec.eq_of_getLsbD_eq
  intro i hi
  simp only [BitVec.getLsbD_and, BitVec.getLsbD_ushiftRight, BitVec.getLsbD_or, BitVec.getLsbD_not,
    BitVec.getLsbD_shiftLeft, three_getLsbD, apply_ite (BitVec.getLsbD · i)]
  by_cases hlow : i < 2
  · split_ifs with heq
    · subst heq
      have hin : ¬ 2 * l + i < l * 2 := by omega
      have hsub : 2 * l + i - l * 2 = i := by omega
      simp [hin, hsub, hlow, show 2 * l + i < 64 by omega]
    · by_cases hbelow : 2 * l + i < k * 2
      · simp [hbelow, show 2 * l + i < 64 by omega]
      · have hfar : ¬ 2 * l + i - k * 2 < 2 := by omega
        simp [show 2 * l + i < 64 by omega, EntryType.toBits_getLsbD hfar, hfar]
  · simp [hlow, EntryType.toBits_getLsbD hlow]

lemma entryAt_setEntry (words : Nat → BitVec 64) (bits position : Nat) (entry : EntryType)
    (index : Nat) :
    entryAt (setEntry words bits position entry) index =
      if index = position / 2 ^ bits then entry else entryAt words index := by
  simp only [entryAt, setEntry]
  by_cases hword : index / 32 = position / 2 ^ bits / 32
  · rw [hword, update_self, field_update _ _ (mod_lt _ (by decide)) (mod_lt _ (by decide))]
    by_cases heq : index = position / 2 ^ bits
    · rw [if_pos heq, if_pos (by rw [heq]), EntryType.ofBits_toBits]
    · rw [if_neg heq, if_neg (by omega)]
  · rw [update_of_ne hword, if_neg fun heq => hword (by rw [heq])]

/-! ## Pointers of the device -/

variable {c : Config} {host : Host} {dev : Manager} {s : MemoryManager}

lemma pagePointer_ne_zero (physAddr offset : Nat) : pagePointer host physAddr offset ≠ 0 := by
  have hbase := host.base_gt
  rw [pagePointer]
  omega

lemma getPointer_eq (address : Nat) :
    getPointer host dev address =
      if dev.phys (address / pageSize) = 0 then 0
      else pagePointer host (dev.phys (address / pageSize)) (address % pageSize) :=
  rfl

/-- The pointer of a device address is the place of its byte, or null if it has none. -/
lemma translate_eq (address : Nat) :
    translate host dev address =
      if getPointer host dev address = 0 then none else some (getPointer host dev address) := by
  rw [DeviceMemory.translate, getPointer_eq]
  by_cases hphys : dev.phys (address / pageSize) = 0
  · rw [if_pos hphys, if_pos hphys, if_pos rfl]
  · rw [if_neg hphys, if_neg hphys, if_neg (pagePointer_ne_zero _ _)]

lemma translate_linear {address size : Nat} (hsize : address % pageSize + size ≤ pageSize)
    (hptr : getPointer host dev address ≠ 0) {i : Nat} (hi : i < size) :
    translate host dev (address + i) = some (getPointer host dev address + i) := by
  have hphys : dev.phys (address / pageSize) ≠ 0 := fun hzero => hptr (if_pos hzero)
  have hin : size ≤ pageSize - address % pageSize := by omega
  rw [translate_in_page hin hphys hi, getPointer_eq, if_neg hphys]
  simp only [pagePointer]
  exact congrArg some (by omega)

/-! ## Contiguous big pages -/

lemma pageSize_eq : pageSize = 2 ^ 12 :=
  rfl

lemma small_page_inside (c : Config) {address : Nat} (h : address % 2 ^ c.pageBits = 0) :
    address % pageSize + 2 ^ c.pageBits ≤ pageSize := by
  have hdvd : 2 ^ c.pageBits ∣ pageSize := Nat.pow_dvd_pow 2 c.pageBits_le
  have hlt := mod_lt address (show 0 < pageSize by decide)
  refine le_of_lt_add_of_dvd (show _ < pageSize + 2 ^ c.pageBits by omega) ?_ hdvd
  exact Nat.dvd_add ((dvd_mod_iff hdvd).2 (dvd_of_mod_eq_zero h)) (Nat.dvd_refl _)

lemma continuousLoop_spec {rounds basePtr startCpu : Nat}
    (h : continuousLoop c host dev rounds basePtr startCpu = true) {k : Nat} (hk : k < rounds) :
    getPointer host dev (startCpu + k * 2 ^ c.pageBits) = basePtr + (k + 1) * 2 ^ c.pageBits ∧
      getPointer host dev (startCpu + k * 2 ^ c.pageBits) ≠ 0 := by
  induction rounds generalizing basePtr startCpu k with
  | zero => omega
  | succ rounds ih =>
    simp only [continuousLoop] at h
    split_ifs at h with hbad
    rw [not_or, not_not] at hbad
    cases k with
    | zero =>
      rw [zero_mul, add_zero, zero_add, one_mul]
      exact ⟨hbad.2.symm, hbad.1⟩
    | succ k =>
      have hnext := ih h (show k < rounds by omega)
      rw [add_assoc, add_comm (2 ^ c.pageBits), ← succ_mul, add_assoc basePtr,
        add_comm (2 ^ c.pageBits), ← succ_mul] at hnext
      exact hnext

/-- A big page that passes the check is one stretch of the memory of the host. -/
lemma isContinuous_spec {d : Nat} (hd : d % pageSize = 0) (h : isContinuous c host dev d = true) :
    ∀ i < 2 ^ c.bigPageBits, translate host dev (d + i) = some (getPointer host dev d + i) := by
  intro i hi
  simp only [isContinuous] at h
  split_ifs at h with hbase
  have hpos : 0 < 2 ^ c.pageBits := Nat.two_pow_pos _
  have haligned : d % 2 ^ c.pageBits = 0 := mod_eq_zero_of_dvd
    ((Nat.pow_dvd_pow 2 c.pageBits_le).trans (dvd_of_mod_eq_zero hd))
  -- The small page of the byte starts where the check looked.
  have hpage : getPointer host dev (d + i / 2 ^ c.pageBits * 2 ^ c.pageBits) =
      getPointer host dev d + i / 2 ^ c.pageBits * 2 ^ c.pageBits ∧
      getPointer host dev (d + i / 2 ^ c.pageBits * 2 ^ c.pageBits) ≠ 0 := by
    cases hk : i / 2 ^ c.pageBits with
    | zero =>
      rw [zero_mul, add_zero, add_zero]
      exact ⟨rfl, hbase⟩
    | succ k =>
      obtain ⟨q, hq⟩ := Nat.pow_dvd_pow 2 (c.pageBits_le.trans c.le_bigPageBits)
      have hlt : i / 2 ^ c.pageBits < q := by
        rw [hq] at hi
        exact Nat.div_lt_of_lt_mul hi
      have hrounds : rounds c.pageBits (2 ^ c.bigPageBits - 2 ^ c.pageBits) = q - 1 := by
        rw [rounds, hq]
        have hsub : 2 ^ c.pageBits * q - 2 ^ c.pageBits = 2 ^ c.pageBits * (q - 1) := by
          rw [Nat.mul_sub, mul_one]
        rw [hsub, Nat.add_sub_assoc hpos, mul_add_div hpos,
          div_eq_of_lt (sub_lt hpos Nat.one_pos), add_zero]
      rw [hrounds] at h
      have hspec := continuousLoop_spec h (show k < q - 1 by omega)
      rw [add_assoc, add_comm (2 ^ c.pageBits), ← succ_mul] at hspec
      exact hspec
  have hstart : (d + i / 2 ^ c.pageBits * 2 ^ c.pageBits) % 2 ^ c.pageBits = 0 := by
    rw [add_mul_mod_self_right, haligned]
  have hbyte := translate_linear (small_page_inside c hstart) hpage.2 (mod_lt i hpos)
  rw [hpage.1, add_assoc, add_assoc, div_add_mod'] at hbyte
  exact hbyte

/-! ## Runs -/

inductive Call where
  | map (gpuAddr devAddr size : Nat) (isBigPages : Bool)
  | mapSparse (gpuAddr size : Nat) (isBigPages : Bool)
  | unmap (gpuAddr size : Nat)

namespace Call

def apply (c : Config) (host : Host) (dev : Manager) (s : MemoryManager) : Call → MemoryManager
  | map gpuAddr devAddr size isBigPages => Gpu.map c host dev gpuAddr devAddr size isBigPages s
  | mapSparse gpuAddr size isBigPages => Gpu.mapSparse c host dev gpuAddr size isBigPages s
  | unmap gpuAddr size => Gpu.unmap c host dev gpuAddr size s

/-- Page-aligned ranges inside the address spaces. -/
def Aligned (c : Config) : Call → Prop
  | map gpuAddr devAddr size _ =>
    gpuAddr % 2 ^ c.pageBits = 0 ∧ size % 2 ^ c.pageBits = 0 ∧
      gpuAddr + size ≤ 2 ^ c.addressSpaceBits ∧ devAddr % pageSize = 0 ∧
      devAddr + size ≤ 2 ^ 44
  | mapSparse gpuAddr size _ =>
    gpuAddr % 2 ^ c.pageBits = 0 ∧ size % 2 ^ c.pageBits = 0 ∧
      gpuAddr + size ≤ 2 ^ c.addressSpaceBits
  | unmap gpuAddr size =>
    gpuAddr % 2 ^ c.pageBits = 0 ∧ size % 2 ^ c.pageBits = 0 ∧
      gpuAddr + size ≤ 2 ^ c.addressSpaceBits

instance (c : Config) (call : Call) : Decidable (call.Aligned c) := by
  cases call <;> exact inferInstanceAs (Decidable (_ ∧ _))

end Call

/-- The states behind runs of page-aligned calls. -/
def gpuSystem (c : Config) (host : Host) (dev : Manager) : TransitionSystem MemoryManager where
  init s := s = .initial
  step s s' := ∃ call : Call, call.Aligned c ∧ s' = call.apply c host dev s

section

/-- The device address that a big page is mapped to. -/
def bigBase (s : MemoryManager) (page : Nat) : Nat :=
  (s.bigPageTableDev page).toNat * 2 ^ cpuPageBits

/-- The flags of mapped big pages are true. -/
def Continuous (c : Config) (host : Host) (dev : Manager) (s : MemoryManager) : Prop :=
  ∀ page, entryAt s.bigEntries page = .mapped → isBigPageContinuous s page = true →
    ∀ i < 2 ^ c.bigPageBits,
      translate host dev (bigBase s page + i) = some (getPointer host dev (bigBase s page) + i)

lemma isBigPageContinuous_set (index : Nat) (value : Bool) (page : Nat) :
    isBigPageContinuous (setBigPageContinuous s index value) page =
      if page = index then value else isBigPageContinuous s page := by
  have hclear := bitAt_clearBit (w := 64) (by decide) s.bigPageContinuous index
  rw [BitVec.and_comm] at hclear
  cases value with
  | false =>
    change bitAt _ page = if page = index then false else bitAt _ page
    rw [setBigPageContinuous, if_neg Bool.false_ne_true, BitVec.or_zero, hclear]
    split_ifs with heq <;> simp [heq]
  | true =>
    -- the flag is set in the word from which it was cleared
    have hset := bitAt_setBit (w := 64) (by decide) (update s.bigPageContinuous
      (index / 64) (~~~(1#64 <<< (index % 64)) &&& s.bigPageContinuous (index / 64))) index page
    rw [update_self, update_idem, hclear] at hset
    refine hset.trans ?_
    split_ifs with heq
    · simp [heq]
    · simp [heq, isBigPageContinuous, bitAt]

variable {devAddr gpuAddr : Nat}

lemma pageEntryIndex_eq {bits : Nat} (hbits : bits ≤ c.addressSpaceBits)
    (h : gpuAddr < 2 ^ c.addressSpaceBits) :
    pageEntryIndex c bits gpuAddr = gpuAddr / 2 ^ bits := by
  refine mod_eq_of_lt (Nat.div_lt_of_lt_mul ?_)
  rwa [← pow_add, Nat.add_sub_cancel' hbits]

variable {entry : EntryType}

lemma Continuous.setBigPage (hs : Continuous c host dev s) (hgpu : gpuAddr < 2 ^ c.addressSpaceBits)
    (hdev : entry = .mapped → devAddr % pageSize = 0 ∧ devAddr < 2 ^ 44) :
    Continuous c host dev (setBigPage c host dev entry gpuAddr devAddr s) := by
  intro page hentry hflag
  simp only [Gpu.setBigPage] at hentry hflag ⊢
  by_cases hmapped : entry = .mapped
  · obtain ⟨haligned, hlt⟩ := hdev hmapped
    simp only [if_pos hmapped] at hentry hflag ⊢
    rw [isBigPageContinuous_set, pageEntryIndex_eq c.bigPageBits_le hgpu] at hflag
    change entryAt (setEntry s.bigEntries c.bigPageBits gpuAddr entry) page = _ at hentry
    rw [entryAt_setEntry] at hentry
    simp only [bigBase, setBigPageContinuous, pageEntryIndex_eq c.bigPageBits_le hgpu]
    by_cases heq : page = gpuAddr / 2 ^ c.bigPageBits
    · rw [if_pos heq] at hflag
      have hbase : (BitVec.ofNat 32 (devAddr / 2 ^ cpuPageBits)).toNat * 2 ^ cpuPageBits =
          devAddr := by
        rw [pageSize_eq] at haligned
        rw [BitVec.toNat_ofNat, cpuPageBits]
        omega
      rw [heq, update_self, hbase]
      exact isContinuous_spec haligned hflag
    · rw [if_neg heq] at hflag hentry
      rw [update_of_ne heq]
      exact hs page hentry hflag
  · simp only [if_neg hmapped] at hentry hflag ⊢
    rw [entryAt_setEntry] at hentry
    split_ifs at hentry with heq
    · exact absurd hentry hmapped
    · exact hs page hentry hflag

lemma Continuous.bigPageTableLoop {rounds : Nat} (hs : Continuous c host dev s)
    (hgpu : gpuAddr + rounds * 2 ^ c.bigPageBits < 2 ^ c.addressSpaceBits + 2 ^ c.bigPageBits)
    (hdev : entry = .mapped → devAddr % pageSize = 0 ∧
      devAddr + rounds * 2 ^ c.bigPageBits < 2 ^ 44 + 2 ^ c.bigPageBits) :
    Continuous c host dev (bigPageTableLoop c host dev entry rounds gpuAddr devAddr s) := by
  induction rounds generalizing s gpuAddr devAddr with
  | zero => exact hs
  | succ rounds ih =>
    rw [succ_mul] at hgpu hdev
    refine ih (hs.setBigPage (by omega) fun hm => ?_) (by omega) fun hm => ?_
    · exact ⟨(hdev hm).1, by have := (hdev hm).2; omega⟩
    · obtain ⟨haligned, hlt⟩ := hdev hm
      refine ⟨?_, by omega⟩
      obtain ⟨q, hq⟩ := Nat.pow_dvd_pow 2 c.le_bigPageBits
      rw [hq, pageSize_eq, add_mul_mod_self_left]
      exact haligned

lemma rounds_mul_lt (bits size : Nat) : rounds bits size * 2 ^ bits < size + 2 ^ bits := by
  have hpos : 0 < 2 ^ bits := Nat.two_pow_pos bits
  have hle := div_mul_le_self (size + 2 ^ bits - 1) (2 ^ bits)
  rw [rounds]
  omega

section
variable (hs : Continuous c host dev s)
include hs

lemma Continuous.bigPageTableOp {size : Nat} (hgpu : gpuAddr + size ≤ 2 ^ c.addressSpaceBits)
    (hdev : entry = .mapped → devAddr % pageSize = 0 ∧ devAddr + size ≤ 2 ^ 44) :
    Continuous c host dev (bigPageTableOp c host dev entry gpuAddr devAddr size s) := by
  have hlt := rounds_mul_lt c.bigPageBits size
  exact hs.bigPageTableLoop (by omega) fun hm => ⟨(hdev hm).1, by have := (hdev hm).2; omega⟩

lemma Continuous.pageTableLoop (entry : EntryType) (rounds gpuAddr devAddr : Nat) :
    Continuous c host dev (pageTableLoop c entry rounds gpuAddr devAddr s) := by
  induction rounds generalizing s gpuAddr devAddr with
  | zero => exact hs
  | succ rounds ih => exact ih (s := setPage c entry gpuAddr devAddr s) hs _ _

lemma Continuous.apply {call : Call} (h : call.Aligned c) :
    Continuous c host dev (call.apply c host dev s) := by
  cases call with
  | map gpuAddr devAddr size isBigPages =>
    obtain ⟨-, -, hgpu, haligned, hdev⟩ := h
    cases isBigPages with
    | true => exact hs.bigPageTableOp hgpu fun _ => ⟨haligned, hdev⟩
    | false => exact hs.pageTableLoop _ _ _ _
  | mapSparse gpuAddr size isBigPages =>
    obtain ⟨-, -, hgpu⟩ := h
    cases isBigPages with
    | true => exact hs.bigPageTableOp hgpu nofun
    | false => exact hs.pageTableLoop _ _ _ _
  | unmap gpuAddr size =>
    obtain ⟨-, -, hgpu⟩ := h
    simp only [Call.apply, Gpu.unmap]
    split_ifs
    · exact hs
    · have hbig : Continuous c host dev (Gpu.bigPageTableOp c host dev .free gpuAddr 0 size s) :=
        hs.bigPageTableOp hgpu nofun
      exact hbig.pageTableLoop _ _ _ _

end

lemma continuous_of_reachable (h : (gpuSystem c host dev).Reachable s) :
    Continuous c host dev s := by
  refine h.invariant (P := Continuous c host dev) ?_ ?_
  · rintro s rfl page hentry -
    have hfree : entryAt initial.bigEntries page = .free := by
      simp [initial, entryAt, EntryType.ofBits]
    rw [hfree] at hentry
    exact absurd hentry nofun
  · rintro s s' - hs ⟨call, hcall, rfl⟩
    exact hs.apply hcall

end

/-! ## Block accesses -/

section

/-- The place of the byte at an address of the GPU. -/
def location (c : Config) (host : Host) (dev : Manager) (s : MemoryManager) (addr : Nat) :
    Option Nat :=
  (gpuToCpuAddress c s addr).bind (translate host dev)

/-- A big page is reserved and the small page under it is mapped. -/
def Conflict (c : Config) (s : MemoryManager) (addr : Nat) : Prop :=
  getEntry s.bigEntries c.bigPageBits addr = .reserved ∧
    getEntry s.entries c.pageBits addr = .mapped

/-- The place that a block access goes to. -/
def blockLocation (c : Config) (host : Host) (dev : Manager) (s : MemoryManager) (addr : Nat) :
    Option Nat :=
  if getEntry s.bigEntries c.bigPageBits addr = .reserved then none else location c host dev s addr

/-- The stretches of the memory of the host that a step goes over. -/
def Segment.pieces (host : Host) (dev : Manager) : Segment → List Piece
  | nowhere amount => [.hole amount]
  | pointer amount ptr => [.stretch amount ptr]
  | device amount devAddr => DeviceMemory.walkBlock host dev devAddr amount

variable {a addr size : Nat}

lemma memoryOperation_next {words : Nat → BitVec 64} {bits : Nat}
    {mapped reserved unmapped : Nat → Nat → Nat → Option (List Segment)} {remaining amount : Nat}
    (hamount : amount = min (2 ^ bits - addr % 2 ^ bits) remaining) :
    memoryOperation words bits mapped reserved unmapped (addr / 2 ^ bits + 1)
        ⟨0, Nat.two_pow_pos bits⟩ (addr + amount) (remaining - amount) =
      startOperation words bits mapped reserved unmapped (addr + amount) (remaining - amount) := by
  have hpos : 0 < 2 ^ bits := Nat.two_pow_pos bits
  by_cases hlast : remaining ≤ 2 ^ bits - addr % 2 ^ bits
  · have hzero : remaining - amount = 0 := by omega
    rw [startOperation, memoryOperation, memoryOperation, if_pos hzero, if_pos hzero]
  have hend : addr + amount = 2 ^ bits * (addr / 2 ^ bits + 1) := by
    have hdiv := div_add_mod addr (2 ^ bits)
    rw [mul_succ]
    omega
  have hindex : (addr + amount) / 2 ^ bits = addr / 2 ^ bits + 1 := by
    rw [hend, Nat.mul_div_cancel_left _ hpos]
  have hoffset : (addr + amount) % 2 ^ bits = 0 := by
    rw [hend, mul_mod_right]
  simp [startOperation, hindex, hoffset]

/-- When the handlers cover every stretch of one page, the walk covers the range. -/
lemma startOperation_covers {words : Nat → BitVec 64} {bits : Nat}
    {mapped reserved unmapped : Nat → Nat → Nat → Option (List Segment)}
    {locate : Nat → Option Nat} {remaining : Nat}
    (hpage : ∀ a amount, addr ≤ a → a + amount ≤ addr + remaining →
      0 < amount → a % 2 ^ bits + amount ≤ 2 ^ bits →
      ∃ segments,
        (match getEntry words bits a with
          | .mapped => mapped (a / 2 ^ bits) (a % 2 ^ bits) amount
          | .reserved => reserved (a / 2 ^ bits) (a % 2 ^ bits) amount
          | .free => unmapped (a / 2 ^ bits) (a % 2 ^ bits) amount) = some segments ∧
        Covers locate a amount (segments.flatMap (pieces host dev))) :
    ∃ segments, startOperation words bits mapped reserved unmapped addr remaining = some segments ∧
      Covers locate addr remaining (segments.flatMap (pieces host dev)) := by
  induction hr : remaining using Nat.strong_induction_on generalizing addr remaining with
  | _ n ih =>
    subst hr
    rw [startOperation, memoryOperation]
    by_cases hzero : remaining = 0
    · rw [if_pos hzero, hzero]
      exact ⟨[], rfl, .nil _⟩
    rw [if_neg hzero]
    obtain ⟨amount, hamount⟩ : ∃ amount, amount = min (2 ^ bits - addr % 2 ^ bits) remaining :=
      ⟨_, rfl⟩
    obtain ⟨segments, hfirst, hcovers⟩ := hpage addr amount (by omega) (by omega) (by omega)
      (by omega)
    obtain ⟨rest, hnext, hcovers'⟩ := @ih (remaining - amount) (by omega) (addr + amount)
      (remaining - amount)
      (fun a amount' hlow hhigh hpos hin => hpage a amount' (by omega) (by omega) hpos hin) rfl
    refine ⟨segments ++ rest, ?_, ?_⟩
    · simp only [← hamount, memoryOperation_next hamount, hnext]
      cases hentry : getEntry words bits addr <;>
        · rw [hentry] at hfirst
          simp only [hfirst]
          rfl
    · rw [flatMap_append]
      have hsize : remaining = amount + (remaining - amount) := by omega
      rw [hsize]
      exact hcovers.append hcovers'

lemma getEntry_in_page (words : Nat → BitVec 64) {bits amount : Nat}
    (h : a % 2 ^ bits + amount ≤ 2 ^ bits) (i : Nat) (hi : i < amount) :
    getEntry words bits (a + i) = getEntry words bits a := by
  rw [getEntry, getEntry, (index_in_page h hi).1]

section
variable (ha : a < 2 ^ c.addressSpaceBits)
include ha

lemma location_of_big (hbig : getEntry s.bigEntries c.bigPageBits a = .mapped) :
    location c host dev s a =
      translate host dev (bigBase s (a / 2 ^ c.bigPageBits) + a % 2 ^ c.bigPageBits) := by
  rw [location, gpuToCpuAddress, if_neg (not_not.mpr ha), if_neg (not_not.mpr hbig),
    pageEntryIndex_eq c.bigPageBits_le ha]
  rfl

variable (hbig : getEntry s.bigEntries c.bigPageBits a ≠ .mapped)
include hbig

lemma location_of_small (hsmall : getEntry s.entries c.pageBits a = .mapped) :
    location c host dev s a =
      translate host dev
        ((s.pageTable (a / 2 ^ c.pageBits)).toNat * 2 ^ cpuPageBits + a % 2 ^ c.pageBits) := by
  have hbits : c.pageBits ≤ c.addressSpaceBits :=
    (c.pageBits_le.trans c.le_bigPageBits).trans c.bigPageBits_le
  rw [location, gpuToCpuAddress, if_neg (not_not.mpr ha), if_pos hbig,
    if_neg (not_not.mpr hsmall), pageEntryIndex_eq hbits ha]
  rfl

lemma gpuToCpuAddress_of_small :
    gpuToCpuAddress c s a = none ↔ getEntry s.entries c.pageBits a ≠ .mapped := by
  rw [gpuToCpuAddress, if_neg (not_not.mpr ha), if_pos hbig]
  by_cases hsmall : getEntry s.entries c.pageBits a = .mapped <;> simp

lemma location_none (hsmall : getEntry s.entries c.pageBits a ≠ .mapped) :
    location c host dev s a = none := by
  rw [location, (gpuToCpuAddress_of_small ha hbig).mpr hsmall]
  rfl

end

/-- The device has memory behind every address of the range that has a translation. -/
def Backed (c : Config) (host : Host) (dev : Manager) (s : MemoryManager) (addr size : Nat) :
    Prop :=
  ∀ a, addr ≤ a → a < addr + size → gpuToCpuAddress c s a ≠ none → location c host dev s a ≠ none

lemma smallPages_cover (hspace : addr + size ≤ 2 ^ c.addressSpaceBits)
    (hfree : ∀ a, addr ≤ a → a < addr + size → getEntry s.bigEntries c.bigPageBits a = .free)
    (hbacked : Backed c host dev s addr size) :
    ∃ segments,
      startOperation s.entries c.pageBits (mappedNormal host dev s) skip skip addr size =
        some segments ∧
      Covers (location c host dev s) addr size (segments.flatMap (pieces host dev)) := by
  refine startOperation_covers fun a amount hlow hhigh hpos hin => ?_
  have hbig : ∀ i < amount, getEntry s.bigEntries c.bigPageBits (a + i) ≠ .mapped := by
    intro i hi
    rw [hfree (a + i) (by omega) (by omega)]
    nofun
  have hsame := getEntry_in_page s.entries hin
  have hskip (hne : getEntry s.entries c.pageBits a ≠ .mapped) :
      Covers (location c host dev s) a amount
        ([nowhere amount].flatMap (pieces host dev)) := by
    refine .single_hole fun i hi => location_none (by omega) (hbig i hi) ?_
    rwa [hsame i hi]
  cases hentry : getEntry s.entries c.pageBits a with
  | free | reserved => exact ⟨_, rfl, hskip (by rw [hentry]; nofun)⟩
  | mapped =>
    obtain ⟨base, hbase⟩ : ∃ base, base =
        (s.pageTable (a / 2 ^ c.pageBits)).toNat * 2 ^ cpuPageBits + a % 2 ^ c.pageBits := ⟨_, rfl⟩
    have hlocation : ∀ i < amount,
        location c host dev s (a + i) = translate host dev (base + i) := by
      intro i hi
      rw [location_of_small (by omega) (hbig i hi) ((hsame i hi).trans hentry),
        (index_in_page hin hi).1, (index_in_page hin hi).2, hbase, add_assoc]
    -- There is a pointer, since the first byte of the page has a place.
    have hptr : getPointer host dev base ≠ 0 := by
      intro hzero
      have hfirst := hlocation 0 hpos
      rw [add_zero, add_zero, translate_eq, if_pos hzero] at hfirst
      refine hbacked a hlow (by omega) ?_ hfirst
      have hnone := gpuToCpuAddress_of_small (c := c) (s := s) (by omega) (hbig 0 hpos)
      rw [add_zero] at hnone
      rw [Ne, hnone, not_not]
      exact hentry
    have hinside : base % pageSize + amount ≤ pageSize := by
      have hle : 2 ^ c.pageBits ≤ pageSize := Nat.pow_le_pow_right (by decide) c.pageBits_le
      have hmod : base % pageSize = a % 2 ^ c.pageBits := by
        rw [hbase, add_comm, cpuPageBits, ← pageSize_eq, add_mul_mod_self_right,
          mod_eq_of_lt (by omega)]
      omega
    refine ⟨[.pointer amount (getPointer host dev base)], ?_, .single_stretch fun i hi => ?_⟩
    · simp only [mappedNormal, atPointer, ← hbase]
      rw [if_neg hptr]
    · rw [hlocation i hi]
      exact translate_linear hinside hptr hi

/-- A block access goes over the places of its bytes. -/
lemma blockSegments_covers (hs : Continuous c host dev s) (hdev : Coherent dev)
    (hspace : addr + size ≤ 2 ^ c.addressSpaceBits) (hbacked : Backed c host dev s addr size) :
    ∃ segments, blockSegments c host dev s addr size = some segments ∧
      Covers (blockLocation c host dev s) addr size
        (segments.flatMap (pieces host dev)) := by
  refine startOperation_covers fun a amount hlow hhigh hpos hin => ?_
  have hsame := getEntry_in_page s.bigEntries hin
  cases hentry : getEntry s.bigEntries c.bigPageBits a with
  | reserved =>
    refine ⟨_, rfl, .single_hole fun i hi => ?_⟩
    rw [blockLocation, if_pos ((hsame i hi).trans hentry)]
  | free =>
    have hfree : ∀ b, a ≤ b → b < a + amount →
        getEntry s.bigEntries c.bigPageBits b = .free := by
      intro b hb hlt
      have hb := (hsame (b - a) (by omega)).trans hentry
      rwa [Nat.add_sub_cancel' (by omega)] at hb
    obtain ⟨segments, hsegments, hcovers⟩ := smallPages_cover (c := c) (s := s)
      (by omega) hfree fun b hb hlt => hbacked b (by omega) (by omega)
    refine ⟨segments, ?_, hcovers.shift fun i hi => ?_⟩
    · simp only [shortPages]
      rw [div_add_mod']
      exact hsegments
    · rw [blockLocation, hfree _ (by omega) (by omega), if_neg nofun]
  | mapped =>
    obtain ⟨base, hbase⟩ : ∃ base,
        base = bigBase s (a / 2 ^ c.bigPageBits) + a % 2 ^ c.bigPageBits := ⟨_, rfl⟩
    have hlocation : ∀ i < amount,
        blockLocation c host dev s (a + i) = translate host dev (base + i) := by
      intro i hi
      have hbig := (hsame i hi).trans hentry
      rw [blockLocation, hbig, if_neg nofun, location_of_big (by omega) hbig,
        (index_in_page hin hi).1, (index_in_page hin hi).2, hbase, add_assoc]
    change ∃ segments, (if ¬ isBigPageContinuous s (a / 2 ^ c.bigPageBits) = true then
      some [device amount (bigBase s (a / 2 ^ c.bigPageBits) + a % 2 ^ c.bigPageBits)]
      else atPointer amount (getPointer host dev
        (bigBase s (a / 2 ^ c.bigPageBits) + a % 2 ^ c.bigPageBits))) = some segments ∧ _
    rw [← hbase]
    by_cases hflag : isBigPageContinuous s (a / 2 ^ c.bigPageBits) = true
    · have hrun : ∀ i < amount, translate host dev (base + i) =
          some (getPointer host dev (bigBase s (a / 2 ^ c.bigPageBits)) +
            a % 2 ^ c.bigPageBits + i) := by
        intro i hi
        rw [hbase, add_assoc, hs _ hentry hflag _ (by omega), add_assoc]
      have hptr := hrun 0 hpos
      rw [add_zero, add_zero, translate_eq] at hptr
      split_ifs at hptr with hzero
      rw [some.injEq] at hptr
      rw [if_neg (not_not.mpr hflag), atPointer, if_neg hzero]
      refine ⟨_, rfl, .single_stretch fun i hi => ?_⟩
      rw [hlocation i hi, hrun i hi, hptr]
    · rw [if_pos hflag]
      refine ⟨_, rfl, ?_⟩
      rw [flatMap_cons, flatMap_nil, append_nil]
      exact (hdev.walkBlock host base amount).shift hlocation

/-! ## Reads and writes -/

variable {dev' : Manager}

lemma translate_congr (h : dev'.trackedEntries = dev.trackedEntries) :
    translate host dev' = translate host dev := by
  funext address
  rw [DeviceMemory.translate, DeviceMemory.translate, Manager.phys, Manager.phys, h]

section
variable (hdev : Coherent dev)
include hdev

lemma coherent_congr (h : dev'.trackedEntries = dev.trackedEntries) : Coherent dev' := by
  intro page k hk
  rw [Manager.count, h] at hk
  refine (hdev page k hk).congr ?_ ?_ <;> rw [Manager.phys, Manager.phys, h]

/-- The cache of the device changes during the read, the bytes do not depend on it. -/
lemma readSegments_eq (memory : Nat → UInt8) (segments : List Segment)
    (hcached : Cached host dev') (hsame : dev'.trackedEntries = dev.trackedEntries) :
    readSegments host memory dev' segments =
      (segments.flatMap (pieces host dev)).flatMap (Piece.bytes memory) := by
  induction segments generalizing dev' with
  | nil => rfl
  | cons segment segments ih =>
    rw [flatMap_cons, flatMap_append]
    cases segment with
    | nowhere amount | pointer amount ptr =>
      rw [readSegments, ih hcached hsame, pieces, flatMap_singleton, Piece.bytes]
    | device amount devAddr =>
      have hnext : Cached host (DeviceMemory.readBlock host memory dev' devAddr amount).2 :=
        hcached.apply (.readBlock memory devAddr amount)
      have htracked : (DeviceMemory.readBlock host memory dev' devAddr amount).2.trackedEntries =
          dev'.trackedEntries := trackedEntries_readBlock memory devAddr amount
      rw [readSegments, ih hnext (htracked.trans hsame), (coherent_congr hdev hsame).read hcached,
        translate_congr hsame, pieces, (hdev.walkBlock host devAddr amount).read]

lemma writeSegments_eq (memory : Nat → UInt8) {segments : List Segment} {src : List UInt8}
    {locate : Nat → Option Nat}
    (hcovers : Covers locate addr src.length (segments.flatMap (pieces host dev))) :
    writeSegments host dev memory segments src =
      writePieces memory (segments.flatMap (pieces host dev)) src := by
  induction segments generalizing memory src addr with
  | nil => rfl
  | cons segment segments ih =>
    rw [flatMap_cons] at hcovers ⊢
    -- What is left of the source is as long as what the other segments go over.
    have hrest {amount : Nat} {locate' : Nat → Option Nat} {addr' : Nat}
        (hfirst : Covers locate' addr' amount (segment.pieces host dev)) :
        amount ≤ src.length ∧ Covers locate (addr + amount) (src.drop amount).length
          (segments.flatMap (pieces host dev)) := by
      obtain ⟨k, hlen, hk⟩ := hfirst.of_append hcovers
      rw [length_drop, hlen, Nat.add_sub_cancel_left]
      exact ⟨Nat.le_add_right _ _, hk⟩
    cases segment with
    | nowhere amount =>
      have hfirst : Covers (fun _ => none) 0 amount [.hole amount] := .single_hole fun _ _ => rfl
      rw [writeSegments, ih memory (hrest hfirst).2]
      rfl
    | pointer amount ptr =>
      have hfirst : Covers some ptr amount [.stretch amount ptr] := .single_stretch fun _ _ => rfl
      rw [writeSegments, ih _ (hrest hfirst).2]
      rfl
    | device amount devAddr =>
      have hfirst := hdev.walkBlock host devAddr amount
      obtain ⟨hle, hk⟩ := hrest hfirst
      rw [writeSegments, ih _ hk, DeviceMemory.writeBlock, length_take_of_le hle,
        pieces, hfirst.writePieces_append memory _ hle]

end

/-! ## Agreement -/

lemma blockLocation_eq_location_iff (ha : a < 2 ^ c.addressSpaceBits)
    (hbacked : gpuToCpuAddress c s a ≠ none → location c host dev s a ≠ none) :
    blockLocation c host dev s a = location c host dev s a ↔ ¬ Conflict c s a := by
  rw [blockLocation, Conflict]
  by_cases hbig : getEntry s.bigEntries c.bigPageBits a = .reserved
  · have hne : getEntry s.bigEntries c.bigPageBits a ≠ .mapped := by
      rw [hbig]
      nofun
    rw [if_pos hbig]
    by_cases hsmall : getEntry s.entries c.pageBits a = .mapped
    · have hsome := hbacked fun hnone => (gpuToCpuAddress_of_small ha hne).mp hnone hsmall
      exact iff_of_false (Ne.symm hsome) (not_not.mpr ⟨hbig, hsmall⟩)
    · exact iff_of_true (location_none ha hne hsmall).symm fun hconflict => hsmall hconflict.2
  · rw [if_neg hbig]
    exact iff_of_true rfl fun hconflict => hbig hconflict.1

lemma readBlock_eq (hs : Continuous c host dev s) (hdev : Coherent dev)
    (hcached : Cached host dev) (hspace : addr + size ≤ 2 ^ c.addressSpaceBits)
    (hbacked : Backed c host dev s addr size) (memory : Nat → UInt8) :
    readBlock c host dev s memory addr size =
      some (readRange (blockLocation c host dev s) memory addr size) := by
  obtain ⟨segments, hsegments, hcovers⟩ := blockSegments_covers hs hdev hspace hbacked
  rw [readBlock, hsegments, map_some, readSegments_eq hdev memory segments hcached rfl,
    hcovers.read]

lemma writeBlock_eq (hs : Continuous c host dev s) (hdev : Coherent dev) {src : List UInt8}
    (hspace : addr + src.length ≤ 2 ^ c.addressSpaceBits)
    (hbacked : Backed c host dev s addr src.length) (memory : Nat → UInt8) :
    writeBlock c host dev s memory addr src =
      some (writeRange (blockLocation c host dev s) memory addr src) := by
  obtain ⟨segments, hsegments, hcovers⟩ := blockSegments_covers hs hdev hspace hbacked
  rw [writeBlock, hsegments, map_some, writeSegments_eq hdev memory hcovers,
    hcovers.write memory rfl]

end

/-- After any run of page-aligned calls, block accesses read and write the bytes at the
translations of their addresses exactly when no address of the range is in a mapped small page
under a reserved big page. -/
theorem blocks_agree_iff {c : Config} {host : Host} {dev : Manager} {s : MemoryManager}
    (hdev : (deviceSystem host DeviceMemory.Call.Tidy).Reachable dev)
    (hs : (gpuSystem c host dev).Reachable s) {addr size : Nat}
    (hspace : addr + size ≤ 2 ^ c.addressSpaceBits) (hbacked : Backed c host dev s addr size) :
    ((∀ memory, readBlock c host dev s memory addr size =
        some (readRange (location c host dev s) memory addr size)) ∧
      ∀ memory src, src.length = size → writeBlock c host dev s memory addr src =
        some (writeRange (location c host dev s) memory addr src)) ↔
    ∀ i < size, ¬ Conflict c s (addr + i) := by
  have hcontinuous := continuous_of_reachable hs
  obtain ⟨hcoherent, hcached⟩ := coherent_of_reachable hdev
  have hagree (i : Nat) (hi : i < size) :
      blockLocation c host dev s (addr + i) = location c host dev s (addr + i) ↔
        ¬ Conflict c s (addr + i) :=
    blockLocation_eq_location_iff (by omega) (hbacked _ (by omega) (by omega))
  constructor
  · rintro ⟨hread, -⟩ i hi
    rw [← hagree i hi]
    have hones := hread fun _ => 1
    rw [readBlock_eq hcontinuous hcoherent hcached hspace hbacked, some.injEq] at hones
    by_cases hnone : blockLocation c host dev s (addr + i) = none
    · rw [hnone, eq_none_of_readRange_eq hones hi hnone]
    · rw [blockLocation] at hnone ⊢
      split_ifs at hnone ⊢ with hbig
      · exact absurd rfl hnone
      · rfl
  · intro h
    refine ⟨fun memory => ?_, fun memory src hsrc => ?_⟩
    · rw [readBlock_eq hcontinuous hcoherent hcached hspace hbacked]
      exact congrArg some (readRange_congr fun i hi => (hagree i hi).mpr (h i hi))
    · subst hsrc
      rw [writeBlock_eq hcontinuous hcoherent hspace hbacked]
      exact congrArg some (writeRange_congr fun i hi => (hagree i hi).mpr (h i hi))

/-- The address space of a channel: 40 bits, big pages of 64 KiB and small pages of 4 KiB. -/
def defaultConfig : Config where
  addressSpaceBits := 40
  bigPageBits := 16
  pageBits := 12
  pageBits_le := by decide
  le_bigPageBits := by decide
  bigPageBits_le := by decide

/-- Three small pages mapped to the three mapped pages of the device. -/
def smallMapped : MemoryManager :=
  (Call.map 0x10000 0x1000 0x3000 false).apply defaultConfig sampleHost threeMapped .initial

theorem blocks_agree_iff_smallMapped :
    (∀ i < 2, ¬ Conflict defaultConfig smallMapped (0x10fff + i)) ∧
      (∀ memory, readBlock defaultConfig sampleHost threeMapped smallMapped memory 0x10fff 2 =
        some (readRange (location defaultConfig sampleHost threeMapped smallMapped) memory
          0x10fff 2)) ∧
      ∀ memory src, src.length = 2 →
        writeBlock defaultConfig sampleHost threeMapped smallMapped memory 0x10fff src =
          some (writeRange (location defaultConfig sampleHost threeMapped smallMapped) memory
            0x10fff src) := by
  have hs : (gpuSystem defaultConfig sampleHost threeMapped).Reachable smallMapped :=
    .next (.start rfl) ⟨_, by decide, rfl⟩
  have hbacked : Backed defaultConfig sampleHost threeMapped smallMapped 0x10fff 2 := by
    intro a hlow hhigh _
    obtain rfl | rfl : a = 0x10fff ∨ a = 0x11000 := by omega
    · decide +kernel
    · decide +kernel
  have hfree : ∀ i < 2, ¬ Conflict defaultConfig smallMapped (0x10fff + i) := by
    intro i hi hconflict
    have hentry : ∀ j < 2, getEntry smallMapped.bigEntries 16 (0x10fff + j) ≠ .reserved := by
      decide +kernel
    exact hentry i hi hconflict.1
  exact ⟨hfree, (blocks_agree_iff threeMapped_reachable hs (by decide) hbacked).mpr hfree⟩

/-- A reserved big page with a mapped small page under it. -/
def smallOverSparse : MemoryManager :=
  (Call.map 0x10000 0x1000 0x1000 false).apply defaultConfig sampleHost threeMapped
    ((Call.mapSparse 0x10000 0x10000 true).apply defaultConfig sampleHost threeMapped .initial)

/-- The first byte has a translation and a place, is read as zero and is not written. -/
theorem blocks_smallOverSparse :
    (gpuSystem defaultConfig sampleHost threeMapped).Reachable smallOverSparse ∧
      gpuToCpuAddress defaultConfig smallOverSparse 0x10000 = some 0x1000 ∧
      translate sampleHost threeMapped 0x1000 = some 0x7f0000004000 ∧
      (∀ memory, readBlock defaultConfig sampleHost threeMapped smallOverSparse memory 0x10000 1 =
        some [0]) ∧
      ∀ memory b, writeBlock defaultConfig sampleHost threeMapped smallOverSparse memory 0x10000
        [b] = some memory := by
  have hs : (gpuSystem defaultConfig sampleHost threeMapped).Reachable smallOverSparse :=
    .next (.next (.start rfl) ⟨_, by decide, rfl⟩) ⟨_, by decide, rfl⟩
  obtain ⟨hcoherent, hcached⟩ := coherent_of_reachable threeMapped_reachable
  have hbacked : Backed defaultConfig sampleHost threeMapped smallOverSparse 0x10000 1 := by
    intro a hlow hhigh _
    obtain rfl : a = 0x10000 := by omega
    decide +kernel
  have hbytes : ∀ i < 1, blockLocation defaultConfig sampleHost threeMapped smallOverSparse
      (0x10000 + i) = none := by
    decide +kernel
  refine ⟨hs, by decide +kernel, by decide +kernel, fun memory => ?_, fun memory b => ?_⟩
  · rw [readBlock_eq (continuous_of_reachable hs) hcoherent hcached (by decide) hbacked,
      readRange_none hbytes]
    rfl
  · have hspace : 0x10000 + [b].length ≤ 2 ^ defaultConfig.addressSpaceBits :=
      show 0x10001 ≤ 2 ^ 40 by decide
    rw [writeBlock_eq (continuous_of_reachable hs) hcoherent hspace hbacked]
    exact congrArg some (writeRange_none hbytes)

end Drippu.VideoCore.Gpu
