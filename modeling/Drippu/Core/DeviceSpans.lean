import Drippu.Core.DeviceMemoryManager
import Drippu.Library.Transition

/-!
# Core - Spans and blocks of device memory

Spans and block accesses trust the continuity count of the page they start at.  They agree with
the translation of every single page exactly where the pages a count covers are translated to
consecutive pages, or all to none.  The count is written from the pointers of the process and is
not touched when pages are unmapped, so calls keep this only when no run of pages crosses the
border of a range that is mapped or unmapped, when maps without tracking fit the counts that are
there, and when counts are written for pages that are mapped to where the process has them.

Main results:

- Theorem `spans_and_blocks`: spans and blocks after any run of such calls.
-/

namespace Drippu.DeviceMemory

open Library Nat

namespace Manager

def count (m : Manager) (page : Nat) : Nat := (m.trackedEntries page).continuityTracker

def phys (m : Manager) (page : Nat) : Nat := (m.trackedEntries page).compressedPhysicalPtr

lemma count_pos (m : Manager) (page : Nat) : 0 < m.count page :=
  (m.trackedEntries page).tracker_pos

end Manager

/-- The location of a device byte, through its own page. -/
def translate (host : Host) (m : Manager) (address : Nat) : Option Nat :=
  if m.phys (address / pageSize) = 0 then none
  else some (pagePointer host (m.phys (address / pageSize)) (address % pageSize))

/-! ## Calls -/

inductive Call (host : Host) where
  | map (process : ProcessMemory host) (address virtualAddress size : Nat) (track : Bool)
  | unmap (address size : Nat)
  | trackContinuity (process : ProcessMemory host) (address virtualAddress size : Nat)
  | readBlock (memory : Nat → UInt8) (address size : Nat)

/-- The page is in a range. -/
def InRange (address size page : Nat) : Prop :=
  startPage address ≤ page ∧ page < startPage address + numPages size

instance (address size page : Nat) : Decidable (InRange address size page) :=
  inferInstanceAs (Decidable (_ ∧ _))

variable {host : Host} {m : Manager}

/-- The page of the buffer that a process has for a page of a range. -/
def processPage (process : ProcessMemory host) (address virtualAddress page : Nat) : Nat :=
  physicalPage host
    (process.getPointerSilent (virtualAddress + (page - startPage address) * pageSize))

/-- The `k`-th page behind a page has the `k`-th number behind its number, or both have
none. -/
def Continues (f : Nat → Nat) (page k : Nat) : Prop :=
  (f page = 0 → f (page + k) = 0) ∧ (f page ≠ 0 → f (page + k) = f page + k)

/-- No run of a page outside the range enters it. -/
def NoneEnters (m : Manager) (address size : Nat) : Prop :=
  ∀ p k, ¬ InRange address size p → k < m.count p → ¬ InRange address size (p + k)

/-- No run of a page inside the range leaves it. -/
def NoneLeaves (m : Manager) (address size : Nat) : Prop :=
  ∀ p k, InRange address size p → k < m.count p → InRange address size (p + k)

namespace Call

def apply (m : Manager) : Call host → Manager
  | map process address virtualAddress size track =>
    DeviceMemory.map process address virtualAddress size track m
  | unmap address size => DeviceMemory.unmap address size m
  | trackContinuity process address virtualAddress size =>
    DeviceMemory.trackContinuity process address virtualAddress size m
  | readBlock memory address size => (DeviceMemory.readBlock host memory m address size).2

/-- The calls that keep the counts true. -/
def Tidy (m : Manager) : Call host → Prop
  | map process address virtualAddress size track =>
    NoneEnters m address size ∧
      (track = false → NoneLeaves m address size ∧ ∀ p k, InRange address size p →
        k < m.count p → Continues (processPage process address virtualAddress) p k)
  | unmap address size => NoneEnters m address size ∧ NoneLeaves m address size
  | trackContinuity process address virtualAddress size =>
    ∀ p, InRange address size p → m.phys p = processPage process address virtualAddress p
  | readBlock _ _ _ => True

end Call

/-- The managers behind runs of calls that satisfy a condition. -/
def deviceSystem (host : Host) (P : Manager → Call host → Prop) : TransitionSystem Manager where
  init m := m = .initial
  step m m' := ∃ call : Call host, P m call ∧ m' = call.apply m

/-! ## The state behind a call -/

section
variable (process : ProcessMemory host) (pages page vaddress : Nat)
  (entries : Nat → TrackedEntry) (q : Nat)

/-- The entry with another page of the buffer. -/
def TrackedEntry.withPhys (entry : TrackedEntry) (physAddr : Nat) : TrackedEntry :=
  { entry with compressedPhysicalPtr := physAddr }

lemma mapLoop_apply :
    mapLoop process pages page vaddress entries q =
      if page ≤ q ∧ q < page + pages then (entries q).withPhys
        (physicalPage host (process.getPointerSilent (vaddress + (q - page) * pageSize)))
      else entries q := by
  have h := loop_apply (fun n k => mapLoop process n (page + k) (vaddress + k * pageSize)) page
    (fun k entry => entry.withPhys
      (physicalPage host (process.getPointerSilent (vaddress + k * pageSize))))
    (fun _ _ => rfl) (fun n k entries => ?_) pages 0 entries q
  · simpa using h
  · rw [mapLoop, succ_mul, ← add_assoc, ← add_assoc]
    rfl

lemma unmapLoop_apply :
    unmapLoop pages page entries q =
      if page ≤ q ∧ q < page + pages then (entries q).withPhys 0 else entries q :=
  loop_apply (fun n k => unmapLoop n (page + k)) page (fun _ entry => entry.withPhys 0)
    (fun _ _ => rfl) (fun _ _ _ => rfl) pages 0 entries q

@[simp]
lemma trackLoop_phys (lastPtr pageCount : Nat) :
    (trackLoop process page vaddress pages lastPtr pageCount entries q).compressedPhysicalPtr =
      (entries q).compressedPhysicalPtr := by
  induction pages generalizing lastPtr pageCount entries with
  | zero => rfl
  | succ pages ih =>
    rw [trackLoop, ih]
    by_cases hq : q = page + pages
    · subst hq
      simp
    · simp [hq]

variable {pages page q} in
lemma trackLoop_outside (lastPtr pageCount : Nat) (h : ¬ (page ≤ q ∧ q < page + pages)) :
    (trackLoop process page vaddress pages lastPtr pageCount entries q).continuityTracker =
      (entries q).continuityTracker := by
  induction pages generalizing lastPtr pageCount entries with
  | zero => rfl
  | succ pages ih =>
    rw [trackLoop, ih _ _ _ (by omega), Function.update_of_ne (by omega)]

end

/-- The pointers from the `i`-th of `n` pages on are contiguous for `c` pages. -/
def Chain (g : Nat → Nat) (n i c : Nat) : Prop :=
  ∀ k < c, i + k < n ∧ (k ≠ 0 → g i ≠ 0) ∧ g (i + k) = g i + k * pageSize

variable {n : Nat} {g : Nat → Nat} {i : Nat}

lemma Chain.one (h : i < n) : Chain g n i 1 := by
  intro k hk
  obtain rfl : k = 0 := by omega
  simp [h]

lemma Chain.cons {c : Nat} (h : Chain g n (i + 1) c) (hi : i < n) (hne : g i ≠ 0)
    (hnext : g (i + 1) = g i + pageSize) : Chain g n i (c + 1) := by
  intro k hk
  cases k with
  | zero => simp [hi]
  | succ k =>
    obtain ⟨hlt, -, heq⟩ := h k (by omega)
    rw [show i + 1 + k = i + (k + 1) by omega] at hlt heq
    rw [heq, hnext, add_mul]
    omega

/-- The pointers of a process for the pages of a range. -/
def pointers (process : ProcessMemory host) (vaddress i : Nat) : Nat :=
  process.getPointerSilent (vaddress + i * pageSize)

section
variable (process : ProcessMemory host)
include process

lemma trackLoop_succ (page vaddress index lastPtr pageCount : Nat) (entries : Nat → TrackedEntry) :
    ∃ entries', trackLoop process page vaddress (index + 1) lastPtr pageCount entries =
        trackLoop process page vaddress index (pointers process vaddress index)
          (if (pointers process vaddress index + pageSize) % 2 ^ 64 = lastPtr then pageCount + 1
            else 1) entries' ∧
      (entries' (page + index)).continuityTracker =
        if (pointers process vaddress index + pageSize) % 2 ^ 64 = lastPtr then pageCount + 1
        else 1 := by
  unfold pointers
  refine ⟨_, rfl, ?_⟩
  rw [Function.update_self]

/-- The pointers of two pages that the loop finds contiguous.  A page without a pointer is not
contiguous with the next. -/
lemma pointers_contiguous (vaddress i next : Nat) (hnext : next = 0 ∨ host.physicalBase ≤ next)
    (h : (pointers process vaddress i + pageSize) % 2 ^ 64 = next) :
    pointers process vaddress i ≠ 0 ∧ next = pointers process vaddress i + pageSize ∧ next ≠ 0 := by
  have hbase := host.base_gt
  have htop := host.base_lt
  have hbuffer := process.in_buffer (vaddress + i * pageSize)
  change pointers process vaddress i ≠ 0 → host.physicalBase ≤ pointers process vaddress i ∧
    pointers process vaddress i < host.physicalBase + 2 ^ 33 at hbuffer
  have hsize : 0 < pageSize := by decide
  omega

/-- The counts written by the loop, from the last page to the first. -/
lemma trackLoop_chain (page vaddress : Nat) (pages lastPtr pageCount : Nat) (hpages : pages ≤ n)
    (entries : Nat → TrackedEntry) (hend : pages = n → lastPtr = 0)
    (hlast : pages < n → lastPtr = pointers process vaddress pages ∧
      Chain (pointers process vaddress) n pages pageCount) {j : Nat} (hj : j < pages) :
    Chain (pointers process vaddress) n j
      (trackLoop process page vaddress pages lastPtr pageCount entries
        (page + j)).continuityTracker := by
  induction pages generalizing lastPtr pageCount entries with
  | zero => omega
  | succ index ih =>
    obtain ⟨entries', heq, hcount⟩ :=
      trackLoop_succ process page vaddress index lastPtr pageCount entries
    rw [heq]
    -- the count of this page
    have hchain : Chain (pointers process vaddress) n index
        (if (pointers process vaddress index + pageSize) % 2 ^ 64 = lastPtr then pageCount + 1
          else 1) := by
      split
      case isFalse => exact .one (by omega)
      case isTrue hcontig =>
        have hnull : lastPtr = 0 ∨ host.physicalBase ≤ lastPtr := by
          by_cases hn : index + 1 = n
          · exact .inl (hend hn)
          · rw [(hlast (by omega)).1]
            by_cases hzero : pointers process vaddress (index + 1) = 0
            · exact .inl hzero
            · exact .inr (process.in_buffer _ hzero).1
        obtain ⟨hne, hnext, hpos⟩ :=
          pointers_contiguous process vaddress index lastPtr hnull hcontig
        have hlt : index + 1 < n := by
          by_contra hge
          exact hpos (hend (by omega))
        obtain ⟨hptr, hrun⟩ := hlast hlt
        refine hrun.cons (by omega) hne ?_
        rw [← hptr, hnext]
    by_cases hjlast : j = index
    · subst hjlast
      rw [trackLoop_outside _ _ _ _ _ (by omega), hcount]
      exact hchain
    · exact ih _ _ (by omega) _ (by omega) (fun _ => ⟨rfl, hchain⟩) (by omega)

end

/-! ## What the counts cover -/

lemma physicalPage_pos {ptr : Nat} (h : ptr ≠ 0) : physicalPage host ptr ≠ 0 := by
  rw [physicalPage, if_neg h]
  omega

lemma physicalPage_add {ptr k : Nat} (hptr : host.physicalBase ≤ ptr)
    (hend : ptr + k * pageSize < host.physicalBase + 2 ^ 33) :
    physicalPage host (ptr + k * pageSize) = physicalPage host ptr + k := by
  have hbase := host.base_gt
  have hdiv : (ptr + k * pageSize - host.physicalBase) / pageSize =
      (ptr - host.physicalBase) / pageSize + k := by
    rw [show ptr + k * pageSize - host.physicalBase = ptr - host.physicalBase + k * pageSize by
      omega]
    exact add_mul_div_right _ _ (by decide)
  have hlt : (ptr - host.physicalBase) / pageSize + k < 2 ^ 32 := by
    rw [← hdiv, div_lt_iff_lt_mul (by decide)]
    calc ptr + k * pageSize - host.physicalBase < 2 ^ 33 := by omega
      _ ≤ 2 ^ 32 * pageSize := by decide
  rw [physicalPage, physicalPage, if_neg (by omega), if_neg (by omega), hdiv,
    mod_eq_of_lt hlt, mod_eq_of_lt (by omega)]
  omega

lemma Continues.zero (f : Nat → Nat) (page : Nat) : Continues f page 0 :=
  ⟨id, fun _ => rfl⟩

/-- The count that a call writes for a page covers pages of the range, and the process has them
contiguous. -/
lemma track_run (process : ProcessMemory host) (address virtualAddress size : Nat)
    (m : Manager) {p k : Nat} (hp : InRange address size p)
    (hk : k < (trackContinuity process address virtualAddress size m).count p) :
    InRange address size (p + k) ∧ Continues (processPage process address virtualAddress) p k := by
  obtain ⟨hge, hlt⟩ := hp
  obtain ⟨j, rfl⟩ := Nat.exists_eq_add_of_le hge
  have hchain := trackLoop_chain process (startPage address) virtualAddress (numPages size) 0 1
    le_rfl m.trackedEntries (fun _ => rfl) (by omega) (show j < numPages size by omega)
  obtain ⟨hin, hne, hptr⟩ := hchain k hk
  refine ⟨⟨by omega, by omega⟩, ?_⟩
  cases k with
  | zero => exact .zero _ _
  | succ k =>
    have hfirst : pointers process virtualAddress j ≠ 0 := hne (by omega)
    have hbuffer : host.physicalBase ≤ pointers process virtualAddress j :=
      (process.in_buffer _ hfirst).1
    have hlast : pointers process virtualAddress (j + (k + 1)) < host.physicalBase + 2 ^ 33 := by
      refine (process.in_buffer _ ?_).2
      change pointers process virtualAddress (j + (k + 1)) ≠ 0
      omega
    have hpage : ∀ i, processPage process address virtualAddress (startPage address + i) =
        physicalPage host (pointers process virtualAddress i) := by
      intro i
      rw [processPage, pointers, Nat.add_sub_cancel_left]
    rw [Continues, add_assoc, hpage, hpage, hptr]
    rw [hptr] at hlast
    exact ⟨fun h => absurd h (physicalPage_pos hfirst), fun _ => physicalPage_add hbuffer hlast⟩

/-! ## The invariant -/

/-- The pages that a count covers are translated to consecutive pages, or all to none. -/
def Coherent (m : Manager) : Prop :=
  ∀ p k, k < m.count p → Continues m.phys p k

/-- The used slots of the cache hold the translations of their pages. -/
def Cached (host : Host) (m : Manager) : Prop :=
  ∀ i, (m.tSlot i).hostPtr ≠ 0 → ∃ page, (m.tSlot i).guestPage = page * pageSize ∧
    m.phys page ≠ 0 ∧ (m.tSlot i).hostPtr = pagePointer host (m.phys page) 0

lemma Continues.congr {f : Nat → Nat} {page k : Nat} (h : Continues f page k)
    (hfirst : g page = f page) (hlast : g (page + k) = f (page + k)) : Continues g page k := by
  rw [Continues, hfirst, hlast]
  exact h

lemma coherent_initial : Coherent .initial := by
  intro p k hk
  obtain rfl : k = 0 := lt_one_iff.mp hk
  exact .zero _ _

lemma cached_noSlots (h : m.tSlot = Manager.noSlots) : Cached host m := by
  intro i hi
  rw [h] at hi
  exact absurd rfl hi

section
variable (process : ProcessMemory host) (address virtualAddress size : Nat)

lemma phys_map (track : Bool) (p : Nat) :
    (map process address virtualAddress size track m).phys p =
      if InRange address size p then processPage process address virtualAddress p
      else m.phys p := by
  have h : (map process address virtualAddress size false m).phys p = _ :=
    (congrArg TrackedEntry.compressedPhysicalPtr (mapLoop_apply ..)).trans
      (apply_ite TrackedEntry.compressedPhysicalPtr ..)
  cases track with
  | false => exact h
  | true => exact (trackLoop_phys ..).trans h

lemma count_map_untracked (p : Nat) :
    (map process address virtualAddress size false m).count p = m.count p := by
  refine (congrArg TrackedEntry.continuityTracker (mapLoop_apply ..)).trans ?_
  split <;> rfl

lemma phys_unmap (p : Nat) :
    (unmap address size m).phys p = if InRange address size p then 0 else m.phys p :=
  (congrArg TrackedEntry.compressedPhysicalPtr (unmapLoop_apply ..)).trans
    (apply_ite TrackedEntry.compressedPhysicalPtr ..)

lemma count_unmap (p : Nat) : (unmap address size m).count p = m.count p := by
  refine (congrArg TrackedEntry.continuityTracker (unmapLoop_apply ..)).trans ?_
  split <;> rfl

lemma phys_track (p : Nat) :
    (trackContinuity process address virtualAddress size m).phys p = m.phys p :=
  trackLoop_phys ..

lemma count_track_outside {p : Nat} (h : ¬ InRange address size p) :
    (trackContinuity process address virtualAddress size m).count p = m.count p :=
  trackLoop_outside _ _ _ _ _ h

end

variable {process : ProcessMemory host} {address size virtualAddress : Nat}

section
variable (hm : Coherent m) (henters : NoneEnters m address size)
include hm henters

/-- Outside the range of a call nothing has changed, and no run enters it. -/
lemma Coherent.of_range {m' : Manager}
    (hcount : ∀ p, ¬ InRange address size p → m'.count p = m.count p)
    (hphys : ∀ p, ¬ InRange address size p → m'.phys p = m.phys p)
    (hin : ∀ p k, InRange address size p → k < m'.count p → Continues m'.phys p k) :
    Coherent m' := by
  intro p k hk
  by_cases hp : InRange address size p
  · exact hin p k hp hk
  · rw [hcount p hp] at hk
    exact (hm p k hk).congr (hphys p hp) (hphys _ (henters p k hp hk))

lemma Coherent.map_untracked (hleaves : NoneLeaves m address size)
    (hruns : ∀ p k, InRange address size p → k < m.count p →
      Continues (processPage process address virtualAddress) p k) :
    Coherent (map process address virtualAddress size false m) := by
  refine hm.of_range henters (fun p _ => count_map_untracked ..)
    (fun p hp => by rw [phys_map, if_neg hp]) fun p k hp hk => ?_
  rw [count_map_untracked] at hk
  refine (hruns p k hp hk).congr ?_ ?_
  · rw [phys_map, if_pos hp]
  · rw [phys_map, if_pos (hleaves p k hp hk)]

lemma Coherent.map_tracked : Coherent (map process address virtualAddress size true m) := by
  refine hm.of_range henters (fun p hp => ?_) (fun p hp => by rw [phys_map, if_neg hp])
    fun p k hp hk => ?_
  · exact (count_track_outside process address virtualAddress size hp).trans
      (count_map_untracked process address virtualAddress size p)
  · obtain ⟨hin, hcont⟩ := track_run process address virtualAddress size
      (map process address virtualAddress size false m) hp hk
    refine hcont.congr ?_ ?_
    · rw [phys_map, if_pos hp]
    · rw [phys_map, if_pos hin]

lemma Coherent.unmap (hleaves : NoneLeaves m address size) : Coherent (unmap address size m) := by
  refine hm.of_range henters (fun p _ => count_unmap ..)
    (fun p hp => by rw [phys_unmap, if_neg hp]) fun p k hp hk => ?_
  rw [count_unmap] at hk
  rw [Continues, phys_unmap, phys_unmap, if_pos hp, if_pos (hleaves p k hp hk)]
  simp

end

lemma Coherent.trackContinuity (hm : Coherent m) (hmapped : ∀ p, InRange address size p →
      m.phys p = processPage process address virtualAddress p) :
    Coherent (trackContinuity process address virtualAddress size m) := by
  intro p k hk
  by_cases hp : InRange address size p
  · obtain ⟨hin, hcont⟩ := track_run process address virtualAddress size m hp hk
    refine hcont.congr ?_ ?_
    · rw [phys_track, hmapped p hp]
    · rw [phys_track, hmapped (p + k) hin]
  · rw [count_track_outside _ _ _ _ hp] at hk
    exact (hm p k hk).congr (phys_track ..) (phys_track ..)

lemma trackedEntries_readBlock (memory : Nat → UInt8) (address size : Nat) :
    (readBlock host memory m address size).2.trackedEntries = m.trackedEntries := by
  simp only [readBlock]
  split
  · split
    · rfl
    · split <;> rfl
  · rfl

lemma Coherent.apply (hm : Coherent m) {call : Call host} (h : call.Tidy m) :
    Coherent (call.apply m) := by
  cases call with
  | map process address virtualAddress size track =>
    cases track with
    | false => exact hm.map_untracked h.1 (h.2 rfl).1 (h.2 rfl).2
    | true => exact hm.map_tracked h.1
  | unmap address size => exact hm.unmap h.1 h.2
  | trackContinuity process address virtualAddress size => exact hm.trackContinuity h
  | readBlock memory address size =>
    intro p k hk
    simp only [Call.apply, Manager.count, Manager.phys, Continues, trackedEntries_readBlock] at hk ⊢
    exact hm p k hk

lemma Cached.apply (hm : Cached host m) (call : Call host) : Cached host (call.apply m) := by
  cases call with
  | map process address virtualAddress size track =>
    apply cached_noSlots
    cases track <;> rfl
  | unmap address size => exact cached_noSlots rfl
  | trackContinuity process address virtualAddress size =>
    intro i hi
    obtain ⟨page, hguest, hphys, hptr⟩ := hm i hi
    refine ⟨page, hguest, ?_, ?_⟩
    · rw [Call.apply, phys_track]
      exact hphys
    · rw [Call.apply, phys_track]
      exact hptr
  | readBlock memory address size =>
    intro i hi
    simp only [Call.apply, readBlock] at hi ⊢
    split at hi
    case isFalse h =>
      rw [if_neg h]
      exact hm i hi
    case isTrue h =>
      rw [if_pos h]
      split at hi
      · exact hm i hi
      split at hi
      case isFalse hzero =>
        rw [if_neg hzero]
        exact hm i hi
      case isTrue hne =>
        rw [if_pos hne]
        dsimp only at hi ⊢
        by_cases hcur : i = m.cacheCursor
        · subst hcur
          rw [Function.update_self]
          exact ⟨address / pageSize, rfl, hne, rfl⟩
        · rw [Function.update_of_ne hcur] at hi ⊢
          exact hm i hi

/-! ## Spans and blocks -/

lemma pagePointer_add {physAddr k offset : Nat} (h : physAddr ≠ 0) :
    pagePointer host (physAddr + k) offset =
      pagePointer host physAddr 0 + (k * pageSize + offset) := by
  simp only [pagePointer]
  rw [show physAddr + k - 1 = physAddr - 1 + k by omega, add_mul]
  omega

lemma Coherent.translate_run (hm : Coherent m) (host : Host) (page offset : Nat)
    (h : offset < m.count page * pageSize) :
    translate host m (page * pageSize + offset) =
      if m.phys page = 0 then none else some (pagePointer host (m.phys page) 0 + offset) := by
  have hk : offset / pageSize < m.count page := by
    rwa [div_lt_iff_lt_mul (by decide)]
  have hdiv : (page * pageSize + offset) / pageSize = page + offset / pageSize := by
    rw [add_comm, add_mul_div_right _ _ (by decide), add_comm]
  have hmod : (page * pageSize + offset) % pageSize = offset % pageSize := by
    rw [add_comm, add_mul_mod_self_right]
  obtain ⟨hnone, hsome⟩ := hm page (offset / pageSize) hk
  rw [translate, hdiv, hmod]
  by_cases hphys : m.phys page = 0
  · rw [if_pos (hnone hphys), if_pos hphys]
  · have hne : m.phys page + offset / pageSize ≠ 0 := fun h =>
      hphys (Nat.eq_zero_of_add_eq_zero_right h)
    rw [hsome hphys, if_neg hne, if_neg hphys, pagePointer_add hphys, div_add_mod' offset pageSize]

/-- Every byte of a span is mapped and lies at its place in the span. -/
lemma Coherent.getSpan (hm : Coherent m) {d size : Nat}
    (hspan : DeviceMemory.getSpan host m d size ≠ 0) (hi : i < size) :
    translate host m (d + i) = some (DeviceMemory.getSpan host m d size + i) := by
  rw [DeviceMemory.getSpan] at hspan ⊢
  split at hspan
  case isFalse => exact absurd rfl hspan
  case isTrue hcount =>
    have hcount' : size + d % pageSize ≤ m.count (d / pageSize) * pageSize := hcount
    rw [if_pos hcount]
    simp only [getPointer] at hspan ⊢
    split at hspan
    case isTrue => exact absurd rfl hspan
    case isFalse hphys =>
      have hmapped : m.phys (d / pageSize) ≠ 0 := hphys
      have hrun := hm.translate_run host (d / pageSize) (d % pageSize + i) (by omega)
      rw [← add_assoc, div_add_mod' d pageSize, if_neg hmapped] at hrun
      rw [hrun, if_neg hphys]
      simp only [pagePointer, Manager.phys]
      exact congrArg some (by omega)

lemma walkPages_zero (pageIndex : Nat) (pageOffset : Fin pageSize) :
    walkPages host m pageIndex pageOffset 0 = [] := by
  rw [walkPages, if_pos rfl]

/-- The pieces of a walk agree with the translation of the single pages. -/
lemma Coherent.walk (hm : Coherent m) (host : Host) (pageIndex : Nat)
    (pageOffset : Fin pageSize) (remaining : Nat) :
    Covers (translate host m) (pageIndex * pageSize + pageOffset) remaining
      (walkPages host m pageIndex pageOffset remaining) := by
  induction hr : remaining using Nat.strong_induction_on
    generalizing pageIndex pageOffset remaining with
  | _ n ih =>
    subst hr
    rw [walkPages]
    by_cases hzero : remaining = 0
    · rw [if_pos hzero, hzero]
      exact .nil _
    rw [if_neg hzero]
    have hrun : pageSize ≤ m.count pageIndex * pageSize :=
      Nat.le_mul_of_pos_left _ (m.count_pos pageIndex)
    change Covers _ _ _ ((if m.phys pageIndex = 0 then _ else _) ::
      walkPages host m (pageIndex + m.count pageIndex) _ _)
    change _ ≤ (m.trackedEntries pageIndex).continuityTracker * pageSize at hrun
    obtain ⟨amount, hamount⟩ : ∃ amount, amount = min
        ((m.trackedEntries pageIndex).continuityTracker * pageSize - pageOffset) remaining :=
      ⟨_, rfl⟩
    rw [← hamount]
    -- the walk goes on where the piece ends, unless it ends there
    have hrest : Covers (translate host m) (pageIndex * pageSize + pageOffset + amount)
        (remaining - amount)
        (walkPages host m (pageIndex + m.count pageIndex) ⟨0, by decide⟩ (remaining - amount)) := by
      by_cases hlast : remaining - amount = 0
      · rw [hlast, walkPages_zero]
        exact .nil _
      have hpos : pageIndex * pageSize + pageOffset + amount =
          (pageIndex + m.count pageIndex) * pageSize + 0 := by
        rw [add_mul, Manager.count]
        omega
      have hnext := ih (remaining - amount) (by omega) (pageIndex + m.count pageIndex)
        ⟨0, by decide⟩ (remaining - amount) rfl
      rw [hpos]
      exact hnext
    have hbytes : ∀ i < amount, translate host m (pageIndex * pageSize + pageOffset + i) =
        if m.phys pageIndex = 0 then none
        else some (pagePointer host (m.phys pageIndex) 0 + (pageOffset + i)) := by
      intro i hi
      rw [add_assoc]
      refine hm.translate_run host pageIndex (pageOffset + i) ?_
      rw [Manager.count]
      omega
    have hsum : remaining = amount + (remaining - amount) := by omega
    by_cases hphys : m.phys pageIndex = 0
    · simp only [if_pos hphys] at hbytes ⊢
      nth_rewrite 1 [hsum]
      exact .hole hbytes hrest
    simp only [if_neg hphys] at hbytes ⊢
    nth_rewrite 1 [hsum]
    refine .stretch (fun i hi => ?_) hrest
    rw [hbytes i hi, ← add_assoc]
    simp only [pagePointer, add_zero, add_assoc]
    rfl

lemma Coherent.walkBlock (hm : Coherent m) (host : Host) (addr size : Nat) :
    Covers (translate host m) addr size (DeviceMemory.walkBlock host m addr size) := by
  have h := hm.walk host (addr / pageSize) ⟨addr % pageSize, mod_lt _ (by decide)⟩ size
  rw [div_add_mod' addr pageSize] at h
  exact h

lemma Coherent.write (hm : Coherent m) (memory : Nat → UInt8) (d : Nat) (src : List UInt8) :
    writeBlock host memory m d src = writeRange (translate host m) memory d src :=
  (hm.walkBlock host d src.length).write memory rfl

lemma findSlot_eq_some {guestPage : Nat} {slot : TranslationEntry}
    (h : findSlot m guestPage = some slot) :
    ∃ i, slot = m.tSlot i ∧ (m.tSlot i).guestPage = guestPage ∧ (m.tSlot i).hostPtr ≠ 0 := by
  obtain ⟨i, -, hi⟩ := List.exists_of_findSome?_eq_some h
  split at hi
  case isFalse => simp at hi
  case isTrue hslot => exact ⟨i, (Option.some.inj hi).symm, hslot⟩

lemma translate_in_page {address size : Nat} (hsize : size ≤ pageSize - address % pageSize)
    (hphys : m.phys (address / pageSize) ≠ 0) (hi : i < size) :
    translate host m (address + i) =
      some (pagePointer host (m.phys (address / pageSize)) 0 + address % pageSize + i) := by
  obtain ⟨hdiv, hmod⟩ := index_in_page (show address % pageSize + size ≤ pageSize by omega) hi
  rw [translate, hdiv, hmod, if_neg hphys]
  simp only [pagePointer]
  exact congrArg some (by omega)

/-- A read through the cache, past it or run by run returns the bytes of the single pages. -/
lemma Coherent.read (hm : Coherent m) (hcached : Cached host m) (memory : Nat → UInt8)
    (d size : Nat) :
    (readBlock host memory m d size).1 = readRange (translate host m) memory d size := by
  have hwalk := (hm.walkBlock host d size).read memory
  simp only [readBlock]
  split
  case isFalse => exact hwalk
  case isTrue hsize =>
    split
    · rename_i slot hslot
      obtain ⟨i, rfl, hguest, hptr⟩ := findSlot_eq_some hslot
      obtain ⟨page, hpage, hphys, hhost⟩ := hcached i hptr
      obtain rfl : page = d / pageSize := by
        rw [hguest] at hpage
        exact (eq_of_mul_eq_mul_right (by decide) hpage).symm
      rw [hhost]
      exact (readRange_linear fun i hi => translate_in_page hsize hphys hi).symm
    · split
      case isTrue hphys =>
        exact (readRange_linear fun i hi => translate_in_page hsize hphys hi).symm
      case isFalse => exact hwalk

lemma coherent_of_reachable {host : Host} {m : Manager}
    (hreach : (deviceSystem host Call.Tidy).Reachable m) : Coherent m ∧ Cached host m := by
  refine hreach.invariant (P := fun m => Coherent m ∧ Cached host m) ?_ ?_
  · rintro m rfl
    exact ⟨coherent_initial, cached_noSlots rfl⟩
  · rintro m m' - ⟨hm, hcached⟩ ⟨call, htidy, rfl⟩
    exact ⟨hm.apply htidy, hcached.apply call⟩

/-- After any run of tidy calls, every byte of a span is mapped and lies at its place in the
span, and writes and reads of blocks go to the location of each single byte, or do nothing and
return zero where its page is not mapped. -/
theorem spans_and_blocks {host : Host} {m : Manager}
    (hreach : (deviceSystem host Call.Tidy).Reachable m) :
    (∀ d size, getSpan host m d size ≠ 0 → ∀ i < size,
      translate host m (d + i) = some (getSpan host m d size + i)) ∧
    (∀ memory d src, writeBlock host memory m d src = writeRange (translate host m) memory d src) ∧
    ∀ memory d size, (readBlock host memory m d size).1 =
      readRange (translate host m) memory d size := by
  obtain ⟨hm, hcached⟩ := coherent_of_reachable hreach
  exact ⟨fun d size hspan i hi => hm.getSpan hspan hi, hm.write, hm.read hcached⟩

/-- The condition under which maps are made: the device pages are not mapped. -/
def OntoUnmapped {host : Host} (m : Manager) : Call host → Prop
  | .map _ address _ size _ => ∀ p, InRange address size p → m.phys p = 0
  | _ => True

def sampleHost : Host where
  physicalBase := 0x7f0000000000
  base_gt := by decide
  base_lt := by decide

/-- A process whose memory is the whole buffer. -/
def wholeBuffer : ProcessMemory sampleHost where
  getPointerSilent vaddr := if vaddr < 2 ^ 33 then sampleHost.physicalBase + vaddr else 0
  in_buffer vaddr h := by
    split at h
    · rename_i hlt
      rw [if_pos hlt]
      omega
    · exact absurd rfl h

/-- Three pages mapped with tracking at device page 1. -/
def mapThree : Call sampleHost := .map wholeBuffer 0x1000 0x4000 0x3000 true

def threeMapped : Manager := mapThree.apply .initial

lemma threeMapped_reachable : (deviceSystem sampleHost Call.Tidy).Reachable threeMapped := by
  have henters : NoneEnters .initial 0x1000 0x3000 := by
    intro p k hp hk
    obtain rfl : k = 0 := lt_one_iff.mp hk
    exact hp
  exact .next (.start rfl) ⟨mapThree, ⟨henters, fun h => absurd h (by decide)⟩, rfl⟩

theorem getSpan_threeMapped :
    getSpan sampleHost threeMapped 0x1000 0x3000 = 0x7f0000004000 ∧
      ∀ i < 0x3000, translate sampleHost threeMapped (0x1000 + i) =
        some (getSpan sampleHost threeMapped 0x1000 0x3000 + i) := by
  have hspan : getSpan sampleHost threeMapped 0x1000 0x3000 = 0x7f0000004000 := by
    decide +kernel
  refine ⟨hspan, (spans_and_blocks threeMapped_reachable).1 0x1000 0x3000 ?_⟩
  decide

/-- The middle of the three pages unmapped again. -/
def middleUnmapped : Manager := (Call.unmap 0x2000 0x1000 : Call sampleHost).apply threeMapped

/-- The count of the first page still covers the unmapped page: it is part of a span, and is
read and written with the others. -/
theorem getSpan_middleUnmapped :
    (deviceSystem sampleHost OntoUnmapped).Reachable middleUnmapped ∧
      getSpan sampleHost middleUnmapped 0x1000 0x3000 = 0x7f0000004000 ∧
      translate sampleHost middleUnmapped (0x1000 + 0x1000) = none ∧
      walkBlock sampleHost middleUnmapped 0x1000 0x3000 = [.stretch 0x3000 0x7f0000004000] := by
  refine ⟨?_, by decide +kernel, by decide +kernel, ?_⟩
  · exact .next (.next (.start rfl) ⟨mapThree, fun _ _ => rfl, rfl⟩)
      ⟨.unmap 0x2000 0x1000, trivial, rfl⟩
  · have hcount : (middleUnmapped.trackedEntries 1).continuityTracker = 3 := by decide +kernel
    have hphys : (middleUnmapped.trackedEntries 1).compressedPhysicalPtr = 5 := by decide +kernel
    rw [walkBlock, walkPages]
    simp [hcount, hphys, pageSize, pagePointer, sampleHost]
    exact walkPages_zero 4 _

end Drippu.DeviceMemory
