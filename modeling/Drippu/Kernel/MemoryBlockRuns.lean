import Drippu.Kernel.MemoryBlockTiling

/-!
# Kernel - Runs of the memory block manager

A run of `KMemoryBlockManager` starts with `Initialize` and goes on with
the four update calls.  Every state a run reaches is well formed, and a call on a
valid range returns unless it starts inside the first block, behind its start, and
passes over that block: then `CoalesceForUpdate` steps in front of the tree.

Main results:

- Theorem `KMemoryBlockManager.runs_audited_iff`: a call completes and leaves
  an audited list exactly when it does not pass over the first block in its middle.
- Theorem `KMemoryBlockManager.runs_allocator_suffices`: a call on a valid range takes at
  most two blocks from its allocator.
-/

namespace Drippu.Kernel

open Library KMemoryBlock KMemoryPermission

/-! ## Calls -/

/-- An update call with its arguments. -/
inductive Call where
  | update (address numPages : Nat) (state : KMemoryState) (perm : KMemoryPermission)
      (attr : KMemoryAttribute)
      (setDisableAttr clearDisableAttr : KMemoryBlockDisableMergeAttribute)
  | updateIfMatch (address numPages : Nat) (testState : KMemoryState)
      (testPerm : KMemoryPermission) (testAttr : KMemoryAttribute) (state : KMemoryState)
      (perm : KMemoryPermission) (attr : KMemoryAttribute)
      (setDisableAttr clearDisableAttr : KMemoryBlockDisableMergeAttribute)
  | updateLock (address numPages : Nat) (lockFunc : LockFunction) (perm : KMemoryPermission)
  | updateAttribute (address numPages : Nat) (mask attr : KMemoryAttribute)
deriving DecidableEq, Repr

namespace Call

/-- The first address of the range. -/
def address : Call → Nat
  | .update a .. | .updateIfMatch a .. | .updateLock a .. | .updateAttribute a .. => a

/-- The number of pages of the range. -/
def numPages : Call → Nat
  | .update _ n .. | .updateIfMatch _ n .. | .updateLock _ n .. | .updateAttribute _ n .. => n

/-- Make the call. -/
def run (m : KMemoryBlockManager) : Call → Except Fault KMemoryBlockManager
  | .update a n s p attr set clear => m.update a n s p attr set clear
  | .updateIfMatch a n ts tp ta s p attr set clear =>
    m.updateIfMatch a n ts tp ta s p attr set clear
  | .updateLock a n f p => m.updateLock a n f p
  | .updateAttribute a n mask attr => m.updateAttribute a n mask attr

/-- The blocks the call passes over. -/
def skip : Call → KMemoryBlock → Bool
  | .update _ _ s p attr .. => fun it => it.hasProperties s p attr
  | .updateIfMatch _ _ ts tp ta s p attr .. => fun it =>
    !(it.hasProperties ts tp ta && !it.hasProperties s p attr)
  | .updateLock .. => fun _ => false
  | .updateAttribute _ _ mask attr => fun it => it.memoryAttribute &&& mask == attr

/-- What the call does to the other blocks. -/
def act : Call → KMemoryBlock → Except Fault KMemoryBlock
  | .update a _ s p attr set clear => fun it => it.update s p attr (it.address == a) set clear
  | .updateIfMatch _ _ _ _ _ s p attr set clear => fun it =>
    it.update s p attr false set clear
  | .updateLock a n f p => fun it =>
    f.apply it p (it.address == a) (it.endAddress == a + n * pageSize)
  | .updateAttribute _ _ mask attr => fun it => it.updateAttribute mask attr

/-- What the call sites guarantee about the attributes: `Update` and
`UpdateIfMatch` assert that no lock bit is requested, and
`SetMemoryAttribute` rejects attributes outside its mask. -/
def AttributesValid : Call → Prop
  | .update _ _ _ _ attr .. | .updateIfMatch _ _ _ _ _ _ _ attr .. =>
    attr &&& KMemoryAttribute.lockBits = KMemoryAttribute.none
  | .updateLock .. => True
  | .updateAttribute _ _ mask attr => mask ||| attr = mask

instance (c : Call) : Decidable c.AttributesValid := by
  cases c <;> unfold AttributesValid <;> infer_instance

end Call

/-- A page-aligned, non-empty range inside the managed one. -/
structure KMemoryBlockManager.ValidRange (m : KMemoryBlockManager) (address numPages : Nat) :
    Prop where
  aligned : address % pageSize = 0
  nonempty : 0 < numPages
  start_le : m.startAddress ≤ address
  le_end : address + numPages * pageSize ≤ m.endAddress

namespace Call

/-- A call on a valid range with valid attributes. -/
structure Valid (c : Call) (m : KMemoryBlockManager) : Prop where
  range : m.ValidRange c.address c.numPages
  attributes : c.AttributesValid

/-- Every update function runs the shared body with its own test and change. -/
lemma run_eq_updateRange (m : KMemoryBlockManager) {c : Call} (h : c.AttributesValid) :
    c.run m = m.updateRange c.address c.numPages c.skip c.act := by
  cases c with
  | update | updateIfMatch => exact if_pos h
  | updateLock | updateAttribute => rfl

/-- A call keeps the range of a block and the consistency of its counts, and faults inside
a block only on an assertion of the block. -/
lemma act_keeps {c : Call} (hc : c.AttributesValid) (b : KMemoryBlock) : Keeps b (c.act b) := by
  cases c with
  | update | updateIfMatch => exact update_keeps _ _ _ hc _ _ _
  | updateLock => exact LockFunction.apply_keeps _ _ _ _ _
  | updateAttribute => exact updateAttribute_keeps _ hc

lemma run_eq_or (c : Call) (m : KMemoryBlockManager) :
    c.run m = m.updateRange c.address c.numPages c.skip c.act ∨
      c.run m = .error .managerAssertion := by
  cases c with
  | update | updateIfMatch => exact ite_eq_or_eq _ _ _
  | updateLock | updateAttribute => exact .inl rfl

lemma act_assertsOnly (c : Call) (b : KMemoryBlock) : AssertsOnly (c.act b) := by
  cases c with
  | update | updateIfMatch | updateAttribute => exact .ite (failsOnly_ok _) (failsOnly_error rfl)
  | updateLock => exact (LockFunction.apply_keeps _ _ _ _ _).fails

end Call

/-! ## Reachable block lists -/

namespace KMemoryBlockManager

/-- The runs over the addresses from `st` up to `nd`: `Initialize`,
then valid calls that return. -/
def runs (st nd : Nat) : TransitionSystem KMemoryBlockManager where
  init m := m = initialized st nd
  step m m' := ∃ c : Call, c.Valid m ∧ c.run m = .ok m'

lemma initialized_wellFormed {st nd : Nat} (hst : st % pageSize = 0)
    (hnd : nd % pageSize = 0) (hlt : st < nd) : (initialized st nd).WellFormed := by
  refine ⟨hst, ⟨rfl, ?_, ?_⟩, List.isChain_singleton _, ?_⟩
  · simp only [initialized, KMemoryBlock.endAddress, KMemoryBlock.size, pageSize] at *
    omega
  · simp only [initialized, KMemoryBlock.endAddress, KMemoryBlock.size, pageSize, tiles_nil] at *
    omega
  · simp only [initialized, List.mem_singleton, forall_eq]
    exact ⟨fun h => absurd BitVec.zero_and h, fun h => absurd BitVec.zero_and h⟩

variable {m : KMemoryBlockManager}

lemma call_spec (hwf : m.WellFormed) {c : Call} (hc : c.Valid m) :
    c.run m = .error .blockAssertion ∨
      (m.FirstSkipped c.address c.skip ∧ c.run m = .error .beginIterator) ∨
      (¬ m.FirstSkipped c.address c.skip ∧ ∃ m', c.run m = .ok m' ∧
        RangeUpdated c.skip c.act c.address (c.address + c.numPages * pageSize) m m') := by
  rw [Call.run_eq_updateRange m hc.attributes]
  exact updateRange_spec hwf hc.range.aligned hc.range.nonempty hc.range.start_le
    hc.range.le_end (Call.act_keeps hc.attributes)

lemma call_ok {m' : KMemoryBlockManager} (hwf : m.WellFormed) {c : Call} (hc : c.Valid m)
    (hrun : c.run m = .ok m') :
    RangeUpdated c.skip c.act c.address (c.address + c.numPages * pageSize) m m' := by
  rcases call_spec hwf hc with h | ⟨-, h⟩ | ⟨-, m₁, h, hupd⟩
  · rw [hrun] at h
    cases h
  · rw [hrun] at h
    cases h
  · rw [hrun] at h
    cases h
    exact hupd

lemma runs_wellFormed {st nd : Nat} (hst : st % pageSize = 0) (hnd : nd % pageSize = 0)
    (hlt : st < nd) (hm : (runs st nd).Reachable m) :
    m.WellFormed ∧ m.startAddress = st ∧ m.endAddress = nd := by
  refine hm.invariant (P := fun m => m.WellFormed ∧ m.startAddress = st ∧ m.endAddress = nd)
    ?_ ?_
  · rintro m rfl
    exact ⟨initialized_wellFormed hst hnd hlt, rfl, rfl⟩
  · rintro m m' - ⟨hwf, hs, he⟩ ⟨c, hc, hrun⟩
    have hupd := call_ok hwf hc hrun
    exact ⟨hupd.wellFormed, hupd.startAddress_eq.trans hs, hupd.endAddress_eq.trans he⟩

/-! ## The update allocator -/

/-- The computation does not ask an empty allocator for a block. -/
abbrev Supplied {α : Type} (x : Except Fault α) : Prop :=
  FailsOnly (· ≠ .allocatorExhausted) x

lemma coalesceLoop_supplied {hi : Nat} {rest : List KMemoryBlock} :
    ∀ {prev : KMemoryBlock} {allocator : UpdateAllocator},
      Supplied (coalesceLoop hi prev rest allocator) := by
  induction rest with
  | nil => exact failsOnly_ok _
  | cons it rest ih =>
    refine .ite (.bind (.ite (failsOnly_ok _) (failsOnly_error (by decide))) fun merged => ?_) ?_
    · exact .ite (failsOnly_ok _) ih
    · exact .ite (failsOnly_ok _) (ih.bind fun _ => failsOnly_ok _)

lemma coalesceForUpdate_supplied {lo n : Nat} {allocator : UpdateAllocator} :
    Supplied (m.coalesceForUpdate lo n allocator) := by
  unfold coalesceForUpdate
  split
  · exact failsOnly_error (by decide)
  · refine .ite ?_ (coalesceLoop_supplied.bind fun _ => failsOnly_ok _)
    split
    · exact failsOnly_error (by decide)
    · exact coalesceLoop_supplied.bind fun _ => failsOnly_ok _

/-- In every state of every run, a call on a valid range takes at most two blocks from its
allocator, and none of its requests finds the allocator exhausted. -/
theorem runs_allocator_suffices (st nd : Nat) (hst : st % pageSize = 0) (hnd : nd % pageSize = 0)
    (hlt : st < nd) {m : KMemoryBlockManager} (hm : (runs st nd).Reachable m) (c : Call)
    (hc : m.ValidRange c.address c.numPages) :
    c.run m ≠ .error .allocatorExhausted ∧
      ∀ blocks allocator, updateLoop c.skip c.act (findIterator m.memoryBlockTree c.address).2
        c.address c.numPages .initialized = .ok (blocks, allocator) →
        allocator.index ≤ UpdateAllocator.maxBlocks := by
  obtain ⟨hwf, -, -⟩ := runs_wellFormed hst hnd hlt hm
  obtain ⟨pre, it, rest, -, hfind, -, -, -, -, hloop⟩ := updateLoop_found c.skip hwf hc.aligned
    hc.nonempty hc.start_le hc.le_end c.act_assertsOnly
  have hrange : Supplied (m.updateRange c.address c.numPages c.skip c.act) := by
    rw [updateRange, if_pos hc.aligned, hfind]
    refine FailsOnly.bind ?_ fun _ => coalesceForUpdate_supplied
    rcases hloop with ⟨_, _, hrun, -⟩ | hrun
    · rw [hrun]
      exact failsOnly_ok _
    · rw [hrun]
      exact failsOnly_error (by decide)
  refine ⟨fun h => ?_, fun blocks allocator hrun => ?_⟩
  · rcases c.run_eq_or m with heq | heq
    · exact hrange _ (heq ▸ h) rfl
    · rw [heq] at h
      cases h
  · rw [hfind] at hrun
    rcases hloop with ⟨_, _, hok, hused, -⟩ | herror
    · rw [hrun] at hok
      cases hok
      exact hused
    · rw [hrun] at herror
      cases herror

/-- Changing the middle one of three free pages, which takes both blocks. -/
theorem runs_allocator_middle_page :
    Call.run (initialized 0 12288) (.update 4096 1 5#32 3#8 0#8 1#8 0#8) ≠
      .error .allocatorExhausted :=
  (runs_allocator_suffices 0 12288 (by decide) (by decide) (by decide) (.start rfl)
    (.update 4096 1 5#32 3#8 0#8 1#8 0#8) ⟨rfl, by decide, by decide, by decide⟩).1

/-! ## CheckState -/

lemma checkCounts_of_consistent {b : KMemoryBlock} (h : CountsConsistent b.view) :
    checkCounts b = true := by
  have hipc := h.ipc
  have hdevice := h.device
  simp only [checkCounts, Bool.and_eq_true, Bool.not_eq_true', Bool.and_eq_false_iff,
    bne_eq_false_iff_eq, beq_eq_false_iff_ne]
  exact ⟨or_iff_not_imp_left.2 hipc, or_iff_not_imp_left.2 hdevice⟩

lemma checkStateLoop_of_tiles {e : Nat} {bs : List KMemoryBlock} :
    ∀ {s : Nat} {b : KMemoryBlock}, BlocksTile s e (b :: bs) → Coalesced (b :: bs) →
      (∀ c ∈ b :: bs, CountsConsistent c.view) → checkStateLoop b bs = true := by
  induction bs with
  | nil =>
    intro s b _ _ hcounts
    exact checkCounts_of_consistent (hcounts b List.mem_cons_self)
  | cons c cs ih =>
    intro s b htiles hcoalesced hcounts
    obtain ⟨hmerge, hcoalesced⟩ := List.isChain_cons_cons.1 hcoalesced
    rw [List.forall_mem_cons] at hcounts
    have hadj : b.endAddress = c.address := htiles.2.2.1.symm
    simp only [checkStateLoop, hmerge, hadj, Bool.not_false, beq_self_eq_true, Bool.true_and,
      Bool.and_eq_true]
    exact ⟨checkCounts_of_consistent (hcounts.2 c List.mem_cons_self),
      ih htiles.2.2 hcoalesced hcounts.2⟩

lemma WellFormed.checkState (h : m.WellFormed) : m.checkState = true := by
  unfold KMemoryBlockManager.checkState
  have htiles := h.tiles
  have hcoalesced := h.coalesced
  have hcounts := h.counts
  split <;> rename_i heq
  · rfl
  · rw [heq] at htiles hcoalesced hcounts
    exact checkStateLoop_of_tiles htiles hcoalesced hcounts

/-- What the blocks owe their managed range: they tile it exactly, no neighbours
can merge, and the audit passes. -/
structure Audited (m : KMemoryBlockManager) (st nd : Nat) : Prop where
  tiles : BlocksTile st nd m.memoryBlockTree
  coalesced : Coalesced m.memoryBlockTree
  checkState : m.checkState = true

/-- Every state of every run tiles its range, is coalesced and passes
`CheckState`; a further valid call whose block assertions hold gets to such a
state exactly when it does not pass over a first block it starts inside of. -/
theorem runs_audited_iff (st nd : Nat) (hst : st % pageSize = 0) (hnd : nd % pageSize = 0)
    (hlt : st < nd) {m : KMemoryBlockManager} (hm : (runs st nd).Reachable m) :
    m.Audited st nd ∧
      ∀ c : Call, c.Valid m → c.run m ≠ .error .blockAssertion →
        ((∃ m', c.run m = .ok m' ∧ m'.Audited st nd) ↔ ¬ m.FirstSkipped c.address c.skip) := by
  obtain ⟨hwf, rfl, rfl⟩ := runs_wellFormed hst hnd hlt hm
  refine ⟨⟨hwf.tiles, hwf.coalesced, hwf.checkState⟩, fun c hc hassert => ?_⟩
  rcases call_spec hwf hc with h | ⟨hfirst, h⟩ | ⟨hfirst, m', h, hupd⟩
  · exact absurd h hassert
  · refine ⟨?_, fun hno => absurd hfirst hno⟩
    rintro ⟨m', hrun, -⟩
    rw [h] at hrun
    cases hrun
  · refine ⟨fun _ => hfirst, fun _ => ⟨m', h, ?_, hupd.wellFormed.coalesced,
      hupd.wellFormed.checkState⟩⟩
    rw [← hupd.startAddress_eq, ← hupd.endAddress_eq]
    exact hupd.wellFormed.tiles

/-- A one-page update at the start of three free pages returns an audited list. -/
theorem runs_audited_first_page :
    ∃ m', Call.run (initialized 0 12288) (.update 0 1 5#32 3#8 0#8 1#8 0#8) = .ok m' ∧
      m'.Audited 0 12288 :=
  ((runs_audited_iff 0 12288 (by decide) (by decide) (by decide)
    (.start rfl)).2 (.update 0 1 5#32 3#8 0#8 1#8 0#8) ⟨⟨rfl, by decide, by decide, by decide⟩, rfl⟩
    (by decide)).2 (by decide)

/-- Asking for the second of three free pages to be free decrements the iterator
of the first block. -/
theorem update_second_free_page_faults :
    (runs 0 12288).Reachable (initialized 0 12288) ∧
      Call.Valid (.update 4096 1 KMemoryState.free none
        KMemoryAttribute.none 0#8 0#8) (initialized 0 12288) ∧
      Call.run (initialized 0 12288) (.update 4096 1 KMemoryState.free none
        KMemoryAttribute.none 0#8 0#8) = .error .beginIterator :=
  ⟨.start rfl, ⟨⟨rfl, by decide, by decide, by decide⟩, rfl⟩, by decide⟩

end KMemoryBlockManager
end Drippu.Kernel
