import Drippu.Kernel.ThreadLocksInvariant

/-!
# Kernel - Restoring priorities

`RestorePriority` walks up the lock owners.  If only the priority of the thread it
starts with may be wrong, it gives every thread the priority it should have, and the
walk ends because no thread waits for itself.
-/

namespace Drippu.Kernel.KThreads

open Library Function List

variable {α : Type} {s s' : KThreads α} {t u x : α} {l : Nat}

/-- The base priority of a thread. -/
def basePriority (s : KThreads α) (t : α) : Int := (s.thread t).basePriority

/-- A thread has the priority it should have. -/
def Inherited (s : KThreads α) (t : α) : Prop :=
  Inherits s.getLockOwner s.basePriority s.priority t

/-! ## The priority a thread should have -/

lemma LockOf.first (h : s.LockOf t l) :
    ∃ w, s.getHighestPriorityWaiter l = some w ∧ w ∈ (s.lock l).tree ∧
      ∀ y ∈ (s.lock l).tree, s.priority w ≤ s.priority y := by
  have hsorted := h.sorted
  cases htree : (s.lock l).tree with
  | nil => exact absurd htree h.nonempty
  | cons w ws =>
    rw [htree, pairwise_cons] at hsorted
    refine ⟨w, ?_, mem_cons_self, fun y hy => ?_⟩
    · simp [getHighestPriorityWaiter, htree]
    · rcases mem_cons.1 hy with rfl | hy
      · exact le_rfl
      · exact hsorted.1 y hy

lemma newPriorityLoop_least (ls : List Nat) (hls : ∀ l ∈ ls, s.LockOf t l) (p : Int) :
    ∃ q, s.newPriorityLoop ls p = .ok q ∧ q ≤ p ∧
      (∀ l ∈ ls, ∀ y ∈ (s.lock l).tree, q ≤ s.priority y) ∧
      (q = p ∨ ∃ l ∈ ls, ∃ y ∈ (s.lock l).tree, s.priority y = q) := by
  induction ls generalizing p with
  | nil => exact ⟨p, rfl, le_rfl, by simp, .inl rfl⟩
  | cons l ls ih =>
    obtain ⟨w, hfirst, hmem, hle⟩ := (hls l mem_cons_self).first
    obtain ⟨q, hrun, hqp, hq, hcases⟩ :=
      ih (fun l' hl' => hls l' (mem_cons_of_mem l hl')) (min p (s.priority w))
    refine ⟨q, ?_, hqp.trans (min_le_left _ _), fun l' hl' y hy => ?_, ?_⟩
    · simp only [newPriorityLoop, hfirst]
      exact hrun
    · rcases mem_cons.1 hl' with rfl | hl'
      · exact hqp.trans ((min_le_right _ _).trans (hle y hy))
      · exact hq l' hl' y hy
    · rcases hcases with heq | ⟨l', hl', y, hy, heq⟩
      · rcases min_choice p (s.priority w) with hmin | hmin
        · exact .inl (heq.trans hmin)
        · exact .inr ⟨l, mem_cons_self, w, hmem, (heq.trans hmin).symm⟩
      · exact .inr ⟨l', mem_cons_of_mem l hl', y, hy, heq⟩

lemma newPriorityLoop_spec (h : s.WellFormed) (t : α) :
    ∃ q, s.newPriorityLoop (s.thread t).heldLockInfoList (s.thread t).basePriority = .ok q ∧
      q ≤ s.basePriority t ∧ (∀ y, s.getLockOwner y = some t → q ≤ s.priority y) ∧
      (q = s.basePriority t ∨ ∃ y, s.getLockOwner y = some t ∧ s.priority y = q) := by
  obtain ⟨q, hrun, hbase, hle, hcases⟩ :=
    newPriorityLoop_least (s.thread t).heldLockInfoList (h.lock t) (s.thread t).basePriority
  refine ⟨q, hrun, hbase, fun y hy => ?_, ?_⟩
  · obtain ⟨l, hl, hmem⟩ := h.getLockOwner_iff.1 hy
    exact hle l hl y hmem
  · rcases hcases with heq | ⟨l, hl, y, hy, heq⟩
    · exact .inl heq
    · exact .inr ⟨y, h.getLockOwner_iff.2 ⟨l, hl, hy⟩, heq⟩

/-! ## Changing a thread -/

lemma WellFormed.not_waiting (h : s.WellFormed) (howner : s.getLockOwner t = none) :
    (s.thread t).waitingLockInfo = none := by
  cases hwait : (s.thread t).waitingLockInfo with
  | none => rfl
  | some l =>
    obtain ⟨u, hu, hmem⟩ := h.waiting t l hwait
    rw [h.getLockOwner_iff.2 ⟨l, hu, hmem⟩] at howner
    cases howner

section
variable [DecidableEq α] {f : KThread → KThread}

lemma getLockOwner_modifyThread (hwait : ∀ r, (f r).waitingLockInfo = r.waitingLockInfo) :
    (s.modifyThread t f).getLockOwner = s.getLockOwner := by
  funext y
  rw [getLockOwner, getLockOwner, modifyThread_field (·.waitingLockInfo) hwait]
  rfl

/-- The priority and the kind of the address key may only change of a thread that does
not wait. -/
lemma WellFormed.modifyThread (h : s.WellFormed)
    (hheld : ∀ r, (f r).heldLockInfoList = r.heldLockInfoList)
    (hwait : ∀ r, (f r).waitingLockInfo = r.waitingLockInfo)
    (hnum : ∀ r, (f r).numKernelWaiters = r.numKernelWaiters)
    (hkept : (s.thread t).waitingLockInfo = none ∨
      ∀ r, (f r).priority = r.priority ∧ (f r).isKernelAddressKey = r.isKernelAddressKey) :
    (s.modifyThread t f).WellFormed := by
  have hheld' : ∀ u, ((s.modifyThread t f).thread u).heldLockInfoList =
      (s.thread u).heldLockInfoList := fun u =>
    modifyThread_field (·.heldLockInfoList) hheld
  have hwait' : ∀ u, ((s.modifyThread t f).thread u).waitingLockInfo =
      (s.thread u).waitingLockInfo := fun u =>
    modifyThread_field (·.waitingLockInfo) hwait
  have hwaiter : ∀ u l, l ∈ (s.thread u).heldLockInfoList → ∀ y ∈ (s.lock l).tree,
      (s.modifyThread t f).priority y = s.priority y ∧
        ((s.modifyThread t f).thread y).isKernelAddressKey =
          (s.thread y).isKernelAddressKey := by
    intro u l hl y hy
    rcases hkept with hnone | hkept
    · have hne : y ≠ t := fun heq => h.not_mem_of_not_waiting hnone hl (heq ▸ hy)
      simp [priority, modifyThread_thread, hne]
    · exact ⟨modifyThread_field (·.priority) fun r => (hkept r).1,
        modifyThread_field (·.isKernelAddressKey) fun r => (hkept r).2⟩
  refine ⟨fun u => ?_, fun u l hl => ?_, fun y l hy => ?_, fun u => ?_⟩
  · rw [hheld']
    exact h.nodup u
  · rw [hheld'] at hl
    have hlock := h.lock u l hl
    refine ⟨hlock.created, hlock.owner, hlock.nonempty, hlock.nodup, ?_, hlock.count,
      fun y hy => ?_⟩
    · refine hlock.sorted.imp_of_mem fun ha hb hle => ?_
      rw [(hwaiter u l hl _ ha).1, (hwaiter u l hl _ hb).1]
      exact hle
    · rw [hwait', (hwaiter u l hl y hy).2]
      exact hlock.waiters y hy
  · rw [hwait'] at hy
    obtain ⟨u, hu, hmem⟩ := h.waiting y l hy
    refine ⟨u, ?_, hmem⟩
    rw [hheld']
    exact hu
  · rw [modifyThread_field (·.numKernelWaiters) hnum, h.kernel u, kernelWaiters, kernelWaiters,
      hheld']
    rfl

/-- Everything but the priority of one thread stays the same. -/
structure PrioritySet (s s' : KThreads α) (t : α) (p : Int) : Prop where
  wellFormed : s'.WellFormed
  owner : s'.getLockOwner = s.getLockOwner
  priority : s'.priority = update s.priority t p
  base : s'.basePriority = s.basePriority

lemma setPriority_spec (h : s.WellFormed) (hwait : (s.thread t).waitingLockInfo = none)
    (p : Int) : PrioritySet s (s.modifyThread t fun r => { r with priority := p }) t p := by
  refine ⟨h.modifyThread (fun _ => rfl) (fun _ => rfl) (fun _ => rfl) (.inl hwait),
    getLockOwner_modifyThread fun _ => rfl, ?_, ?_⟩
  · funext u
    simp only [KThreads.priority, modifyThread_thread, update_apply]
    split <;> rfl
  · funext u
    exact modifyThread_field (·.basePriority) fun _ => rfl

/-- A waiting thread is taken out of the tree while its priority changes. -/
lemma setWaiterPriority_spec (h : s.WellFormed) (hacyclic : Acyclic s.getLockOwner)
    (t : α) (p : Int) :
    ∃ s', s.setWaiterPriority (s.getLockOwner t) t p = .ok s' ∧ PrioritySet s s' t p := by
  cases howner : s.getLockOwner t with
  | none => exact ⟨_, rfl, setPriority_spec h (h.not_waiting howner) p⟩
  | some u =>
    have hne := hacyclic.ne howner
    obtain ⟨s₁, hremove, hwf₁, hsame₁, hwait₁, howner₁⟩ := removeWaiterImpl_spec h howner hne
    have hset := setPriority_spec hwf₁ hwait₁ p
    have hwait₂ : ((s₁.modifyThread t fun r => { r with priority := p }).thread t).waitingLockInfo
        = none := by
      rw [modifyThread_self]
      exact hwait₁
    obtain ⟨s', hadd, hwf', hsame', howner'⟩ := addWaiterImpl_spec hset.wellFormed hwait₂ hne
    refine ⟨s', ?_, hwf', ?_, ?_, ?_⟩
    · simp only [setWaiterPriority, hremove, bind, Except.bind]
      exact hadd
    · rw [howner', hset.owner, howner₁, update_idem, ← howner, update_eq_self]
    · rw [← hsame₁.priority_eq, ← hset.priority]
      exact hsame'.priority_eq
    · have hbase : s₁.basePriority = s.basePriority := funext hsame₁.basePriority
      rw [← hbase, ← hset.base]
      exact funext hsame'.basePriority

/-- With the priority it should have, a thread can only be wrong for its owner. -/
lemma PrioritySet.inherited_of_ne {p : Int} (h : PrioritySet s s' t p) (hu : u ≠ t)
    (howner : s.getLockOwner t ≠ some u) (hold : s.Inherited u) : s'.Inherited u := by
  refine hold.congr (fun x => by rw [h.owner]) (by rw [h.base]) ?_ fun x hx => ?_
  · rw [h.priority, update_of_ne hu]
  · have hne : x ≠ t := fun heq => howner (heq ▸ hx)
    rw [h.priority, update_of_ne hne]

lemma PrioritySet.inherited_self {p : Int} (h : PrioritySet s s' t p)
    (hacyclic : Acyclic s.getLockOwner) (hbase : p ≤ s.basePriority t)
    (hle : ∀ y, s.getLockOwner y = some t → p ≤ s.priority y)
    (hcases : p = s.basePriority t ∨ ∃ y, s.getLockOwner y = some t ∧ s.priority y = p) :
    s'.Inherited t := by
  have hwaiter : ∀ y, s.getLockOwner y = some t → s'.priority y = s.priority y := fun y hy => by
    rw [h.priority, update_of_ne (hacyclic.ne hy)]
  rw [Inherited, inherits_iff, h.owner, h.base, h.priority, update_self, ← h.priority]
  refine ⟨?_, hbase, fun y hy => ?_⟩
  · rcases hcases with heq | ⟨y, hy, heq⟩
    · exact .inl heq
    · exact .inr ⟨y, hy, (hwaiter y hy).trans heq⟩
  · rw [hwaiter y hy]
    exact hle y hy

end

/-! ## The walk -/

/-- The lock infos are well-formed, nobody waits for themselves and every thread has the
priority it should have. -/
structure Consistent (s : KThreads α) : Prop where
  wellFormed : s.WellFormed
  acyclic : Acyclic s.getLockOwner
  inherited : ∀ u, s.Inherited u

/-- All priorities are right again, and only they changed. -/
structure Restored (s s' : KThreads α) : Prop where
  wellFormed : s'.WellFormed
  owner : s'.getLockOwner = s.getLockOwner
  base : s'.basePriority = s.basePriority
  inherited : ∀ u, s'.Inherited u

/-- The priority of a thread is the lowest of its base priority and the priorities of
the waiters of its lock infos. -/
def HasLeastPriority (s : KThreads α) (t : α) : Prop :=
  IsLeast (insert (s.thread t).basePriority
    {p | ∃ l ∈ (s.thread t).heldLockInfoList, ∃ x ∈ (s.lock l).tree, (s.thread x).priority = p})
    (s.thread t).priority

lemma Consistent.hasLeastPriority (h : s.Consistent) (t : α) : s.HasLeastPriority t := by
  obtain ⟨hmem, hbase, hwaiters⟩ := inherits_iff.1 (h.inherited t)
  constructor
  · rcases hmem with heq | ⟨x, hx, heq⟩
    · exact .inl heq
    · obtain ⟨l, hl, hin⟩ := h.wellFormed.getLockOwner_iff.1 hx
      exact .inr ⟨l, hl, x, hin, heq⟩
  · rintro p (rfl | ⟨l, hl, x, hin, rfl⟩)
    · exact hbase
    · exact hwaiters x (h.wellFormed.getLockOwner_iff.2 ⟨l, hl, hin⟩)

/-- Only who waits for whom matters when the threads keep their priorities. -/
lemma SameThreads.inherited (h : SameThreads s s')
    (hinherits : Inherits s'.getLockOwner s.basePriority s.priority u) : s'.Inherited u :=
  hinherits.congr (fun _ => Iff.rfl) (h.basePriority u) (h.priority u) fun y _ => h.priority y

lemma Consistent.inherited_of_lost (h : s.Consistent) (hsame : SameThreads s s')
    (hx : s.getLockOwner x = some t)
    (hsub : ∀ y, s'.getLockOwner y = some t → s.getLockOwner y = some t)
    (hlost : ∀ y, s.getLockOwner y = some t →
      s'.getLockOwner y = some t ∨ s.priority x ≤ s.priority y)
    (hcond : s'.mayHaveInherited t x = false) : s'.Inherited t := by
  obtain ⟨-, hbase, hwaiters⟩ := inherits_iff.1 (h.inherited t)
  have hcond : ¬ (s.priority t = s.priority x ∧ s.priority t < s.basePriority t) := by
    have hcond := of_decide_eq_false hcond
    rw [priority, priority, hsame.priority, hsame.priority, hsame.basePriority] at hcond
    exact hcond
  refine hsame.inherited ((h.inherited t).drop hsub ?_)
  by_cases heq : s.priority t = s.basePriority t
  · exact .inl heq
  -- it has inherited, and not the priority of the first waiter it lost
  have hlt : s.priority t < s.priority x :=
    lt_of_le_of_ne (hwaiters x hx) fun hsameP => hcond ⟨hsameP, lt_of_le_of_ne hbase heq⟩
  refine .inr fun y hy => ?_
  rcases hlost y hy with hkept | hle
  · exact .inl hkept
  · exact .inr (hlt.trans_le hle)

variable [DecidableEq α]

/-- At most the thread at which the walk starts is wrong. -/
lemma restorePriorityLoop_spec (rounds : Nat) :
    ∀ (s : KThreads α) (thread : Option α), s.WellFormed → Acyclic s.getLockOwner →
      EndsIn s.getLockOwner rounds thread → (∀ u, thread ≠ some u → s.Inherited u) →
      ∃ s', restorePriorityLoop rounds s thread = .ok s' ∧ Restored s s' := by
  induction rounds with
  | zero =>
    intro s thread hwf _ hends hothers
    cases thread with
    | none => exact ⟨s, rfl, hwf, rfl, rfl, fun u => hothers u nofun⟩
    | some t => exact hends.elim
  | succ rounds ih =>
    intro s thread hwf hacyclic hends hothers
    cases thread with
    | none => exact ⟨s, rfl, hwf, rfl, rfl, fun u => hothers u nofun⟩
    | some t =>
      obtain ⟨q, hnew, hbase, hle, hcases⟩ := newPriorityLoop_spec hwf t
      by_cases hsame : q = s.priority t
      · -- the walk stops early, at a thread that is right
        subst hsame
        refine ⟨s, ?_, hwf, rfl, rfl, fun u => ?_⟩
        · simp [restorePriorityLoop, hnew, bind, Except.bind, pure, Except.pure]
        · by_cases hu : u = t
          · subst hu
            exact inherits_iff.2 ⟨hcases, hbase, hle⟩
          · exact hothers u fun heq => hu (Option.some.inj heq).symm
      obtain ⟨s₁, hset, hs₁⟩ := setWaiterPriority_spec hwf hacyclic t q
      obtain ⟨s', hrun, hs'⟩ := ih s₁ (s.getLockOwner t) hs₁.wellFormed
        (hs₁.owner ▸ hacyclic) (hs₁.owner ▸ hends) fun u hu => by
          by_cases hut : u = t
          · subst hut
            exact hs₁.inherited_self hacyclic hbase hle hcases
          · exact hs₁.inherited_of_ne hut hu (hothers u fun heq => hut (Option.some.inj heq).symm)
      refine ⟨s', ?_, hs'.wellFormed, hs'.owner.trans hs₁.owner, hs'.base.trans hs₁.base,
        hs'.inherited⟩
      simp only [restorePriorityLoop, hnew, bind, Except.bind, hsame, if_false, hset]
      exact hrun

variable [Fintype α]

lemma restorePriority_spec (hwf : s.WellFormed) (hacyclic : Acyclic s.getLockOwner)
    (hothers : ∀ u, u ≠ t → s.Inherited u) :
    ∃ s', s.restorePriority t = .ok s' ∧ s'.Consistent := by
  obtain ⟨s', hrun, hs'⟩ := restorePriorityLoop_spec _ s (some t) hwf hacyclic (hacyclic.endsIn t)
    fun u hu => hothers u fun heq => hu (heq ▸ rfl)
  exact ⟨s', hrun, hs'.wellFormed, hs'.owner ▸ hacyclic, hs'.inherited⟩

/-- If the condition does not hold, the thread has to be right already. -/
lemma restoreWhen_spec {condition : Bool} (hwf : s.WellFormed)
    (hacyclic : Acyclic s.getLockOwner) (hothers : ∀ u, u ≠ t → s.Inherited u)
    (hself : condition = false → s.Inherited t) :
    ∃ s', s.restoreWhen condition t = .ok s' ∧ s'.Consistent := by
  cases condition with
  | true => exact restorePriority_spec hwf hacyclic hothers
  | false =>
    refine ⟨s, rfl, hwf, hacyclic, fun u => ?_⟩
    by_cases hu : u = t
    · subst hu
      exact hself rfl
    · exact hothers u hu

end Drippu.Kernel.KThreads
