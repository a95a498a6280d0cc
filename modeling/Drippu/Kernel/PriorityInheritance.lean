import Drippu.Kernel.RestorePriority
import Drippu.Library.Transition

/-!
# Kernel - Priority inheritance

In every state that the lock functions can reach while no thread waits for itself,
every thread has the least of its base priority and of the priorities of the threads
that wait for it, and every lock info has its waiters in the order of their priorities.

Main results:

- Theorem `KThreads.runs_inherited`: the priorities in every reachable state.
-/

namespace Drippu.Kernel
namespace KThreads

open Library List Function

variable {α : Type} [DecidableEq α] {s s' : KThreads α} {t u x n : α} {l : Nat}
  {rest : List α}

/-! ## Handing over a lock -/

lemma uncountWaiters_spec (h : s.WellFormed) (hl : l ∈ (s.thread t).heldLockInfoList) :
    ∃ s₁, (s.eraseHeldLock t l).uncountWaiters t l = .ok s₁ ∧ s₁.lock = s.lock ∧
      s₁.nextLock = s.nextLock ∧ ∀ u, s₁.thread u = { s.thread u with
        heldLockInfoList :=
          if u = t then (s.thread u).heldLockInfoList.erase l else (s.thread u).heldLockInfoList
        numKernelWaiters := (s.thread u).numKernelWaiters -
          if u = t ∧ (s.lock l).isKernelAddressKey then ((s.lock l).tree.length : Int)
          else 0 } := by
  cases hkey : (s.lock l).isKernelAddressKey with
  | true =>
    have hle := kernelWaitersOn_le s t l
    simp only [kernelWaitersOn, hl, hkey, and_self, if_true, ← h.kernel t] at hle
    have hcount := (h.lock t l hl).count
    refine ⟨(s.eraseHeldLock t l).addKernelWaiters t (-((s.lock l).waiterCount : Int)), ?_, rfl,
      rfl, fun u => ?_⟩
    · have hnonneg : 0 ≤ (s.thread t).numKernelWaiters + -((s.lock l).waiterCount : Int) := by
        omega
      simp [uncountWaiters, eraseHeldLock, addKernelWaiters, hkey, hnonneg]
    · by_cases hu : u = t <;> simp [addKernelWaiters_thread, eraseHeldLock, modifyThread_thread, hu,
        hcount, Int.sub_eq_add_neg]
  | false =>
    refine ⟨s.eraseHeldLock t l, ?_, rfl, rfl, fun u => ?_⟩
    · simp [uncountWaiters, eraseHeldLock, hkey]
    · by_cases hu : u = t <;> simp [eraseHeldLock, modifyThread_thread, hu]

lemma handOver_spec (hnum : 0 ≤ (s.thread n).numKernelWaiters) (hwaiters : rest ≠ [])
    (hcount : (s.lock l).waiterCount = rest.length) :
    ∃ s₁, s.handOver false n l = .ok s₁ ∧
      s₁.lock = Function.update s.lock l { s.lock l with owner := some n } ∧
      s₁.nextLock = s.nextLock ∧ ∀ u, s₁.thread u = { s.thread u with
        heldLockInfoList :=
          if u = n then l :: (s.thread u).heldLockInfoList else (s.thread u).heldLockInfoList
        numKernelWaiters := (s.thread u).numKernelWaiters +
          if u = n ∧ (s.lock l).isKernelAddressKey then (rest.length : Int) else 0 } := by
  cases hkey : (s.lock l).isKernelAddressKey with
  | true =>
    have hpos : 0 < (s.thread n).numKernelWaiters + ((s.lock l).waiterCount : Int) := by
      have := length_pos_iff.2 hwaiters
      omega
    refine ⟨(s.addHeldLock n l).addKernelWaiters n (s.lock l).waiterCount, ?_, rfl, rfl,
      fun u => ?_⟩
    · simp [handOver, addHeldLock, addKernelWaiters, hkey, hpos]
    · by_cases hu : u = n <;>
        simp [addKernelWaiters_thread, addHeldLock, modifyThread_thread, hu, hcount]
  | false =>
    refine ⟨s.addHeldLock n l, ?_, rfl, rfl, fun u => ?_⟩
    · simp [handOver, addHeldLock, hkey]
    · by_cases hu : u = n <;> simp [addHeldLock, modifyThread_thread, hu]

/-- The lock info `l` of `t` went to its first waiter `n`, if it has
further waiters. -/
structure HandedOver (s s' : KThreads α) (t n : α) (l : Nat) (rest : List α) : Prop where
  thread : ∀ u, s'.thread u = { s.thread u with
    heldLockInfoList :=
      if u = t then (s.thread u).heldLockInfoList.erase l
      else if u = n ∧ rest ≠ [] then l :: (s.thread u).heldLockInfoList
      else (s.thread u).heldLockInfoList
    waitingLockInfo := if u = n then none else (s.thread u).waitingLockInfo
    numKernelWaiters := (s.thread u).numKernelWaiters +
      if (s.lock l).isKernelAddressKey then
        if u = t then -(rest.length + 1 : Int) else if u = n then (rest.length : Int) else 0
      else 0 }
  lock : s'.lock = Function.update s.lock l
    { s.lock l with
      tree := rest
      owner := if rest = [] then some t else some n
      waiterCount := rest.length }
  next : s'.nextLock = s.nextLock

lemma lockRemoveWaiter_first (htree : (s.lock l).tree = n :: rest)
    (hcount : (s.lock l).waiterCount = rest.length + 1) :
    (s.lockRemoveWaiter l n).1 = decide (rest = []) ∧
      (s.lockRemoveWaiter l n).2.lock = Function.update s.lock l
        { s.lock l with tree := rest, waiterCount := rest.length } ∧
      ∀ u, (s.lockRemoveWaiter l n).2.thread u = { s.thread u with
        waitingLockInfo := if u = n then none else (s.thread u).waitingLockInfo } := by
  refine ⟨?_, ?_, fun u => ?_⟩
  · rw [Bool.eq_iff_iff]
    simp [lockRemoveWaiter, hcount]
  · simp [lockRemoveWaiter, modifyLock, htree, hcount]
  · rw [lockRemoveWaiter, modifyThread_thread]
    split <;> rfl

namespace HandedOver

variable (h : HandedOver s s' t n l rest)
include h

lemma same : SameThreads s s' := by
  constructor <;> intro u <;> rw [h.thread u]

lemma waitingLockInfo_eq (y : α) :
    (s'.thread y).waitingLockInfo = if y = n then none else (s.thread y).waitingLockInfo := by
  rw [h.thread y]

lemma lock_self :
    s'.lock l =
      { s.lock l with
        tree := rest
        owner := if rest = [] then some t else some n
        waiterCount := rest.length } := by
  rw [h.lock, update_self]

lemma held_iff_of_ne {l' : Nat} (hne : l' ≠ l) (u : α) :
    l' ∈ (s'.thread u).heldLockInfoList ↔ l' ∈ (s.thread u).heldLockInfoList := by
  rw [h.thread u]
  split
  · exact mem_erase_of_ne hne
  · split
    · simp [hne]
    · rfl

variable (hwf : s.WellFormed) (hl : l ∈ (s.thread t).heldLockInfoList) (hne : n ≠ t)
include hwf hl hne

lemma held_self (u : α) : l ∈ (s'.thread u).heldLockInfoList ↔ u = n ∧ rest ≠ [] := by
  rw [h.thread u]
  split <;> rename_i hu
  · subst hu
    simp [(hwf.nodup u).mem_erase_iff, Ne.symm hne]
  · have hold : l ∉ (s.thread u).heldLockInfoList := fun hmem => hu (hwf.owner_unique hmem hl)
    split <;> rename_i hn
    · simp [hn]
    · simp [hold, hn]

variable (htree : (s.lock l).tree = n :: rest)
include htree

lemma changesOnly : ChangesOnly s s' l := by
  refine ⟨h.same, h.next.ge, fun l' hne' => ?_, fun u l' hne' => h.held_iff_of_ne hne' u,
    fun y l' hne' => ?_, fun u => ?_⟩
  · rw [h.lock, update_of_ne hne']
  · rw [h.waitingLockInfo_eq y]
    split <;> rename_i hy
    · subst hy
      simp [((hwf.lock t l hl).waiters y (htree ▸ mem_cons_self)).1, Ne.symm hne']
    · rfl
  · have hheld : l ∈ (s.thread u).heldLockInfoList ↔ u = t :=
      ⟨fun hmem => hwf.owner_unique hmem hl, fun heq => heq ▸ hl⟩
    simp only [kernelWaitersOn, h.held_self hwf hl hne, hheld, h.lock_self, htree, length_cons]
    rw [h.thread u]
    by_cases hu : u = t
    · subst hu
      simp only [Ne.symm hne, false_and, if_true, if_false, true_and]
      split <;> omega
    by_cases hn : u = n
    · subst hn
      by_cases hrest : rest = []
      · simp [hu, hrest]
      · simp only [hu, hrest, ne_eq, not_false_eq_true, true_and, if_true, if_false, false_and]
        omega
    · simp [hu, hn]

lemma wellFormed : s'.WellFormed := by
  have hlock := hwf.lock t l hl
  have hnodup := hlock.nodup
  have hsorted := hlock.sorted
  rw [htree] at hnodup hsorted
  refine (h.changesOnly hwf hl hne htree).wellFormed hwf (fun u => ?_) (fun u hu => ?_)
    fun y hy => ?_
  · rw [h.thread u]
    split <;> rename_i hut
    · exact (hwf.nodup u).erase l
    · split
      · exact nodup_cons.2 ⟨fun hmem => hut (hwf.owner_unique hmem hl), hwf.nodup u⟩
      · exact hwf.nodup u
  · obtain ⟨rfl, hrest⟩ := (h.held_self hwf hl hne u).1 hu
    refine ⟨h.next.symm ▸ hlock.created, ?_, ?_, ?_, ?_, ?_, fun y hy => ?_⟩
    · rw [h.lock_self, if_neg hrest]
    · rw [h.lock_self]
      exact hrest
    · rw [h.lock_self]
      exact (nodup_cons.1 hnodup).2
    · rw [h.lock_self, h.same.priority_eq]
      exact (pairwise_cons.1 hsorted).2
    · rw [h.lock_self]
    · rw [h.lock_self] at hy ⊢
      have hyn : y ≠ u := fun heq => (nodup_cons.1 hnodup).1 (heq ▸ hy)
      rw [h.waitingLockInfo_eq, if_neg hyn, h.same.isKernelAddressKey]
      exact hlock.waiters y (htree ▸ mem_cons_of_mem u hy)
  · rw [h.waitingLockInfo_eq y] at hy
    split at hy <;> rename_i hyn
    · cases hy
    obtain ⟨u, -, hmem⟩ := hwf.waiting y l hy
    rw [htree] at hmem
    have hmem := (mem_cons.1 hmem).resolve_left hyn
    refine ⟨n, (h.held_self hwf hl hne n).2 ⟨rfl, ne_nil_of_mem hmem⟩, ?_⟩
    rw [h.lock_self]
    exact hmem

/-- The next owner waits for nobody, the other waiters wait for it. -/
lemma getLockOwner_eq (y : α) :
    s'.getLockOwner y = if y = n then none else if y ∈ rest then some n else s.getLockOwner y := by
  have hlock := hwf.lock t l hl
  split <;> rename_i hyn
  · subst hyn
    simp [getLockOwner, h.waitingLockInfo_eq]
  have hwait : (s'.thread y).waitingLockInfo = (s.thread y).waitingLockInfo := by
    rw [h.waitingLockInfo_eq, if_neg hyn]
  split <;> rename_i hmem
  · have hyl := (hlock.waiters y (htree ▸ mem_cons_of_mem n hmem)).1
    simp [getLockOwner, hwait, hyl, h.lock_self, ne_nil_of_mem hmem]
  · refine (h.changesOnly hwf hl hne htree).getLockOwner_eq hwait fun hyl => ?_
    obtain ⟨u, -, hin⟩ := hwf.waiting y l hyl
    rw [htree, mem_cons] at hin
    exact (hin.elim hyn hmem).elim

omit hwf

/-- No cycle comes up, and only the old owner may have to restore its priority. -/
lemma inherited (hs : s.Consistent) :
    Acyclic s'.getLockOwner ∧ (∀ u, u ≠ t → s'.Inherited u) ∧
      (s'.mayHaveInherited t n = false → s'.Inherited t) := by
  have howner := h.getLockOwner_eq hs.wellFormed hl hne htree
  have hwaiter : ∀ y, y = n ∨ y ∈ rest → s.getLockOwner y = some t := fun y hy =>
    hs.wellFormed.getLockOwner_iff.2 ⟨l, hl, htree ▸ mem_cons.2 hy⟩
  have hfirst : ∀ y, y = n ∨ y ∈ rest → s.priority n ≤ s.priority y := by
    have hsorted := (hs.wellFormed.lock t l hl).sorted
    rw [htree, pairwise_cons] at hsorted
    rintro y (rfl | hy)
    · exact le_rfl
    · exact hsorted.1 y hy
  have hnew : ∀ y u, s'.getLockOwner y = some u →
      s.getLockOwner y = some u ∧ ¬ (y = n ∨ y ∈ rest) ∨ y ∈ rest ∧ u = n := by
    intro y u hy
    rw [howner] at hy
    split at hy <;> rename_i hyn
    · cases hy
    · split at hy <;> rename_i hrest
      · exact .inr ⟨hrest, (Option.some.inj hy).symm⟩
      · exact .inl ⟨hy, fun hor => hor.elim hyn hrest⟩
  have hkept : ∀ y, ¬ (y = n ∨ y ∈ rest) → s'.getLockOwner y = s.getLockOwner y := fun y hy => by
    rw [not_or] at hy
    rw [howner, if_neg hy.1, if_neg hy.2]
  refine ⟨hs.acyclic.mono fun y u hy => ?_, fun u hu => h.same.inherited ?_,
    hs.inherited_of_lost h.same (hwaiter n (.inl rfl)) (fun y hy => ?_) fun y hy => ?_⟩
  · rcases hnew y u hy with ⟨hold, -⟩ | ⟨-, rfl⟩
    · exact .inl hold
    · exact .inr (by rw [howner, if_pos rfl])
  · have hold : ∀ y, s.getLockOwner y = some u → s'.getLockOwner y = some u := by
      intro y hy
      rw [hkept y fun hor => hu (Option.some.inj ((hwaiter y hor).symm.trans hy)).symm, hy]
    refine (hs.inherited u).add hold fun y hy => ?_
    rcases hnew y u hy with ⟨hy, -⟩ | ⟨hrest, rfl⟩
    · exact .inl hy
    · exact .inr (hfirst y (.inr hrest))
  · rcases hnew y t hy with ⟨hold, -⟩ | ⟨-, htn⟩
    · exact hold
    · exact absurd htn.symm hne
  · by_cases hin : y = n ∨ y ∈ rest
    · exact .inr (hfirst y hin)
    · exact .inl ((hkept y hin).trans hy)

end HandedOver

/-! ## The calls -/

lemma setAddressKey_spec (h : s.Consistent) (hwait : (s.thread t).waitingLockInfo = none)
    (key : Nat) (isKernelAddressKey : Bool) :
    ∃ s', s.setAddressKey t key isKernelAddressKey = .ok s' ∧ s'.Consistent := by
  have howner : (s.modifyThread t fun thread => { thread with
      addressKey := key, isKernelAddressKey := isKernelAddressKey }).getLockOwner =
      s.getLockOwner :=
    getLockOwner_modifyThread fun _ => rfl
  refine ⟨_, if_pos hwait, h.wellFormed.modifyThread (fun _ => rfl) (fun _ => rfl) (fun _ => rfl)
    (.inl hwait), howner ▸ h.acyclic, fun u => ?_⟩
  refine (h.inherited u).congr (fun y => by rw [howner]) ?_ ?_ fun y _ => ?_
  · exact modifyThread_field (·.basePriority) fun _ => rfl
  · exact modifyThread_field (·.priority) fun _ => rfl
  · exact modifyThread_field (·.priority) fun _ => rfl

section
variable [Fintype α]

/-- The lock info is handed over, and then the priority of the old owner is restored. -/
lemma removeWaiterByKey_handedOver (h : s.WellFormed) {key : Nat} {isKernelAddressKey : Bool}
    (hacyclic : Acyclic s.getLockOwner)
    (hfind : s.findHeldLock t key isKernelAddressKey = some l) :
    ∃ n rest s', (s.lock l).tree = n :: rest ∧ HandedOver s s' t n l rest ∧
      s.removeWaiterByKey t key isKernelAddressKey =
        (s'.restoreWhen (s'.mayHaveInherited t n) t).bind fun r =>
          .ok (r, some n, !decide (rest = [])) := by
  have hl : l ∈ (s.thread t).heldLockInfoList := mem_of_find?_eq_some hfind
  have hlock := h.lock t l hl
  obtain ⟨n, rest, htree⟩ := exists_cons_of_ne_nil hlock.nonempty
  have hmem : n ∈ (s.lock l).tree := htree ▸ mem_cons_self
  have hne : n ≠ t := hacyclic.ne (h.getLockOwner_iff.2 ⟨l, hl, hmem⟩)
  obtain ⟨s₁, huncount, hlock₁, hnext₁, hthread₁⟩ := uncountWaiters_spec h hl
  have hcount : (s₁.lock l).waiterCount = rest.length + 1 := by
    rw [hlock₁, hlock.count, htree, length_cons]
  have hfirst : s₁.getHighestPriorityWaiter l = some n := by
    simp [getHighestPriorityWaiter, hlock₁, htree]
  obtain ⟨hempty, hlock₂, hthread₂⟩ := lockRemoveWaiter_first (hlock₁ ▸ htree) hcount
  have hrun : ∀ s', (s₁.lockRemoveWaiter l n).2.handOver (decide (rest = [])) n l = .ok s' →
      s.removeWaiterByKey t key isKernelAddressKey =
        (s'.restoreWhen (s'.mayHaveInherited t n) t).bind fun r =>
          .ok (r, some n, !decide (rest = [])) := by
    intro s' hhand
    simp only [removeWaiterByKey, hfind, huncount, bind, Except.bind, hfirst, hempty, hhand, pure,
      Except.pure]
  by_cases hrest : rest = []
  · refine ⟨n, rest, (s₁.lockRemoveWaiter l n).2, htree, ⟨fun u => ?_, ?_, hnext₁⟩, hrun _ ?_⟩
    · rw [hthread₂ u, hthread₁ u, htree]
      by_cases hu : u = t <;> simp [hu, hrest, Int.sub_eq_add_neg, apply_ite]
    · rw [hlock₂, hlock₁]
      simp [hrest, hlock.owner]
    · simp [handOver, hrest]
  have hnonneg : 0 ≤ ((s₁.lockRemoveWaiter l n).2.thread n).numKernelWaiters := by
    rw [hthread₂ n, hthread₁ n]
    simpa [hne] using h.kernel_nonneg n
  have hcount₂ : ((s₁.lockRemoveWaiter l n).2.lock l).waiterCount = rest.length := by
    rw [hlock₂, update_self]
  obtain ⟨s₃, hhand, hlock₃, hnext₃, hthread₃⟩ := handOver_spec hnonneg hrest hcount₂
  refine ⟨n, rest, s₃, htree, ⟨fun u => ?_, ?_, hnext₃.trans hnext₁⟩, hrun _ ?_⟩
  · rw [hthread₃ u, hthread₂ u, hthread₁ u, hlock₂, hlock₁, htree]
    by_cases hu : u = t
    · subst hu
      cases hkey : (s.lock l).isKernelAddressKey <;> simp [Ne.symm hne, hkey, Int.sub_eq_add_neg]
    · by_cases hn : u = n
      · subst hn
        simp [hu, hrest]
      · simp [hu, hn]
  · rw [hlock₃, hlock₂, hlock₁]
    simp [hrest]
  · simpa [hrest] using hhand

variable (h : s.Consistent)
include h

lemma addWaiter_spec (hx : (s.thread x).waitingLockInfo = none)
    (hacyclic : Acyclic (Function.update s.getLockOwner x (some t))) :
    ∃ s', s.addWaiter t x = .ok s' ∧ s'.Consistent := by
  have hnone : s.getLockOwner x = none := by simp [getLockOwner, hx]
  have hne : x ≠ t := hacyclic.ne (update_self x (some t) s.getLockOwner)
  obtain ⟨s₁, hadd, hwf₁, hsame, howner⟩ := addWaiterImpl_spec h.wellFormed hx hne
  rw [← howner] at hacyclic
  have hkept : ∀ y, y ≠ x → s₁.getLockOwner y = s.getLockOwner y := fun y hy => by
    rw [howner, update_of_ne hy]
  have hnew : s₁.getLockOwner x = some t := by rw [howner, update_self]
  have hothers : ∀ u, u ≠ t → s₁.Inherited u := by
    intro u hu
    refine hsame.inherited ((h.inherited u).congr (fun y => ?_) rfl rfl fun _ _ => rfl)
    by_cases hy : y = x
    · subst hy
      simp [hnew, hnone, Ne.symm hu]
    · rw [hkept y hy]
  have hself : decide (s₁.priority x < s₁.priority t) = false → s₁.Inherited t := by
    intro hcond
    have hle : s.priority t ≤ s.priority x := by
      have hcond := of_decide_eq_false hcond
      rw [priority, priority, hsame.priority, hsame.priority] at hcond
      exact not_lt.1 hcond
    refine hsame.inherited ((h.inherited t).add (fun y hy => ?_) fun y hy => ?_)
    · have hyx : y ≠ x := fun heq => by
        rw [heq, hnone] at hy
        cases hy
      rw [hkept y hyx, hy]
    · by_cases hyx : y = x
      · exact .inr (hyx ▸ hle)
      · exact .inl (hkept y hyx ▸ hy)
  obtain ⟨s', hrun, hs'⟩ := restoreWhen_spec hwf₁ hacyclic hothers hself
  refine ⟨s', ?_, hs'⟩
  simp only [addWaiter, hadd, bind, Except.bind]
  exact hrun

lemma removeWaiter_spec (hx : s.getLockOwner x = some t) :
    ∃ s', s.removeWaiter t x = .ok s' ∧ s'.Consistent := by
  obtain ⟨s₁, hremove, hwf₁, hsame, -, howner⟩ :=
    removeWaiterImpl_spec h.wellFormed hx (h.acyclic.ne hx)
  have hkept : ∀ y, y ≠ x → s₁.getLockOwner y = s.getLockOwner y := fun y hy => by
    rw [howner, update_of_ne hy]
  have hnone : s₁.getLockOwner x = none := by rw [howner, update_self]
  have hsub : ∀ u y, s₁.getLockOwner y = some u → s.getLockOwner y = some u := by
    intro u y hy
    have hyx : y ≠ x := fun heq => by
      rw [heq, hnone] at hy
      cases hy
    rw [← hkept y hyx, hy]
  have hacyclic : Acyclic s₁.getLockOwner := h.acyclic.mono fun y u hy => .inl (hsub u y hy)
  have hothers : ∀ u, u ≠ t → s₁.Inherited u := by
    intro u hu
    refine hsame.inherited ((h.inherited u).congr (fun y => ⟨hsub u y, fun hy => ?_⟩) rfl rfl
      fun _ _ => rfl)
    have hyx : y ≠ x := fun heq => by
      rw [heq, hx] at hy
      exact hu (Option.some.inj hy).symm
    rw [hkept y hyx, hy]
  have hself : s₁.mayHaveInherited t x = false → s₁.Inherited t :=
    h.inherited_of_lost hsame hx (hsub t) fun y hy => by
      by_cases hyx : y = x
      · exact .inr (hyx ▸ le_rfl)
      · exact .inl ((hkept y hyx).trans hy)
  obtain ⟨s', hrun, hs'⟩ := restoreWhen_spec hwf₁ hacyclic hothers hself
  refine ⟨s', ?_, hs'⟩
  simp only [removeWaiter, hremove, bind, Except.bind]
  exact hrun

lemma removeWaiterByKey_spec (t : α) (key : Nat) (isKernelAddressKey : Bool) :
    ∃ s' next hasWaiters, s.removeWaiterByKey t key isKernelAddressKey =
      .ok (s', next, hasWaiters) ∧ s'.Consistent := by
  cases hfind : s.findHeldLock t key isKernelAddressKey with
  | none => exact ⟨s, none, false, by simp [removeWaiterByKey, hfind], h⟩
  | some l =>
    have hl : l ∈ (s.thread t).heldLockInfoList := mem_of_find?_eq_some hfind
    obtain ⟨n, rest, s₁, htree, hhand, hrun⟩ :=
      removeWaiterByKey_handedOver h.wellFormed h.acyclic hfind
    have hmem : n ∈ (s.lock l).tree := htree ▸ mem_cons_self
    have hne : n ≠ t := h.acyclic.ne (h.wellFormed.getLockOwner_iff.2 ⟨l, hl, hmem⟩)
    obtain ⟨hacyclic, hothers, hself⟩ := hhand.inherited hl hne htree h
    obtain ⟨s', hrestore, hs'⟩ :=
      restoreWhen_spec (hhand.wellFormed h.wellFormed hl hne htree) hacyclic hothers hself
    refine ⟨s', some n, !decide (rest = []), ?_, hs'⟩
    rw [hrun, hrestore]
    rfl

lemma restoreBase_spec (t : α) (value : Int) :
    ∃ s', (s.modifyThread t fun thread => { thread with basePriority := value }).restorePriority t =
      .ok s' ∧ s'.Consistent := by
  have howner : (s.modifyThread t fun thread =>
      { thread with basePriority := value }).getLockOwner = s.getLockOwner :=
    getLockOwner_modifyThread fun _ => rfl
  have hwf := h.wellFormed.modifyThread (t := t)
    (f := fun thread => { thread with basePriority := value }) (fun _ => rfl) (fun _ => rfl)
    (fun _ => rfl) (.inr fun _ => ⟨rfl, rfl⟩)
  refine restorePriority_spec hwf (howner ▸ h.acyclic) fun u hu => ?_
  refine (h.inherited u).congr (fun y => by rw [howner]) ?_ ?_ fun y _ => ?_
  · rw [basePriority, basePriority, modifyThread_thread, if_neg hu]
  · exact modifyThread_field (·.priority) fun _ => rfl
  · exact modifyThread_field (·.priority) fun _ => rfl

end
end KThreads

/-! ## Runs -/

/-- The calls of the lock functions. -/
inductive LockCall (α : Type) where
  | setUserAddressKey (t : α) (key : Nat)
  | setKernelAddressKey (t : α) (key : Nat)
  | addWaiter (t thread : α)
  | removeWaiter (t thread : α)
  | removeWaiterByKey (t : α) (key : Nat) (isKernelAddressKey : Bool)
  | setBasePriority (t : α) (value : Int)
  | increaseBasePriority (t : α) (priority : Int)
  deriving DecidableEq, Repr

variable {α : Type} [DecidableEq α] [Fintype α] {s s' : KThreads α}

namespace LockCall

open Library

def run (s : KThreads α) : LockCall α → Except ThreadFault (KThreads α)
  | setUserAddressKey t key => s.setUserAddressKey t key
  | setKernelAddressKey t key => s.setKernelAddressKey t key
  | addWaiter t thread => s.addWaiter t thread
  | removeWaiter t thread => s.removeWaiter t thread
  | removeWaiterByKey t key isKernelAddressKey =>
    (s.removeWaiterByKey t key isKernelAddressKey).map (·.1)
  | setBasePriority t value => s.setBasePriority t value
  | increaseBasePriority t priority => s.increaseBasePriority t priority

/-- The assertions on the arguments hold, a thread that starts to wait waits for nobody
yet and does not close a cycle, and a thread that stops waiting waits for its owner. -/
def Valid (s : KThreads α) : LockCall α → Prop
  | setUserAddressKey t _ => (s.thread t).waitingLockInfo = none
  | setKernelAddressKey t _ => (s.thread t).waitingLockInfo = none
  | addWaiter t thread =>
    (s.thread thread).waitingLockInfo = none ∧
      Acyclic (Function.update s.getLockOwner thread (some t))
  | removeWaiter t thread => s.getLockOwner thread = some t
  | removeWaiterByKey _ _ _ => True
  | setBasePriority _ value =>
    KThreads.highestThreadPriority ≤ value ∧ value ≤ KThreads.lowestThreadPriority
  | increaseBasePriority _ priority =>
    KThreads.highestThreadPriority ≤ priority ∧ priority ≤ KThreads.lowestThreadPriority

lemma run_spec (h : s.Consistent) (call : LockCall α) (hvalid : call.Valid s) :
    ∃ s', call.run s = .ok s' ∧ s'.Consistent := by
  cases call with
  | setUserAddressKey t key => exact KThreads.setAddressKey_spec h hvalid key false
  | setKernelAddressKey t key => exact KThreads.setAddressKey_spec h hvalid key true
  | addWaiter t thread => exact KThreads.addWaiter_spec h hvalid.1 hvalid.2
  | removeWaiter t thread => exact KThreads.removeWaiter_spec h hvalid
  | removeWaiterByKey t key isKernelAddressKey =>
    obtain ⟨s', next, hasWaiters, hrun, hs'⟩ :=
      KThreads.removeWaiterByKey_spec h t key isKernelAddressKey
    refine ⟨s', ?_, hs'⟩
    rw [run, hrun]
    rfl
  | setBasePriority t value =>
    simp only [Valid] at hvalid
    rw [run, KThreads.setBasePriority, if_pos hvalid]
    exact KThreads.restoreBase_spec h t value
  | increaseBasePriority t priority =>
    simp only [Valid] at hvalid
    rw [run, KThreads.increaseBasePriority, if_pos hvalid]
    split
    · exact KThreads.restoreBase_spec h t priority
    · exact ⟨s, rfl, h⟩

end LockCall

namespace KThreads

open Library

/-- Initially nobody waits and all threads have their base priorities. -/
def runs : TransitionSystem (KThreads α) where
  init s := ∀ t, (s.thread t).priority = (s.thread t).basePriority ∧
    (s.thread t).heldLockInfoList = [] ∧ (s.thread t).waitingLockInfo = none ∧
    (s.thread t).numKernelWaiters = 0
  step s s' := ∃ call : LockCall α, call.Valid s ∧ call.run s = .ok s'

lemma consistent_of_init (h : runs.init s) : s.Consistent := by
  have howner : ∀ t, s.getLockOwner t = none := fun t => by
    simp [getLockOwner, (h t).2.2.1]
  refine ⟨⟨fun t => ?_, fun t l hl => ?_, fun t l hl => ?_, fun t => ?_⟩, fun t hcycle => ?_,
    fun t => inherits_iff.2 ⟨.inl (h t).1, (h t).1.le, fun x hx => ?_⟩⟩
  · rw [(h t).2.1]
    exact List.nodup_nil
  · rw [(h t).2.1] at hl
    cases hl
  · rw [(h t).2.2.1] at hl
    cases hl
  · simp [(h t).2.2.2, kernelWaiters, (h t).2.1]
  · obtain ⟨y, hy, -⟩ := Relation.TransGen.head'_iff.1 hcycle
    rw [howner t] at hy
    cases hy
  · rw [howner x] at hx
    cases hx

lemma runs_consistent (h : runs.Reachable s) : s.Consistent := by
  refine h.invariant (P := Consistent) (fun s hinit => consistent_of_init hinit)
    fun s s' _ hs hstep => ?_
  obtain ⟨call, hvalid, hrun⟩ := hstep
  obtain ⟨s'', hrun', hs''⟩ := call.run_spec hs hvalid
  obtain rfl : s'' = s' := Except.ok.inj (hrun'.symm.trans hrun)
  exact hs''

/-- In every reachable state every thread has the lowest of its base priority and the
priorities of its waiters, which are the threads that wait for it and are sorted by
priority, and every valid call returns with all threads updated. -/
theorem runs_inherited (h : runs.Reachable s) : (∀ t, s.HasLeastPriority t) ∧
    (∀ x t, s.getLockOwner x = some t ↔ ∃ l ∈ (s.thread t).heldLockInfoList, x ∈ (s.lock l).tree) ∧
    (∀ t, ∀ l ∈ (s.thread t).heldLockInfoList,
      (s.lock l).tree.Pairwise fun x y => (s.thread x).priority ≤ (s.thread y).priority) ∧
    (∀ call : LockCall α, call.Valid s →
      ∃ s', call.run s = .ok s' ∧ ∀ t, s'.HasLeastPriority t) := by
  have hs := runs_consistent h
  refine ⟨hs.hasLeastPriority, fun x t => hs.wellFormed.getLockOwner_iff, fun t l hl => ?_,
    fun call hvalid => ?_⟩
  · exact (hs.wellFormed.lock t l hl).sorted
  · obtain ⟨s', hrun, hs'⟩ := call.run_spec hs hvalid
    exact ⟨s', hrun, hs'.hasLeastPriority⟩

/-- Two threads that do not wait. -/
def twoThreads : KThreads (Fin 2) where
  thread t :=
    { basePriority := if t = 0 then 44 else 20, priority := if t = 0 then 44 else 20,
      addressKey := 0, isKernelAddressKey := false, heldLockInfoList := [],
      waitingLockInfo := none, numKernelWaiters := 0 }
  lock _ :=
    { tree := [], addressKey := 0, isKernelAddressKey := false, owner := none, waiterCount := 0 }
  nextLock := 0

/-- A thread that waits for another one passes its priority on. -/
theorem runs_inherited_two_threads :
    ∃ s, (LockCall.addWaiter 0 1).run twoThreads = .ok s ∧ (s.thread 0).priority = 20 ∧
      s.HasLeastPriority 0 := by
  have hinit : runs.init twoThreads := fun t => ⟨rfl, rfl, rfl, rfl⟩
  have hvalid : (LockCall.addWaiter 0 1).Valid twoThreads := by
    refine ⟨rfl, (consistent_of_init hinit).acyclic.mono fun x y hxy => .inr ?_⟩
    revert x y
    decide
  refine ⟨_, rfl, rfl, (runs_inherited (.next (.start hinit) ⟨_, hvalid, rfl⟩)).1 0⟩

end KThreads
end Drippu.Kernel
