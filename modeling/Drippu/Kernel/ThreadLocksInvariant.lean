import Drippu.Kernel.ThreadLocks
import Drippu.Library.Inheritance

/-!
# Kernel - The invariant of the lock infos

What the lists of lock infos and the waiters have to do with each other: a thread waits
on exactly the lock info whose tree it is in, every lock info belongs to its owner and
has waiters, sorted by priority.  The functions that make a thread wait or stop waiting
keep this, and change nothing but who waits for whom.
-/

namespace Drippu.Kernel

open Library Function List

variable {α : Type}

/-! ## Sorted waiters -/

variable {priority : α → Int} {x : α} {l : List α}

lemma insertWaiter_perm : (insertWaiter priority x l).Perm (x :: l) := by
  induction l with
  | nil => rfl
  | cons z l ih =>
    simp only [insertWaiter]
    split
    · rfl
    · exact (ih.cons z).trans (.swap x z l)

lemma mem_insertWaiter {y : α} : y ∈ insertWaiter priority x l ↔ y = x ∨ y ∈ l :=
  insertWaiter_perm.mem_iff.trans mem_cons

lemma sorted_insertWaiter (h : l.Pairwise fun a b => priority a ≤ priority b) :
    (insertWaiter priority x l).Pairwise fun a b => priority a ≤ priority b := by
  induction l with
  | nil => simp [insertWaiter]
  | cons z l ih =>
    simp only [insertWaiter]
    rw [pairwise_cons] at h
    split <;> rename_i hlt
    · simp only [pairwise_cons, mem_cons]
      refine ⟨?_, h⟩
      rintro b (rfl | hb)
      · omega
      · have := h.1 b hb
        omega
    · rw [pairwise_cons]
      refine ⟨fun b hb => ?_, ih h.2⟩
      rcases mem_insertWaiter.1 hb with rfl | hb
      · omega
      · exact h.1 b hb

namespace KThreads

variable {s s' : KThreads α} {t u x y : α} {l l' : Nat}

section
variable (f : LockInfo α → LockInfo α)
include f

@[simp]
lemma modifyLock_self : (s.modifyLock l f).lock l = f (s.lock l) := by
  simp [modifyLock]

@[simp]
lemma modifyLock_thread : (s.modifyLock l f).thread = s.thread :=
  rfl

@[simp]
lemma modifyLock_nextLock : (s.modifyLock l f).nextLock = s.nextLock :=
  rfl

end

/-! ## The invariant -/

/-- A lock info of a thread. -/
structure LockOf (s : KThreads α) (t : α) (l : Nat) : Prop where
  created : l < s.nextLock
  owner : (s.lock l).owner = some t
  nonempty : (s.lock l).tree ≠ []
  nodup : (s.lock l).tree.Nodup
  sorted : (s.lock l).tree.Pairwise fun a b => s.priority a ≤ s.priority b
  count : (s.lock l).waiterCount = (s.lock l).tree.length
  waiters : ∀ x ∈ (s.lock l).tree, (s.thread x).waitingLockInfo = some l ∧
    (s.thread x).isKernelAddressKey = (s.lock l).isKernelAddressKey

/-- The number of waiters with kernel address keys. -/
def kernelWaiters (s : KThreads α) (t : α) : Int :=
  ∑ l ∈ (s.thread t).heldLockInfoList.toFinset,
    if (s.lock l).isKernelAddressKey then ((s.lock l).tree.length : Int) else 0

/-- The lists of lock infos and the waiters belong together. -/
structure WellFormed (s : KThreads α) : Prop where
  nodup : ∀ t, (s.thread t).heldLockInfoList.Nodup
  lock : ∀ t, ∀ l ∈ (s.thread t).heldLockInfoList, s.LockOf t l
  waiting : ∀ x l, (s.thread x).waitingLockInfo = some l →
    ∃ t, l ∈ (s.thread t).heldLockInfoList ∧ x ∈ (s.lock l).tree
  kernel : ∀ t, (s.thread t).numKernelWaiters = s.kernelWaiters t

/-- Only the waiting changes: the threads keep their priorities and address keys. -/
structure SameThreads (s s' : KThreads α) : Prop where
  priority : ∀ u, (s'.thread u).priority = (s.thread u).priority
  basePriority : ∀ u, (s'.thread u).basePriority = (s.thread u).basePriority
  addressKey : ∀ u, (s'.thread u).addressKey = (s.thread u).addressKey
  isKernelAddressKey : ∀ u, (s'.thread u).isKernelAddressKey = (s.thread u).isKernelAddressKey

lemma SameThreads.priority_eq (h : SameThreads s s') : s'.priority = s.priority :=
  funext h.priority

section
variable (h : s.WellFormed)
include h

lemma WellFormed.owner_unique (ht : l ∈ (s.thread t).heldLockInfoList)
    (hu : l ∈ (s.thread u).heldLockInfoList) : t = u := by
  have hboth := (h.lock t l ht).owner.symm.trans (h.lock u l hu).owner
  exact Option.some.inj hboth

/-- The owner of the lock a thread waits for has it among its lock infos. -/
lemma WellFormed.getLockOwner_iff :
    s.getLockOwner x = some t ↔ ∃ l ∈ (s.thread t).heldLockInfoList, x ∈ (s.lock l).tree := by
  constructor
  · intro hx
    cases hwait : (s.thread x).waitingLockInfo with
    | none => simp [getLockOwner, hwait] at hx
    | some l =>
      obtain ⟨u, hu, hmem⟩ := h.waiting x l hwait
      simp only [getLockOwner, hwait, (h.lock u l hu).owner, Option.some.injEq] at hx
      subst hx
      exact ⟨l, hu, hmem⟩
  · rintro ⟨l, hl, hmem⟩
    have hlock := h.lock t l hl
    simp [getLockOwner, (hlock.waiters x hmem).1, hlock.owner]

lemma WellFormed.nextLock_not_held (t : α) : s.nextLock ∉ (s.thread t).heldLockInfoList := fun hl =>
  lt_irrefl _ (h.lock t _ hl).created

lemma WellFormed.waitingLockInfo_of_owner (hx : s.getLockOwner x = some t) :
    ∃ l, (s.thread x).waitingLockInfo = some l ∧ l ∈ (s.thread t).heldLockInfoList ∧
      x ∈ (s.lock l).tree := by
  obtain ⟨l, hl, hmem⟩ := h.getLockOwner_iff.1 hx
  exact ⟨l, ((h.lock t l hl).waiters x hmem).1, hl, hmem⟩

lemma WellFormed.not_mem_of_not_waiting (hx : (s.thread x).waitingLockInfo = none)
    (hl : l ∈ (s.thread t).heldLockInfoList) : x ∉ (s.lock l).tree := by
  intro hmem
  have := ((h.lock t l hl).waiters x hmem).1
  rw [hx] at this
  cases this

end

/-- What a lock info adds to the kernel waiters of a thread. -/
def kernelWaitersOn (s : KThreads α) (t : α) (l : Nat) : Int :=
  if l ∈ (s.thread t).heldLockInfoList ∧ (s.lock l).isKernelAddressKey then
    (s.lock l).tree.length
  else 0

lemma kernelWaiters_split (s : KThreads α) (t : α) (l : Nat) :
    s.kernelWaiters t = s.kernelWaitersOn t l +
      ∑ l' ∈ (s.thread t).heldLockInfoList.toFinset.erase l,
        if (s.lock l').isKernelAddressKey then ((s.lock l').tree.length : Int) else 0 := by
  by_cases hl : l ∈ (s.thread t).heldLockInfoList
  · rw [kernelWaiters, ← Finset.add_sum_erase _ _ (mem_toFinset.2 hl)]
    simp [kernelWaitersOn, hl]
  · simp [kernelWaiters, kernelWaitersOn, hl]

lemma kernelWaitersOn_le (s : KThreads α) (t : α) (l : Nat) :
    s.kernelWaitersOn t l ≤ s.kernelWaiters t := by
  rw [kernelWaiters_split s t l]
  have hrest : 0 ≤ ∑ l' ∈ (s.thread t).heldLockInfoList.toFinset.erase l,
      (if (s.lock l').isKernelAddressKey then ((s.lock l').tree.length : Int) else 0) := by
    refine Finset.sum_nonneg fun l' _ => ?_
    omega
  omega

lemma WellFormed.kernel_nonneg (h : s.WellFormed) (t : α) : 0 ≤ (s.thread t).numKernelWaiters := by
  rw [h.kernel t]
  refine Finset.sum_nonneg fun l _ => ?_
  omega

/-- A change that concerns a single lock info, its owners and its waiters. -/
structure ChangesOnly (s s' : KThreads α) (l : Nat) : Prop where
  same : SameThreads s s'
  next : s.nextLock ≤ s'.nextLock
  lock : ∀ l', l' ≠ l → s'.lock l' = s.lock l'
  held : ∀ u l', l' ≠ l → (l' ∈ (s'.thread u).heldLockInfoList ↔ l' ∈ (s.thread u).heldLockInfoList)
  waiting : ∀ y l', l' ≠ l →
    ((s'.thread y).waitingLockInfo = some l' ↔ (s.thread y).waitingLockInfo = some l')
  kernel : ∀ u, (s'.thread u).numKernelWaiters - s'.kernelWaitersOn u l =
    (s.thread u).numKernelWaiters - s.kernelWaitersOn u l

namespace ChangesOnly

variable (h : ChangesOnly s s' l)
include h

lemma lockOf (hne : l' ≠ l) (hlock : s.LockOf t l') : s'.LockOf t l' := by
  have heq := h.lock l' hne
  refine ⟨hlock.created.trans_le h.next, heq ▸ hlock.owner, heq ▸ hlock.nonempty,
    heq ▸ hlock.nodup, ?_, heq ▸ hlock.count, fun x hx => ?_⟩
  · rw [heq, h.same.priority_eq]
    exact hlock.sorted
  · rw [heq] at hx ⊢
    rw [h.waiting x l' hne, h.same.isKernelAddressKey]
    exact hlock.waiters x hx

lemma kernelWaiters_eq (u : α) :
    s'.kernelWaiters u - s'.kernelWaitersOn u l = s.kernelWaiters u - s.kernelWaitersOn u l := by
  have hset : (s'.thread u).heldLockInfoList.toFinset.erase l =
      (s.thread u).heldLockInfoList.toFinset.erase l := by
    ext l'
    simp only [Finset.mem_erase, mem_toFinset]
    exact and_congr_right fun hne => h.held u l' hne
  rw [kernelWaiters_split s' u l, kernelWaiters_split s u l, hset]
  have hsum : ∑ l' ∈ (s.thread u).heldLockInfoList.toFinset.erase l,
      (if (s'.lock l').isKernelAddressKey then ((s'.lock l').tree.length : Int) else 0) =
      ∑ l' ∈ (s.thread u).heldLockInfoList.toFinset.erase l,
      (if (s.lock l').isKernelAddressKey then ((s.lock l').tree.length : Int) else 0) := by
    refine Finset.sum_congr rfl fun l' hl' => ?_
    rw [h.lock l' (Finset.mem_erase.1 hl').1]
  omega

lemma wellFormed (hwf : s.WellFormed) (hnodup : ∀ u, (s'.thread u).heldLockInfoList.Nodup)
    (hself : ∀ u, l ∈ (s'.thread u).heldLockInfoList → s'.LockOf u l)
    (hin : ∀ y, (s'.thread y).waitingLockInfo = some l →
      ∃ u, l ∈ (s'.thread u).heldLockInfoList ∧ y ∈ (s'.lock l).tree) : s'.WellFormed := by
  refine ⟨hnodup, fun u l' hl' => ?_, fun y l' hy => ?_, fun u => ?_⟩
  · by_cases hne : l' = l
    · subst hne
      exact hself u hl'
    · exact h.lockOf hne (hwf.lock u l' ((h.held u l' hne).1 hl'))
  · by_cases hne : l' = l
    · subst hne
      exact hin y hy
    · obtain ⟨u, hu, hmem⟩ := hwf.waiting y l' ((h.waiting y l' hne).1 hy)
      refine ⟨u, (h.held u l' hne).2 hu, ?_⟩
      rw [h.lock l' hne]
      exact hmem
  · have hnum := h.kernel u
    have hsum := h.kernelWaiters_eq u
    have hold := hwf.kernel u
    omega

/-- A thread that waits on the same lock info waits for the same owner. -/
lemma getLockOwner_eq (hwait : (s'.thread y).waitingLockInfo = (s.thread y).waitingLockInfo)
    (howner : (s.thread y).waitingLockInfo = some l → (s'.lock l).owner = (s.lock l).owner) :
    s'.getLockOwner y = s.getLockOwner y := by
  rw [getLockOwner, getLockOwner, hwait]
  cases hy : (s.thread y).waitingLockInfo with
  | none => rfl
  | some l' =>
    by_cases hne : l' = l
    · subst hne
      exact howner hy
    · simp [h.lock l' hne]

end ChangesOnly

variable [DecidableEq α] (f : KThread → KThread)

lemma modifyThread_thread (u : α) :
    (s.modifyThread t f).thread u = if u = t then f (s.thread u) else s.thread u := by
  simp only [modifyThread, update_apply]
  split <;> rename_i hu
  · rw [hu]
  · rfl

@[simp]
lemma modifyThread_self : (s.modifyThread t f).thread t = f (s.thread t) := by
  rw [modifyThread_thread, if_pos rfl]

lemma modifyThread_field {β : Type} (g : KThread → β) {f : KThread → KThread}
    (hf : ∀ r, g (f r) = g r) : g ((s.modifyThread t f).thread u) = g (s.thread u) := by
  rw [modifyThread_thread]
  split
  · exact hf _
  · rfl

@[simp]
lemma modifyThread_lock : (s.modifyThread t f).lock = s.lock :=
  rfl

@[simp]
lemma modifyThread_nextLock : (s.modifyThread t f).nextLock = s.nextLock :=
  rfl

lemma addKernelWaiters_thread (n : Int) (u : α) :
    (s.addKernelWaiters t n).thread u = { s.thread u with
      numKernelWaiters := (s.thread u).numKernelWaiters + if u = t then n else 0 } := by
  rw [addKernelWaiters, modifyThread_thread]
  split
  · rfl
  · simp

/-! ## Starting to wait -/

/-- The thread `x` was added to the lock info `l` of `t`, whose waiters
were `old`; the lock infos of `t` are `held` now. -/
structure Added (s s' : KThreads α) (t x : α) (l : Nat) (old : List α) (held : List Nat) :
    Prop where
  thread : ∀ u, s'.thread u = { s.thread u with
    heldLockInfoList := if u = t then held else (s.thread u).heldLockInfoList
    waitingLockInfo := if u = x then some l else (s.thread u).waitingLockInfo
    numKernelWaiters := (s.thread u).numKernelWaiters +
      if u = t ∧ (s.thread x).isKernelAddressKey then 1 else 0 }
  lock : s'.lock = update s.lock l
    { tree := insertWaiter s.priority x old
      addressKey := (s.thread x).addressKey
      isKernelAddressKey := (s.thread x).isKernelAddressKey
      owner := some t
      waiterCount := old.length + 1 }
  place :
    (l ∈ (s.thread t).heldLockInfoList ∧ held = (s.thread t).heldLockInfoList ∧
      old = (s.lock l).tree ∧
      (s.lock l).isKernelAddressKey = (s.thread x).isKernelAddressKey) ∨
    (l = s.nextLock ∧ held = l :: (s.thread t).heldLockInfoList ∧ old = [])
  created : l < s'.nextLock
  next : s.nextLock ≤ s'.nextLock

lemma countWaiter_spec (h : s.WellFormed) (t x : α) :
    ∃ s₁, s.countWaiter t x = .ok s₁ ∧ s₁.lock = s.lock ∧ s₁.nextLock = s.nextLock ∧
      ∀ u, s₁.thread u = { s.thread u with
        numKernelWaiters := (s.thread u).numKernelWaiters +
          if u = t ∧ (s.thread x).isKernelAddressKey then 1 else 0 } := by
  cases hkey : (s.thread x).isKernelAddressKey with
  | true =>
    refine ⟨s.addKernelWaiters t 1, ?_, rfl, rfl, fun u => ?_⟩
    · simp [countWaiter, hkey, h.kernel_nonneg t]
    · simp [addKernelWaiters_thread]
  | false =>
    refine ⟨s, ?_, rfl, rfl, fun u => ?_⟩
    · simp [countWaiter, hkey]
    · simp

lemma addWaiterImpl_added (h : s.WellFormed) (hne : x ≠ t) :
    ∃ s' l old held, s.addWaiterImpl t x = .ok s' ∧ Added s s' t x l old held := by
  obtain ⟨s₁, hcount, hlock, hnext, hthread⟩ := countWaiter_spec h t x
  have hprio : s₁.priority = s.priority := by
    funext u
    simp [priority, hthread]
  have hfind : s₁.findHeldLock t (s.thread x).addressKey (s.thread x).isKernelAddressKey =
      s.findHeldLock t (s.thread x).addressKey (s.thread x).isKernelAddressKey := by
    simp [findHeldLock, hthread, hlock]
  simp only [addWaiterImpl, hcount, hfind, bind, Except.bind, pure, Except.pure]
  cases hfound : s.findHeldLock t (s.thread x).addressKey (s.thread x).isKernelAddressKey with
  | some l =>
    have hl : l ∈ (s.thread t).heldLockInfoList := List.mem_of_find?_eq_some hfound
    have hkeys := List.find?_some hfound
    simp only [Bool.and_eq_true, beq_iff_eq] at hkeys
    have hinfo := h.lock t l hl
    refine ⟨_, l, (s.lock l).tree, (s.thread t).heldLockInfoList, rfl, fun u => ?_, ?_,
      .inl ⟨hl, rfl, rfl, hkeys.2⟩, ?_, ?_⟩
    · simp only [lockAddWaiter, modifyThread_thread, modifyLock_thread, hthread]
      by_cases hu : u = x
      · simp [hu, hne]
      · by_cases hut : u = t <;> simp [hu, hut, hne.symm]
    · simp only [lockAddWaiter, modifyThread_lock, modifyLock, hlock, hprio]
      rw [hinfo.count, hinfo.owner, hkeys.1, hkeys.2]
    · simpa [lockAddWaiter, hnext] using hinfo.created
    · simp [lockAddWaiter, hnext]
  | none =>
    refine ⟨_, s.nextLock, [], s.nextLock :: (s.thread t).heldLockInfoList, rfl, fun u => ?_, ?_,
      .inr ⟨rfl, rfl, rfl⟩, ?_, ?_⟩
    · simp only [lockAddWaiter, addHeldLock, createLock, modifyThread_thread, modifyLock_thread,
        hthread, hnext]
      by_cases hu : u = x
      · simp [hu, hne]
      · by_cases hut : u = t <;> simp [hu, hut, hne.symm]
    · simp [lockAddWaiter, addHeldLock, createLock, modifyLock, hlock, hnext, insertWaiter]
    · simp [lockAddWaiter, addHeldLock, createLock, hnext]
    · simp [lockAddWaiter, addHeldLock, createLock, hnext]

namespace Added

variable {old : List α} {held : List Nat} (h : Added s s' t x l old held)
include h

lemma same : SameThreads s s' := by
  constructor <;> intro u <;> rw [h.thread u]

lemma lock_self :
    s'.lock l =
      { tree := insertWaiter s.priority x old
        addressKey := (s.thread x).addressKey
        isKernelAddressKey := (s.thread x).isKernelAddressKey
        owner := some t
        waiterCount := old.length + 1 } := by
  rw [h.lock, update_self]

lemma waitingLockInfo_eq (y : α) :
    (s'.thread y).waitingLockInfo = if y = x then some l else (s.thread y).waitingLockInfo := by
  rw [h.thread y]

lemma held_iff :
    l' ∈ (s'.thread u).heldLockInfoList ↔ l' ∈ (s.thread u).heldLockInfoList ∨ u = t ∧ l' = l := by
  rw [h.thread u]
  by_cases hu : u = t
  · subst hu
    rcases h.place with ⟨hl, hheld, -⟩ | ⟨-, hheld, -⟩
    · simp only [if_true, hheld, true_and]
      constructor
      · exact .inl
      · rintro (hl' | rfl)
        · exact hl'
        · exact hl
    · simp [hheld, or_comm]
  · simp [hu]

variable (hwf : s.WellFormed)
include hwf

lemma not_held (hu : u ≠ t) :
    l ∉ (s.thread u).heldLockInfoList ∧ l ∉ (s'.thread u).heldLockInfoList := by
  have hs : l ∉ (s.thread u).heldLockInfoList := fun hl => by
    rcases h.place with ⟨hlt, -⟩ | ⟨rfl, -⟩
    · exact hu (hwf.owner_unique hl hlt)
    · exact hwf.nextLock_not_held u hl
  exact ⟨hs, fun hl => (h.held_iff.1 hl).elim hs fun heq => hu heq.1⟩

lemma old_spec :
    old.Nodup ∧ (old.Pairwise fun a b => s.priority a ≤ s.priority b) ∧
      ∀ y ∈ old, (s.thread y).waitingLockInfo = some l ∧
        (s.thread y).isKernelAddressKey = (s.thread x).isKernelAddressKey := by
  rcases h.place with ⟨hl, -, rfl, hkey⟩ | ⟨-, -, rfl⟩
  · have hlock := hwf.lock t l hl
    refine ⟨hlock.nodup, hlock.sorted, fun y hy => ?_⟩
    rw [← hkey]
    exact hlock.waiters y hy
  · simp

lemma kernelWaitersOn_self :
    s'.kernelWaitersOn t l = s.kernelWaitersOn t l +
      if (s.thread x).isKernelAddressKey then 1 else 0 := by
  have hl' : l ∈ (s'.thread t).heldLockInfoList := h.held_iff.2 (.inr ⟨rfl, rfl⟩)
  simp only [kernelWaitersOn, hl', h.lock_self, true_and, insertWaiter_perm.length_eq, length_cons]
  rcases h.place with ⟨hl, -, rfl, hkey⟩ | ⟨rfl, -, rfl⟩
  · simp only [hl, hkey, true_and]
    split <;> omega
  · simp [hwf.nextLock_not_held t]

variable (hx : (s.thread x).waitingLockInfo = none)
include hx

lemma lockOf_self : s'.LockOf t l := by
  obtain ⟨hnodup, hsorted, hold⟩ := h.old_spec hwf
  have hlock := h.lock_self
  have hnew : x ∉ old := fun hmem => by
    have := (hold x hmem).1
    rw [hx] at this
    cases this
  refine ⟨h.created, by rw [hlock], ?_, ?_, ?_, ?_, fun y hy => ?_⟩
  · rw [hlock]
    exact ne_nil_of_mem (mem_insertWaiter.2 (.inl rfl))
  · rw [hlock]
    exact insertWaiter_perm.nodup_iff.2 (nodup_cons.2 ⟨hnew, hnodup⟩)
  · rw [hlock, h.same.priority_eq]
    exact sorted_insertWaiter hsorted
  · rw [hlock]
    exact insertWaiter_perm.length_eq.symm
  · rw [hlock] at hy ⊢
    rw [h.thread y]
    rcases mem_insertWaiter.1 hy with rfl | hy
    · simp
    · simp [hold y hy]

lemma changesOnly : ChangesOnly s s' l := by
  refine ⟨h.same, h.next, fun l' hne => ?_, fun u l' hne => ?_, fun y l' hne => ?_, fun u => ?_⟩
  · rw [h.lock, update_of_ne hne]
  · rw [h.held_iff]
    simp [hne]
  · rw [h.waitingLockInfo_eq y]
    split <;> rename_i hy
    · subst hy
      simp [hx, Ne.symm hne]
    · rfl
  · by_cases hu : u = t
    · subst hu
      rw [h.kernelWaitersOn_self hwf, h.thread u]
      simp only [true_and]
      omega
    · simp only [kernelWaitersOn, h.not_held hwf hu, false_and, if_false]
      rw [h.thread u]
      simp [hu]

lemma wellFormed : s'.WellFormed := by
  refine (h.changesOnly hwf hx).wellFormed hwf (fun u => ?_) (fun u hl => ?_) fun y hy => ?_
  · rw [h.thread u]
    by_cases hu : u = t
    · subst hu
      rcases h.place with ⟨-, rfl, -⟩ | ⟨rfl, rfl, -⟩
      · simpa using hwf.nodup u
      · simpa using ⟨hwf.nextLock_not_held u, hwf.nodup u⟩
    · simpa [hu] using hwf.nodup u
  · obtain rfl : u = t := by_contra fun hu => (h.not_held hwf hu).2 hl
    exact h.lockOf_self hwf hx
  · refine ⟨t, h.held_iff.2 (.inr ⟨rfl, rfl⟩), ?_⟩
    rw [h.lock_self]
    refine mem_insertWaiter.2 ?_
    rw [h.waitingLockInfo_eq y] at hy
    split at hy <;> rename_i hyx
    · exact .inl hyx
    · obtain ⟨u, hu, hmem⟩ := hwf.waiting y l hy
      rcases h.place with ⟨-, -, rfl, -⟩ | ⟨rfl, -, -⟩
      · exact .inr hmem
      · exact absurd hu (hwf.nextLock_not_held u)

lemma getLockOwner_eq (y : α) : s'.getLockOwner y = update s.getLockOwner x (some t) y := by
  by_cases hyx : y = x
  · subst hyx
    simp [getLockOwner, h.waitingLockInfo_eq, h.lock_self]
  rw [update_of_ne hyx]
  refine (h.changesOnly hwf hx).getLockOwner_eq ?_ fun hy => ?_
  · rw [h.waitingLockInfo_eq, if_neg hyx]
  · obtain ⟨u, hu, -⟩ := hwf.waiting y l hy
    obtain rfl : u = t := by_contra fun hut => (h.not_held hwf hut).1 hu
    rw [h.lock_self, (hwf.lock u l hu).owner]

end Added

lemma addWaiterImpl_spec (h : s.WellFormed) (hx : (s.thread x).waitingLockInfo = none)
    (hne : x ≠ t) :
    ∃ s', s.addWaiterImpl t x = .ok s' ∧ s'.WellFormed ∧ SameThreads s s' ∧
      s'.getLockOwner = update s.getLockOwner x (some t) := by
  obtain ⟨s', l, old, held, hrun, hadded⟩ := addWaiterImpl_added h hne
  exact ⟨s', hrun, hadded.wellFormed h hx, hadded.same, funext (hadded.getLockOwner_eq h hx)⟩

/-! ## Stopping to wait -/

/-- The thread `x` was removed from the lock info `l` of `t`, which goes
away when nobody waits on it any more. -/
structure Removed (s s' : KThreads α) (t x : α) (l : Nat) : Prop where
  thread : ∀ u, s'.thread u = { s.thread u with
    heldLockInfoList :=
      if u = t ∧ (s.lock l).tree.erase x = [] then (s.thread u).heldLockInfoList.erase l
      else (s.thread u).heldLockInfoList
    waitingLockInfo := if u = x then none else (s.thread u).waitingLockInfo
    numKernelWaiters := (s.thread u).numKernelWaiters -
      if u = t ∧ (s.thread x).isKernelAddressKey then 1 else 0 }
  lock : s'.lock = update s.lock l
    { s.lock l with
      tree := (s.lock l).tree.erase x
      waiterCount := (s.lock l).waiterCount - 1 }
  next : s'.nextLock = s.nextLock

lemma uncountWaiter_spec (h : s.WellFormed) (hl : l ∈ (s.thread t).heldLockInfoList)
    (hx : x ∈ (s.lock l).tree) :
    ∃ s₁, s.uncountWaiter t x = .ok s₁ ∧ s₁.lock = s.lock ∧ s₁.nextLock = s.nextLock ∧
      ∀ u, s₁.thread u = { s.thread u with
        numKernelWaiters := (s.thread u).numKernelWaiters -
          if u = t ∧ (s.thread x).isKernelAddressKey then 1 else 0 } := by
  cases hkey : (s.thread x).isKernelAddressKey with
  | true =>
    have hpos : (s.thread t).numKernelWaiters > 0 := by
      have hlock : (s.lock l).isKernelAddressKey = true := by
        rw [← ((h.lock t l hl).waiters x hx).2, hkey]
      have hon := kernelWaitersOn_le s t l
      simp only [kernelWaitersOn, hl, hlock, true_and, if_true] at hon
      have := length_pos_of_mem hx
      rw [h.kernel t]
      omega
    refine ⟨s.addKernelWaiters t (-1), ?_, rfl, rfl, fun u => ?_⟩
    · simp [uncountWaiter, hkey, hpos]
    · simp [addKernelWaiters_thread, Int.sub_eq_add_neg, apply_ite]
  | false =>
    refine ⟨s, ?_, rfl, rfl, fun u => ?_⟩
    · simp [uncountWaiter, hkey]
    · simp

lemma removeWaiterImpl_removed (h : s.WellFormed) (hx : s.getLockOwner x = some t) (hne : x ≠ t) :
    ∃ s' l, l ∈ (s.thread t).heldLockInfoList ∧ x ∈ (s.lock l).tree ∧
      s.removeWaiterImpl t x = .ok s' ∧ Removed s s' t x l := by
  obtain ⟨l, hwait, hl, hmem⟩ := h.waitingLockInfo_of_owner hx
  obtain ⟨s₁, hcount, hlock, hnext, hthread⟩ := uncountWaiter_spec h hl hmem
  have hinfo := h.lock t l hl
  have hwait₁ : (s₁.thread x).waitingLockInfo = some l := by simp [hthread, hwait]
  have howner₁ : (s₁.lock l).owner = some t := by rw [hlock, hinfo.owner]
  have hempty : ((s₁.lock l).waiterCount - 1 == 0) = decide ((s.lock l).tree.erase x = []) := by
    rw [hlock, hinfo.count, ← length_erase_of_mem hmem, Bool.eq_iff_iff, beq_iff_eq,
      decide_eq_true_eq, length_eq_zero_iff]
  have hrun : s.removeWaiterImpl t x = .ok
      (if (s₁.lockRemoveWaiter l x).1 then (s₁.lockRemoveWaiter l x).2.eraseHeldLock t l
        else (s₁.lockRemoveWaiter l x).2) := by
    simp [removeWaiterImpl, hcount, bind, Except.bind, hwait₁, howner₁, pure, Except.pure]
  refine ⟨_, l, hl, hmem, hrun, fun u => ?_, ?_, ?_⟩
  · simp only [lockRemoveWaiter, hempty, decide_eq_true_eq]
    by_cases hux : u = x
    · subst hux
      split <;> simp [eraseHeldLock, modifyThread_thread, hthread, hne]
    · split <;> rename_i hnil
      · by_cases hut : u = t <;>
          simp [eraseHeldLock, modifyThread_thread, hthread, hux, hut, hne.symm, hnil]
      · simp [modifyThread_thread, hthread, hux, hnil]
  · split <;> simp [lockRemoveWaiter, eraseHeldLock, modifyLock, hlock]
  · split <;> simp [lockRemoveWaiter, eraseHeldLock, hnext]

namespace Removed

variable (h : Removed s s' t x l)
include h

lemma same : SameThreads s s' := by
  constructor <;> intro u <;> rw [h.thread u]

lemma waitingLockInfo_eq (y : α) :
    (s'.thread y).waitingLockInfo = if y = x then none else (s.thread y).waitingLockInfo := by
  rw [h.thread y]

lemma lock_self :
    s'.lock l =
      { s.lock l with
        tree := (s.lock l).tree.erase x
        waiterCount := (s.lock l).waiterCount - 1 } := by
  rw [h.lock, update_self]

lemma held_iff (hwf : s.WellFormed) :
    l' ∈ (s'.thread u).heldLockInfoList ↔
      l' ∈ (s.thread u).heldLockInfoList ∧ ¬ (u = t ∧ l' = l ∧ (s.lock l).tree.erase x = []) := by
  rw [h.thread u]
  by_cases hgone : u = t ∧ (s.lock l).tree.erase x = []
  · simp only [hgone, and_self, if_true, (hwf.nodup t).mem_erase_iff]
    tauto
  · simp only [hgone, if_false]
    tauto

variable (hwf : s.WellFormed) (hl : l ∈ (s.thread t).heldLockInfoList)
include hwf

include hl

lemma not_held (hu : u ≠ t) :
    l ∉ (s.thread u).heldLockInfoList ∧ l ∉ (s'.thread u).heldLockInfoList := by
  have hs : l ∉ (s.thread u).heldLockInfoList := fun hmem => hu (hwf.owner_unique hmem hl)
  exact ⟨hs, fun hmem => hs ((h.held_iff hwf).1 hmem).1⟩

variable (hx : x ∈ (s.lock l).tree)
include hx

lemma kernelWaitersOn_self :
    s'.kernelWaitersOn t l = s.kernelWaitersOn t l -
      if (s.thread x).isKernelAddressKey then 1 else 0 := by
  have hlength := length_erase_of_mem hx
  have hpos := length_pos_of_mem hx
  have hkey := ((hwf.lock t l hl).waiters x hx).2
  simp only [kernelWaitersOn, h.held_iff hwf, hl, h.lock_self, hkey, true_and]
  by_cases hnil : (s.lock l).tree.erase x = []
  · rw [hnil, length_nil] at hlength
    simp only [hnil, not_true_eq_false, false_and, if_false]
    split <;> omega
  · simp only [hnil, not_false_eq_true, true_and]
    split <;> omega

lemma changesOnly : ChangesOnly s s' l := by
  refine ⟨h.same, h.next.ge, fun l' hne => ?_, fun u l' hne => ?_, fun y l' hne => ?_, fun u => ?_⟩
  · rw [h.lock, update_of_ne hne]
  · rw [h.held_iff hwf]
    simp [hne]
  · rw [h.waitingLockInfo_eq y]
    split <;> rename_i hy
    · subst hy
      simp [((hwf.lock t l hl).waiters y hx).1, Ne.symm hne]
    · rfl
  · by_cases hu : u = t
    · subst hu
      rw [h.kernelWaitersOn_self hwf hl hx, h.thread u]
      simp only [true_and]
      omega
    · simp only [kernelWaitersOn, h.not_held hwf hl hu, false_and, if_false]
      rw [h.thread u]
      simp [hu]

lemma lockOf_self (hnil : (s.lock l).tree.erase x ≠ []) : s'.LockOf t l := by
  have hlock := hwf.lock t l hl
  refine ⟨h.next.symm ▸ hlock.created, by rw [h.lock_self, hlock.owner], ?_, ?_, ?_, ?_,
    fun y hy => ?_⟩
  · rw [h.lock_self]
    exact hnil
  · rw [h.lock_self]
    exact hlock.nodup.erase x
  · rw [h.lock_self, h.same.priority_eq]
    exact hlock.sorted.sublist erase_sublist
  · rw [h.lock_self, hlock.count, length_erase_of_mem hx]
  · rw [h.lock_self] at hy ⊢
    obtain ⟨hyx, hy⟩ := hlock.nodup.mem_erase_iff.1 hy
    rw [h.waitingLockInfo_eq, if_neg hyx, h.same.isKernelAddressKey]
    exact hlock.waiters y hy

lemma wellFormed : s'.WellFormed := by
  refine (h.changesOnly hwf hl hx).wellFormed hwf (fun u => ?_) (fun u hu => ?_) fun y hy => ?_
  · rw [h.thread u]
    split
    · exact (hwf.nodup u).erase l
    · exact hwf.nodup u
  · obtain ⟨hmem, hkept⟩ := (h.held_iff hwf).1 hu
    obtain rfl := hwf.owner_unique hmem hl
    exact h.lockOf_self hwf hl hx fun hnil => hkept ⟨rfl, rfl, hnil⟩
  · rw [h.waitingLockInfo_eq y] at hy
    split at hy <;> rename_i hyx
    · cases hy
    obtain ⟨u, hu, hmem⟩ := hwf.waiting y l hy
    have hmem' : y ∈ (s.lock l).tree.erase x := (mem_erase_of_ne hyx).2 hmem
    refine ⟨t, (h.held_iff hwf).2 ⟨hl, fun hgone => ?_⟩, ?_⟩
    · rw [hgone.2.2] at hmem'
      exact not_mem_nil hmem'
    · rw [h.lock_self]
      exact hmem'

lemma getLockOwner_eq (y : α) : s'.getLockOwner y = update s.getLockOwner x none y := by
  by_cases hyx : y = x
  · subst hyx
    simp [getLockOwner, h.waitingLockInfo_eq]
  · rw [update_of_ne hyx]
    refine (h.changesOnly hwf hl hx).getLockOwner_eq ?_ fun _ => ?_
    · rw [h.waitingLockInfo_eq, if_neg hyx]
    · rw [h.lock_self]

end Removed

/-- A thread that waits for another one stops waiting. -/
lemma removeWaiterImpl_spec (h : s.WellFormed) (hx : s.getLockOwner x = some t) (hne : x ≠ t) :
    ∃ s', s.removeWaiterImpl t x = .ok s' ∧ s'.WellFormed ∧ SameThreads s s' ∧
      (s'.thread x).waitingLockInfo = none ∧
      s'.getLockOwner = update s.getLockOwner x none := by
  obtain ⟨s', l, hl, hmem, hrun, hremoved⟩ := removeWaiterImpl_removed h hx hne
  refine ⟨s', hrun, hremoved.wellFormed h hl hmem, hremoved.same, ?_,
    funext (hremoved.getLockOwner_eq h hl hmem)⟩
  rw [hremoved.waitingLockInfo_eq, if_pos rfl]

end KThreads
end Drippu.Kernel
