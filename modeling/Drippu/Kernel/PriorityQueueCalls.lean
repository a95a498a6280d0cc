import Drippu.Kernel.PriorityQueueLists

/-!
# Kernel - The calls on the priority queue

What each call of the scheduler does to the lists of the cores, for a thread whose
place in them is known: on each core it touches, the call takes the thread from its
list and puts it at the back or the front of another one.
-/

namespace Drippu.Kernel

open Library Library.IntrusiveList KPriorityQueue Function CoreLists List

/-- The priority is valid, the mask has cores only, and the active core is negative or
in the mask. -/
structure Member.Valid (S : QueueShape) (m : Member) : Prop where
  priority : S.isValidPriority m.priority
  mask : ∀ core, HasCore m.affinityMask core → S.isValidCore core
  active : m.activeCore < 0 ∨ HasCore m.affinityMask m.activeCore

namespace KPriorityQueue

variable {α : Type} [DecidableEq α] {S : QueueShape} {x : α} {m : Member} {p : Nat}
  {lists : Int → CoreLists α}

section
variable (hp : S.isValidPriority p)
include hp

lemma pushBackAt_acts (hm : m.Valid S) (hx : ∀ c, HasCore m.affinityMask c → (lists c).At x none) :
    ActsOn (HasCore m.affinityMask) (pushBackAt S p x m) lists fun c =>
      (lists c).requeue x (S.back (familyOn m.activeCore c, p)) := by
  refine visitQueues_acts hp hm.active (fun hin => ?_) fun c hin hne => ?_
  · rw [familyOn, if_pos rfl]
    exact acts_pushBack (hm.mask _ hin) hp (hx _ hin)
  · rw [familyOn, if_neg hne]
    exact acts_pushBack (hm.mask _ hin) hp (hx _ hin)

lemma pushFrontAt_acts (hm : m.Valid S) (hx : ∀ c, HasCore m.affinityMask c → (lists c).At x none) :
    ActsOn (HasCore m.affinityMask) (pushFrontAt S p x m) lists fun c =>
      (lists c).requeue x (if c = m.activeCore then S.front (.scheduled, p)
        else S.back (.suggested, p)) := by
  refine visitQueues_acts hp hm.active (fun hin => ?_) fun c hin hne => ?_
  · rw [if_pos rfl]
    exact acts_pushFront (hm.mask _ hin) hp (hx _ hin)
  · rw [if_neg hne]
    exact acts_pushBack (hm.mask _ hin) hp (hx _ hin)

lemma removeAt_acts (hm : m.Valid S)
    (hx : ∀ c, HasCore m.affinityMask c → (lists c).At x (S.key (familyOn m.activeCore c, p))) :
    ActsOn (HasCore m.affinityMask) (removeAt S p x m) lists fun c =>
      (lists c).requeue x .nowhere := by
  refine visitQueues_acts hp hm.active (fun hin => ?_) fun c hin hne => ?_
  · refine acts_remove (hm.mask _ hin) hp ?_
    have := hx _ hin
    rwa [familyOn, if_pos rfl] at this
  · refine acts_remove (hm.mask _ hin) hp ?_
    have := hx _ hin
    rwa [familyOn, if_neg hne] at this

end

/-- Removing a thread that is queued at one priority and pushing it at another. -/
lemma changePriority_acts {prevPriority : Nat} {isRunning : Bool}
    (hprev : S.isValidPriority prevPriority) (hm : m.Valid S) (hdummy : m.isDummyThread = false)
    (hx : ∀ c, HasCore m.affinityMask c →
      (lists c).At x (S.key (familyOn m.activeCore c, prevPriority)))
    (hnodup : ∀ c, HasCore m.affinityMask c → ∀ k, (lists c k).Nodup) :
    ActsOn (HasCore m.affinityMask) (changePriority S prevPriority isRunning x m) lists fun c =>
      (lists c).requeue x (if isRunning ∧ c = m.activeCore then S.front (.scheduled, m.priority)
        else S.back (familyOn m.activeCore c, m.priority)) := by
  have hremove := removeAt_acts hprev hm hx
  have hgone : ∀ c, HasCore m.affinityMask c → ((lists c).requeue x .nowhere).At x none :=
    fun c hc => requeue_nowhere_at (hnodup c hc)
  unfold changePriority
  simp only [hdummy, hprev, Bool.not_true, Bool.false_eq_true, if_false]
  cases isRunning with
  | true =>
    refine (hremove.bind (pushFrontAt_acts hm.priority hm hgone)).congr_lists fun c hc => ?_
    rw [requeue_requeue_nowhere (hnodup c hc)]
    by_cases hactive : c = m.activeCore
    · simp [hactive]
    · simp [hactive, familyOn]
  | false =>
    refine (hremove.bind (pushBackAt_acts hm.priority hm hgone)).congr_lists fun c hc => ?_
    rw [requeue_requeue_nowhere (hnodup c hc)]
    simp

lemma hasCore_range {mask : BitVec 64} (hmask : ∀ c, HasCore mask c → S.isValidCore c) (c : Int) :
    HasCore mask c ↔ HasCore mask c ∧ ∃ n ∈ range S.numCores, c = (n : Int) := by
  refine ⟨fun hc => ⟨hc, c.toNat, ?_, ?_⟩, And.left⟩
  · have hvalid := hmask c hc
    simp only [QueueShape.isValidCore, decide_eq_true_eq] at hvalid
    rw [mem_range]
    omega
  · have hpos := hc.1
    omega

variable (hm : m.Valid S)
include hm

lemma changeAffinityMask_acts {prevCore : Int} {prevAffinity : BitVec 64}
    (hprev : ∀ c, HasCore prevAffinity c → S.isValidCore c) (hdummy : m.isDummyThread = false)
    (hx : ∀ c, S.isValidCore c → (lists c).At x
      (if HasCore prevAffinity c then S.key (familyOn prevCore c, m.priority) else none))
    (hnodup : ∀ c, S.isValidCore c → ∀ k, (lists c k).Nodup) :
    ActsOn (fun c => S.isValidCore c) (changeAffinityMask S prevCore prevAffinity x m) lists
      fun c =>
        if HasCore m.affinityMask c then
          (lists c).requeue x (S.back (familyOn m.activeCore c, m.priority))
        else if HasCore prevAffinity c then (lists c).requeue x .nowhere
        else lists c := by
  have hremove : ActsOn (fun c => S.isValidCore c)
      (visitAffinity (KPriorityQueueImpl.remove S) m.priority x prevCore prevAffinity
        (range S.numCores)) lists
      fun c => if HasCore prevAffinity c then (lists c).requeue x .nowhere else lists c := by
    refine ((visitAffinity_acts nodup_range fun c hc => ?_).congr
      (hasCore_range hprev)).extend hprev
    refine acts_remove (hprev c hc) hm.priority ?_
    have := hx c (hprev c hc)
    rwa [if_pos hc] at this
  have hgone : ∀ c, S.isValidCore c →
      (if HasCore prevAffinity c then (lists c).requeue x .nowhere else lists c).At x none := by
    intro c hc
    split <;> rename_i hin
    · exact requeue_nowhere_at (hnodup c hc)
    · have := hx c hc
      rwa [if_neg hin] at this
  have hpush : ActsOn (fun c => S.isValidCore c)
      (visitAffinity (KPriorityQueueImpl.pushBack S) m.priority x m.activeCore m.affinityMask
        (range S.numCores)) _ _ :=
    ((visitAffinity_acts nodup_range fun c hc =>
      acts_pushBack (hm.mask c hc) hm.priority (hgone c (hm.mask c hc))).congr
      (hasCore_range hm.mask)).extend hm.mask
  unfold changeAffinityMask
  simp only [hdummy, Bool.false_eq_true, if_false]
  refine (hremove.bind hpush).congr_lists fun c hc => ?_
  by_cases hnew : HasCore m.affinityMask c
  · simp only [hnew, if_true]
    split
    · rw [requeue_requeue_nowhere (hnodup c hc)]
    · rfl
  · simp [hnew]

/-- The thread leaves the scheduled queue of the previous core and the suggested queue
of the new one, and gets into the other queues of the two. -/
lemma changeCore_acts {prevCore : Int} {toFront : Bool}
    (hprev : 0 ≤ prevCore → HasCore m.affinityMask prevCore) (hdummy : m.isDummyThread = false)
    (hne : prevCore ≠ m.activeCore)
    (hx : ∀ c, HasCore m.affinityMask c → (lists c).At x (S.key (familyOn prevCore c, m.priority)))
    (hnodup : ∀ c, HasCore m.affinityMask c → ∀ k, (lists c k).Nodup) :
    ActsOn (fun c => S.isValidCore c) (changeCore S prevCore x m toFront) lists fun c =>
      if c = m.activeCore then
        (lists c).requeue x (if toFront then S.front (.scheduled, m.priority)
          else S.back (.scheduled, m.priority))
      else if c = prevCore then (lists c).requeue x (S.back (.suggested, m.priority))
      else lists c := by
  have hnew : 0 ≤ m.activeCore → HasCore m.affinityMask m.activeCore := fun h =>
    hm.active.resolve_left (by omega)
  have hgone {c : Int} (hc : HasCore m.affinityMask c) : ((lists c).requeue x .nowhere).At x none :=
    requeue_nowhere_at (hnodup c hc)
  have hstep {core : Int} {f : QueueFamily}
      {op : Nat → Int → α → Entries α × KPriorityQueueImpl α →
        Except QueueFault (Entries α × KPriorityQueueImpl α)}
      {l : Int → CoreLists α} (spot : Spot) (hin : 0 ≤ core → HasCore m.affinityMask core)
      (hop : HasCore m.affinityMask core → S.isValidCore core →
        ActsAt core (onQueue f (op m.priority core x)) (l core) ((lists core).requeue x spot)) :
      ActsOn (fun c => S.isValidCore c) (onCoreQueue core f op x m) l
        (update l core ((lists core).requeue x spot)) :=
    onCoreQueue_acts (fun h => hm.mask _ (hin h)) fun h => hop (hin h) (hm.mask _ (hin h))
  unfold changeCore
  simp only [hdummy, Bool.false_eq_true, if_false, hne, ne_eq, not_false_eq_true, if_true]
  refine ((hstep .nowhere hprev fun hin hcore => ?_).bind ((hstep .nowhere hnew
    fun hin hcore => ?_).bind ((hstep (if toFront then S.front (.scheduled, m.priority)
      else S.back (.scheduled, m.priority)) hnew fun hin hcore => ?_).bind
    (hstep (S.back (.suggested, m.priority)) hprev fun hin hcore => ?_)))).congr_lists
      fun c _ => ?_
  -- out of the two queues the thread was in
  · refine acts_remove hcore hm.priority ?_
    have := hx _ hin
    rwa [familyOn, if_pos rfl] at this
  · rw [update_of_ne hne.symm]
    refine acts_remove hcore hm.priority ?_
    have := hx _ hin
    rwa [familyOn, if_neg hne.symm] at this
  -- into the scheduled queue of the new core
  · rw [update_self]
    cases toFront with
    | true =>
      have hpush := acts_pushFront (f := .scheduled) hcore hm.priority (hgone hin)
      rwa [requeue_requeue_nowhere (hnodup _ hin)] at hpush
    | false =>
      have hpush := acts_pushBack (f := .scheduled) hcore hm.priority (hgone hin)
      rwa [requeue_requeue_nowhere (hnodup _ hin)] at hpush
  -- into the suggested queue of the previous one
  · rw [update_of_ne hne, update_of_ne hne, update_self]
    have hpush := acts_pushBack (f := .suggested) hcore hm.priority (hgone hin)
    rwa [requeue_requeue_nowhere (hnodup _ hin)] at hpush
  · by_cases hc : c = m.activeCore
    · rw [if_pos hc, hc, update_of_ne hne.symm, update_self]
    · rw [if_neg hc]
      by_cases hc' : c = prevCore
      · rw [if_pos hc', hc', update_self]
      · rw [if_neg hc', update_of_ne hc', update_of_ne hc, update_of_ne hc, update_of_ne hc']

lemma moveToScheduledFront_acts (hdummy : m.isDummyThread = false) (hactive : 0 ≤ m.activeCore)
    (hx : (lists m.activeCore).At x (S.key (.scheduled, m.priority))) :
    ActsOn (fun c => S.isValidCore c) (moveToScheduledFront S x m) lists fun c =>
      if c = m.activeCore then (lists c).requeue x (S.front (.scheduled, m.priority))
      else lists c := by
  have hcore := hm.mask _ (hm.active.resolve_left (not_lt.2 hactive))
  unfold moveToScheduledFront
  simp only [hdummy, Bool.false_eq_true, if_false]
  exact (ActsOn.single (acts_moveToFront hcore hm.priority hx)).extend fun c hc => hc ▸ hcore

lemma moveToScheduledBack_acts (hdummy : m.isDummyThread = false) (hactive : 0 ≤ m.activeCore)
    (hx : (lists m.activeCore).At x (S.key (.scheduled, m.priority))) :
    ActsOn (fun c => S.isValidCore c) (fun q => (moveToScheduledBack S x m q).map Prod.fst) lists
      fun c => if c = m.activeCore then (lists c).requeue x (S.back (.scheduled, m.priority))
        else lists c := by
  have hcore := hm.mask _ (hm.active.resolve_left (not_lt.2 hactive))
  have hmove : (fun q => (moveToScheduledBack S x m q).map Prod.fst) =
      onQueue .scheduled
        (KPriorityQueueImpl.requeue S KPerCoreQueue.pushBack m.priority m.activeCore x) := by
    funext q
    simp only [moveToScheduledBack, hdummy, Bool.false_eq_true, if_false, onQueue,
      KPriorityQueueImpl.moveToBack, bind, Except.bind, pure, Except.pure]
    cases KPriorityQueueImpl.requeue S KPerCoreQueue.pushBack m.priority m.activeCore x
      (q.entries, q.queue .scheduled) with
    | error e => rfl
    | ok state => by_cases hp : m.priority ≤ S.lowestPriority <;> simp [hp, Except.map]
  rw [hmove]
  exact (ActsOn.single (acts_moveToBack hcore hm.priority hx)).extend fun c hc => hc ▸ hcore

end KPriorityQueue
end Drippu.Kernel
