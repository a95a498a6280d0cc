import Drippu.Kernel.PriorityQueueCalls

/-!
# Kernel - The placement invariant of the priority queue

The scheduler changes a thread and then tells the priority queue, passing the values
the thread had before.  In every state of every such run each queued thread is in
exactly the queues that its priority, active core and affinity mask ask for, and every
queue lists its threads in the order of their tickets.
-/

namespace Drippu.Kernel

open Library Library.IntrusiveList KPriorityQueue Function CoreLists List

/-- The threads and the priority queue in a run, with a record of the pushes: on each
core a thread has the ticket of its last push there, the number of the call for a push
at the back and minus that number for a push at the front. -/
structure QueueRun (α : Type) where
  members : α → Member
  queue : KPriorityQueue α
  queued : α → Bool
  clock : Nat
  ticket : α → Int → Int

/-- A call of the scheduler.  The thread takes its new values first, and the call gets
those it had before. -/
inductive QueueCall (α : Type) where
  | setMember (member : α) (m : Member)
  | pushBack (member : α)
  | remove (member : α)
  | changePriority (member : α) (priority : Nat) (isRunning : Bool)
  | changeAffinityMask (member : α) (activeCore : Int) (affinityMask : BitVec 64)
  | changeCore (member : α) (activeCore : Int) (toFront : Bool)
  | moveToScheduledFront (member : α)
  | moveToScheduledBack (member : α)

variable {α : Type} [DecidableEq α]

namespace QueueCall

/-- The thread of a call. -/
def thread : QueueCall α → α
  | setMember member _ | pushBack member | remove member | changePriority member _ _
  | changeAffinityMask member _ _ | changeCore member _ _ | moveToScheduledFront member
  | moveToScheduledBack member => member

/-- The new values of the thread. -/
def memberAfter (s : QueueRun α) (c : QueueCall α) : Member :=
  let m := s.members c.thread
  match c with
  | setMember _ m => m
  | changePriority _ priority _ => { m with priority := priority }
  | changeAffinityMask _ activeCore affinityMask =>
    { m with activeCore := activeCore, affinityMask := affinityMask }
  | changeCore _ activeCore _ => { m with activeCore := activeCore }
  | pushBack _ | remove _ | moveToScheduledFront _ | moveToScheduledBack _ => m

def run (S : QueueShape) (s : QueueRun α) (c : QueueCall α) :
    KPriorityQueue α → Except QueueFault (KPriorityQueue α) :=
  let prev := s.members c.thread
  let m := c.memberAfter s
  match c with
  | setMember _ _ => fun q => .ok q
  | pushBack member => KPriorityQueue.pushBack S member m
  | remove member => KPriorityQueue.remove S member m
  | changePriority member _ isRunning =>
    KPriorityQueue.changePriority S prev.priority isRunning member m
  | changeAffinityMask member _ _ =>
    KPriorityQueue.changeAffinityMask S prev.activeCore prev.affinityMask member m
  | changeCore member _ toFront => KPriorityQueue.changeCore S prev.activeCore member m toFront
  | moveToScheduledFront member => KPriorityQueue.moveToScheduledFront S member m
  | moveToScheduledBack member => fun q =>
    (KPriorityQueue.moveToScheduledBack S member m q).map Prod.fst

/-- How the scheduler calls the queue: threads are pushed when they are not queued and
moved or removed when they are; only threads that are not queued change otherwise. -/
def Valid (S : QueueShape) (s : QueueRun α) (c : QueueCall α) : Prop :=
  let prev := s.members c.thread
  let m := c.memberAfter s
  match c with
  | setMember member _ => s.queued member = false
  | pushBack member => m.isDummyThread ∨ s.queued member = false ∧ m.Valid S
  | moveToScheduledFront member | moveToScheduledBack member =>
    m.isDummyThread ∨ s.queued member ∧ 0 ≤ m.activeCore
  | remove member | changePriority member _ _ | changeAffinityMask member _ _
  | changeCore member _ _ => prev.isDummyThread ∨ s.queued member ∧ m.Valid S

/-- Whether the thread is queued after the call. -/
def queuedAfter (s : QueueRun α) (c : QueueCall α) : Bool :=
  match c with
  | pushBack member => !(s.members member).isDummyThread
  | remove _ => false
  | c => s.queued c.thread

/-- The spot at which the call leaves the thread on a core, if it touches the thread
there. -/
def effect (S : QueueShape) (s : QueueRun α) (c : QueueCall α) (core : Int) : Option Spot :=
  let prev := s.members c.thread
  let m := c.memberAfter s
  let spot := S.back (familyOn m.activeCore core, m.priority)
  if m.isDummyThread then none
  else
    match c with
    | setMember _ _ => none
    | pushBack _ => if HasCore m.affinityMask core then some spot else none
    | remove _ => if HasCore m.affinityMask core then some .nowhere else none
    | changePriority _ _ isRunning =>
      if HasCore m.affinityMask core then
        some (if isRunning ∧ core = m.activeCore then S.front (.scheduled, m.priority)
          else spot)
      else none
    | changeAffinityMask _ _ _ =>
      if HasCore m.affinityMask core then some spot
      else if HasCore prev.affinityMask core then some .nowhere
      else none
    | changeCore _ _ toFront =>
      if prev.activeCore = m.activeCore ∨ core < 0 then none
      else if core = m.activeCore then
        some (if toFront then S.front (.scheduled, m.priority) else spot)
      else if core = prev.activeCore then some spot
      else none
    | moveToScheduledFront _ =>
      if core = m.activeCore then some (S.front (.scheduled, m.priority)) else none
    | moveToScheduledBack _ => if core = m.activeCore then some spot else none

/-- The ticket of the thread after the call. -/
def ticketAfter (S : QueueShape) (s : QueueRun α) (c : QueueCall α) (core : Int) : Int :=
  match c.effect S s core with
  | some (.back _) => s.clock + 1
  | some (.front _) => -(s.clock + 1)
  | some .nowhere | none => s.ticket c.thread core

/-- The state after the call, when it leaves the given queue. -/
def after (S : QueueShape) (s : QueueRun α) (c : QueueCall α) (q : KPriorityQueue α) :
    QueueRun α where
  members := update s.members c.thread (c.memberAfter s)
  queue := q
  queued := update s.queued c.thread (c.queuedAfter s)
  clock := s.clock + 1
  ticket := update s.ticket c.thread (c.ticketAfter S s)

end QueueCall

namespace QueueRun

/-- The runs of the priority queue, from the empty one. -/
def runs (S : QueueShape) : TransitionSystem (QueueRun α) where
  init s := s.queue = KPriorityQueue.initialized ∧ (∀ x, s.queued x = false) ∧
    ∀ x core, s.ticket x core = 0
  step s s' := ∃ c : QueueCall α, c.Valid S s ∧ ∃ q, c.run S s s.queue = .ok q ∧ s' = c.after S s q

/-- The queue in which a thread should be on a core, if any. -/
def position (S : QueueShape) (s : QueueRun α) (x : α) (core : Int) : Option QueueKey :=
  let m := s.members x
  if s.queued x ∧ HasCore m.affinityMask core then
    S.key (familyOn m.activeCore core, m.priority)
  else none

/-- The invariant, for the lists of all cores. -/
structure Invariant (S : QueueShape) (s : QueueRun α) (lists : Int → CoreLists α) : Prop where
  holds : ∀ core, S.isValidCore core → Holds (s.queue.onCore core) (lists core)
  placed : ∀ core, S.isValidCore core → ∀ x, (lists core).At x (s.position S x core)
  order : ∀ core, S.isValidCore core → ∀ k,
    (lists core k).Pairwise fun a b => s.ticket a core < s.ticket b core
  valid : ∀ x, s.queued x → (s.members x).Valid S ∧ (s.members x).isDummyThread = false
  bounded : ∀ x core, -(s.clock : Int) ≤ s.ticket x core ∧ s.ticket x core ≤ s.clock

end QueueRun

/-! ## What the calls do -/

namespace KPriorityQueue

/-- The lists of a core after a call with the given effect. -/
def CoreLists.requeued (x : α) (effect : Option Spot) (l : CoreLists α) : CoreLists α :=
  match effect with
  | none => l
  | some spot => l.requeue x spot

end KPriorityQueue

namespace QueueRun

open QueueCall (thread memberAfter queuedAfter effect)

section
variable {α : Type} {S : QueueShape} {s : QueueRun α} {lists : Int → CoreLists α}

section
variable (h : Invariant S s lists)
include h

lemma Invariant.nodup {core : Int} (hcore : S.isValidCore core)
    (k : QueueKey) : (lists core k).Nodup :=
  ((h.holds core hcore).shared.represents k).nodup

lemma Invariant.at_of_queued {x : α} (hx : s.queued x = true)
    {core : Int} (hcore : HasCore (s.members x).affinityMask core) :
    (lists core).At x (S.key (familyOn (s.members x).activeCore core, (s.members x).priority)) := by
  have := h.placed core ((h.valid x hx).1.mask core hcore) x
  simpa only [position, hx, hcore, and_self, if_true] using this

lemma Invariant.at_of_not_queued {x : α} (hx : s.queued x = false)
    {core : Int} (hcore : S.isValidCore core) : (lists core).At x none := by
  have := h.placed core hcore x
  simpa only [position, hx, Bool.false_eq_true, false_and, if_false] using this

lemma Invariant.not_queued_of_dummy {c : QueueCall α}
    (hc : c.Valid S s) (hdummy : (c.memberAfter s).isDummyThread = true) :
    s.queued c.thread = false ∧ c.queuedAfter s = false := by
  have hnot : ∀ x, (s.members x).isDummyThread = true → s.queued x = false := by
    intro x hx
    by_contra hq
    have := (h.valid x (by simpa using hq)).2
    simp [this] at hx
  cases c with
  | setMember x m => exact ⟨hc, hc⟩
  | pushBack x => exact ⟨hnot x hdummy, by
      simpa [queuedAfter, memberAfter, thread] using hdummy⟩
  | remove x => exact ⟨hnot x hdummy, rfl⟩
  | changePriority x _ _ | changeAffinityMask x _ _ | changeCore x _ _
  | moveToScheduledFront x | moveToScheduledBack x => exact ⟨hnot x hdummy, hnot x hdummy⟩

end

lemma valid_of_not_dummy {c : QueueCall α} (hc : c.Valid S s)
    (hdummy : (c.memberAfter s).isDummyThread = false) :
    match c with
    | .setMember x _ => s.queued x = false
    | .pushBack x =>
      (s.members x).isDummyThread = false ∧ s.queued x = false ∧ (s.members x).Valid S
    | .moveToScheduledFront x | .moveToScheduledBack x =>
      (s.members x).isDummyThread = false ∧ s.queued x ∧ 0 ≤ (s.members x).activeCore
    | .remove x | .changePriority x _ _ | .changeAffinityMask x _ _ | .changeCore x _ _ =>
      (s.members x).isDummyThread = false ∧ s.queued x ∧ (c.memberAfter s).Valid S := by
  cases c with
  | setMember x m => exact hc
  | pushBack x | moveToScheduledFront x | moveToScheduledBack x =>
    exact ⟨hdummy, hc.resolve_left (by simp [hdummy])⟩
  | remove x | changePriority x _ _ | changeAffinityMask x _ _ | changeCore x _ _ =>
    replace hdummy : (s.members x).isDummyThread = false := hdummy
    exact ⟨hdummy, hc.resolve_left (by simp [thread, hdummy])⟩

/-- A queued thread with an active core is in a scheduled queue there. -/
lemma Invariant.scheduled (h : Invariant S s lists) {x : α} (hx : s.queued x = true)
    (hcore : 0 ≤ (s.members x).activeCore) :
    (s.members x).Valid S ∧ (lists (s.members x).activeCore).At x
      (S.key (.scheduled, (s.members x).priority)) := by
  have hm := (h.valid x hx).1
  refine ⟨hm, ?_⟩
  have hplaced := h.at_of_queued hx (hm.active.resolve_left (by omega))
  rwa [familyOn, if_pos rfl] at hplaced

end

variable {S : QueueShape} {s : QueueRun α} {lists : Int → CoreLists α}

lemma acts_none {op : KPriorityQueue α → Except QueueFault (KPriorityQueue α)} {x : α}
    {effect : Int → Option Spot} (hop : ∀ q, op q = .ok q) (heffect : ∀ core, effect core = none) :
    ActsOn (fun c => S.isValidCore c) op lists fun c => (lists c).requeued x (effect c) := by
  obtain rfl : op = fun q => .ok q := funext hop
  refine .done fun c _ => ?_
  rw [heffect]
  rfl

variable {c : QueueCall α} {q : KPriorityQueue α}

section

attribute [local simp] thread memberAfter queuedAfter effect requeued

lemma call_acts (h : Invariant S s lists) (c : QueueCall α) (hc : c.Valid S s) :
    ActsOn (fun core => S.isValidCore core) (c.run S s) lists fun core =>
      (lists core).requeued c.thread (c.effect S s core) := by
  cases hdummy : (c.memberAfter s).isDummyThread with
  | true =>
    refine acts_none (fun q => ?_) fun core => by simp only [effect, hdummy, if_true]
    cases c <;> simp_all [QueueCall.run, KPriorityQueue.pushBack, KPriorityQueue.remove,
      changePriority, changeAffinityMask, changeCore, moveToScheduledFront, moveToScheduledBack,
      Except.map]
  | false =>
    cases c with
    | setMember x m => exact acts_none (fun _ => rfl) fun _ => by simp [-memberAfter]
    | pushBack x =>
      obtain ⟨hdummy, hx, hm⟩ := valid_of_not_dummy hc hdummy
      rw [show QueueCall.run S s (.pushBack x) = pushBackAt S (s.members x).priority x (s.members x)
        from funext fun q => by simp [QueueCall.run, KPriorityQueue.pushBack, hdummy]]
      refine ((pushBackAt_acts hm.priority hm fun core hin =>
        h.at_of_not_queued hx (hm.mask core hin)).extend hm.mask).congr_lists fun core _ => ?_
      by_cases hin : HasCore (s.members x).affinityMask core <;> simp [hdummy, hin]
    | remove x =>
      obtain ⟨hdummy, hx, hm⟩ := valid_of_not_dummy hc hdummy
      rw [show QueueCall.run S s (.remove x) = removeAt S (s.members x).priority x (s.members x)
        from funext fun q => by simp [QueueCall.run, KPriorityQueue.remove, hdummy]]
      refine ((removeAt_acts hm.priority hm fun core hin =>
        h.at_of_queued hx hin).extend hm.mask).congr_lists fun core _ => ?_
      by_cases hin : HasCore (s.members x).affinityMask core <;> simp [hdummy, hin]
    | changePriority x priority isRunning =>
      obtain ⟨hdummy, hx, hm⟩ := valid_of_not_dummy hc hdummy
      refine ((changePriority_acts (h.valid x hx).1.priority hm hdummy (fun core hin =>
        h.at_of_queued hx hin) fun core hin => h.nodup (hm.mask core hin)).extend
        hm.mask).congr_lists fun core _ => ?_
      by_cases hin : HasCore (s.members x).affinityMask core <;> simp [hdummy, hin]
    | changeAffinityMask x activeCore mask =>
      obtain ⟨hdummy, hx, hm⟩ := valid_of_not_dummy hc hdummy
      have hprev := (h.valid x hx).1
      refine (changeAffinityMask_acts hm hprev.mask hdummy (fun core hcore => ?_)
        fun core hcore => h.nodup hcore).congr_lists fun core _ => ?_
      · have hplaced := h.placed core hcore x
        simp only [position, hx, true_and] at hplaced
        exact hplaced
      · by_cases hin : HasCore mask core <;>
        by_cases hin' : HasCore (s.members x).affinityMask core <;> simp [hdummy, hin, hin']
    | changeCore x activeCore toFront =>
      obtain ⟨hplain, hx, hm⟩ := valid_of_not_dummy hc hdummy
      have hprev := (h.valid x hx).1
      by_cases hsame : (s.members x).activeCore = activeCore
      · refine acts_none (fun q => ?_) fun core => ?_
        · simp [QueueCall.run, hplain, hsame, KPriorityQueue.changeCore]
        · simp [hsame]
      refine (changeCore_acts hm (fun hpos => hprev.active.resolve_left (by omega)) hplain
        hsame (fun core hin => h.at_of_queued hx hin)
        fun core hin => h.nodup (hm.mask core hin)).congr_lists fun core hcore => ?_
      have hpos : ¬ core < 0 := by
        simp only [QueueShape.isValidCore, decide_eq_true_eq] at hcore
        omega
      by_cases hnew : core = activeCore
      · subst hnew
        simp [hplain, hsame, hpos, familyOn]
      · by_cases hold : core = (s.members x).activeCore
        · subst hold
          simp [hplain, hsame, hpos, familyOn]
        · simp [hplain, hsame, hpos, hnew, hold]
    | moveToScheduledFront x =>
      obtain ⟨hdummy, hx, hpos⟩ := valid_of_not_dummy hc hdummy
      obtain ⟨hm, hscheduled⟩ := h.scheduled hx hpos
      refine (moveToScheduledFront_acts hm hdummy hpos hscheduled).congr_lists fun core _ => ?_
      by_cases hcore : core = (s.members x).activeCore <;> simp [hdummy, hcore]
    | moveToScheduledBack x =>
      obtain ⟨hdummy, hx, hpos⟩ := valid_of_not_dummy hc hdummy
      obtain ⟨hm, hscheduled⟩ := h.scheduled hx hpos
      refine (moveToScheduledBack_acts hm hdummy hpos hscheduled).congr_lists fun core _ => ?_
      by_cases hcore : core = (s.members x).activeCore <;> simp [hdummy, hcore, familyOn]

/-! ## The invariant -/

/-- The effect of a call is the new position of its thread. -/
lemma position_after (h : Invariant S s lists) (hc : c.Valid S s) (q : KPriorityQueue α)
    (core : Int) :
    (c.after S s q).position S c.thread core =
      match c.effect S s core with
      | none => s.position S c.thread core
      | some spot => spot.key := by
  simp only [position, QueueCall.after, update_self]
  cases hdummy : (c.memberAfter s).isDummyThread with
  | true =>
    -- neither before nor after is the thread queued
    obtain ⟨hbefore, hafter⟩ := h.not_queued_of_dummy hc hdummy
    simp only [effect, hdummy, if_true, hbefore, hafter, Bool.false_eq_true, false_and, if_false]
  | false =>
    cases c with
    | setMember x m =>
      replace hc : s.queued x = false := hc
      simp [-memberAfter, hc]
    | pushBack x =>
      obtain ⟨hdummy, hx, -⟩ := valid_of_not_dummy hc hdummy
      by_cases hin : HasCore (s.members x).affinityMask core <;> simp [hdummy, hx, hin]
    | remove x =>
      obtain ⟨hdummy, -⟩ := valid_of_not_dummy hc hdummy
      by_cases hin : HasCore (s.members x).affinityMask core <;> simp [hdummy, hin]
    | changePriority x priority isRunning =>
      obtain ⟨hplain, hx, -⟩ := valid_of_not_dummy hc hdummy
      by_cases hin : HasCore (s.members x).affinityMask core
      · by_cases hactive : core = (s.members x).activeCore
        · subst hactive
          cases isRunning <;> simp [hplain, hx, hin, familyOn]
        · simp [hplain, hx, hin, hactive]
      · simp [hplain, hx, hin]
    | changeAffinityMask x activeCore mask =>
      obtain ⟨hdummy, hx, -⟩ := valid_of_not_dummy hc hdummy
      by_cases hin : HasCore mask core <;>
        by_cases hin' : HasCore (s.members x).affinityMask core <;> simp [hdummy, hx, hin, hin']
    | changeCore x activeCore toFront =>
      obtain ⟨hplain, hx, hm⟩ := valid_of_not_dummy hc hdummy
      have hprev := (h.valid x hx).1.active
      replace hm : activeCore < 0 ∨ HasCore (s.members x).affinityMask activeCore := hm.active
      by_cases hsame : (s.members x).activeCore = activeCore
      · simp [hx, hsame]
      by_cases hneg : core < 0
      · have hout : ¬ HasCore (s.members x).affinityMask core := fun hin => by
          have := hin.1
          omega
        simp [hneg, hout]
      by_cases hnew : core = activeCore
      · subst hnew
        have hin := hm.resolve_left hneg
        cases toFront <;> simp [hplain, hx, hsame, hneg, hin, familyOn]
      by_cases hold : core = (s.members x).activeCore
      · subst hold
        have hin := hprev.resolve_left hneg
        simp [hplain, hx, hsame, hneg, hin]
      · simp [hplain, hsame, hneg, hnew, hold, familyOn]
    | moveToScheduledFront x | moveToScheduledBack x =>
      obtain ⟨hplain, hx, hpos⟩ := valid_of_not_dummy hc hdummy
      by_cases hcore : core = (s.members x).activeCore
      · subst hcore
        have hin := (h.valid x hx).1.active.resolve_left (not_lt.2 hpos)
        simp [hplain, hx, hin, familyOn]
      · simp [hplain, hx, hcore]

end

lemma position_after_of_ne {x : α} (hx : x ≠ c.thread) (core : Int) :
    (c.after S s q).position S x core = s.position S x core := by
  simp [position, QueueCall.after, hx]

section
variable (h : Invariant S s lists)
include h

lemma valid_after (hc : c.Valid S s) {x : α} (hx : (c.after S s q).queued x = true) :
    ((c.after S s q).members x).Valid S ∧ ((c.after S s q).members x).isDummyThread = false := by
  by_cases hne : x = c.thread
  · subst hne
    simp only [QueueCall.after, update_self] at hx ⊢
    cases hdummy : (c.memberAfter s).isDummyThread with
    | true => rw [(h.not_queued_of_dummy hc hdummy).2] at hx; cases hx
    | false =>
      refine ⟨?_, rfl⟩
      cases c with
      | setMember x m =>
        replace hc : s.queued x = false := hc
        simp [queuedAfter, thread, hc] at hx
      | remove x => cases hx
      | pushBack x | changePriority x _ _ | changeAffinityMask x _ _ | changeCore x _ _ =>
        exact (valid_of_not_dummy hc hdummy).2.2
      | moveToScheduledFront x | moveToScheduledBack x => exact (h.valid x hx).1
  · simp only [QueueCall.after, update_of_ne hne] at hx ⊢
    exact h.valid x hx

/-- Moving a thread to the back with the largest ticket, or to the front with the
smallest one, keeps a list in the order of the tickets. -/
lemma order_after {core : Int} (hcore : S.isValidCore core) (k : QueueKey) :
    ((lists core).requeued c.thread (c.effect S s core) k).Pairwise fun a b =>
      (c.after S s q).ticket a core < (c.after S s q).ticket b core := by
  have hothers : ((lists core k).erase c.thread).Pairwise fun a b =>
      (c.after S s q).ticket a core < (c.after S s q).ticket b core := by
    refine ((h.order core hcore k).sublist erase_sublist).imp_of_mem fun ha hb hlt => ?_
    have hne : ∀ y ∈ (lists core k).erase c.thread, y ≠ c.thread := fun y hy =>
      ((h.nodup hcore k).mem_erase_iff.1 hy).1
    simp only [QueueCall.after, update_of_ne (hne _ ha), update_of_ne (hne _ hb)]
    exact hlt
  have hbounds : ∀ y ∈ (lists core k).erase c.thread,
      -(s.clock + 1 : Int) < (c.after S s q).ticket y core ∧
        (c.after S s q).ticket y core < s.clock + 1 := by
    intro y hy
    simp only [QueueCall.after, update_of_ne ((h.nodup hcore k).mem_erase_iff.1 hy).1]
    have := h.bounded y core
    omega
  have hticket : (c.after S s q).ticket c.thread core = c.ticketAfter S s core := by
    simp [QueueCall.after]
  rw [QueueCall.ticketAfter] at hticket
  cases heffect : c.effect S s core with
  | none =>
    rw [heffect] at hticket
    have hsame : ∀ y, (c.after S s q).ticket y core = s.ticket y core := by
      intro y
      by_cases hy : y = c.thread
      · rw [hy]
        exact hticket
      · simp [QueueCall.after, hy]
    simp only [hsame]
    exact h.order core hcore k
  | some spot =>
    rw [heffect] at hticket
    cases spot with
    | nowhere => exact hothers
    | back k' =>
      by_cases hk : k = k'
      · subst hk
        simp only [requeued, requeue, update_self,
          pairwise_append, pairwise_singleton, mem_singleton, forall_eq,
          true_and]
        exact ⟨hothers, fun y hy => hticket ▸ (hbounds y hy).2⟩
      · simpa [requeued, requeue, hk] using hothers
    | front k' =>
      by_cases hk : k = k'
      · subst hk
        simp only [requeued, requeue, update_self, pairwise_cons]
        exact ⟨fun y hy => hticket ▸ (hbounds y hy).1, hothers⟩
      · simpa [requeued, requeue, hk] using hothers

lemma Invariant.after (hc : c.Valid S s) (hrun : c.run S s s.queue = .ok q) :
    Invariant S (c.after S s q) fun core => (lists core).requeued c.thread (c.effect S s core) := by
  refine ⟨fun core hcore => ?_, fun core hcore x => ?_, fun core hcore k => order_after h hcore k,
    fun x hx => valid_after h hc hx, fun x core => ?_⟩
  · obtain ⟨q', hrun', hholds, -⟩ := call_acts h c hc s.queue h.holds
    rw [hrun] at hrun'
    cases hrun'
    exact hholds core hcore
  · by_cases hx : x = c.thread
    · subst hx
      rw [position_after h hc]
      cases heffect : c.effect S s core with
      | none => exact h.placed core hcore _
      | some spot => exact mem_requeue_self fun k => h.nodup hcore k
    · rw [position_after_of_ne hx]
      intro k
      rw [← h.placed core hcore x k]
      cases heffect : c.effect S s core with
      | none => rfl
      | some spot => exact mem_requeue_of_ne hx
  · have hold := h.bounded x core
    have hclock : ((c.after S s q).clock : Int) = s.clock + 1 := by simp [QueueCall.after]
    by_cases hx : x = c.thread
    · subst hx
      have hticket : (c.after S s q).ticket c.thread core = c.ticketAfter S s core := by
        simp [QueueCall.after]
      rw [hticket, QueueCall.ticketAfter]
      split <;> omega
    · have hticket : (c.after S s q).ticket x core = s.ticket x core := by
        simp [QueueCall.after, hx]
      omega

end

lemma init_invariant (hs : (runs S).init s) : Invariant S s fun _ _ => [] := by
  obtain ⟨hqueue, hqueued, hticket⟩ := hs
  refine ⟨fun core _ => ⟨⟨fun k => ⟨?_, nodup_nil⟩, ?_⟩, fun k => ?_⟩, fun core _ x k => ?_,
    fun _ _ _ => .nil, fun x hx => ?_, fun x core => ?_⟩
  · rw [hqueue]
    exact ⟨rfl, rfl⟩
  · simp
  · rw [hqueue]
    rfl
  · simp [position, hqueued]
  · rw [hqueued] at hx
    cases hx
  · rw [hticket]
    omega

/-- The invariant of all runs. -/
lemma runs_invariant (hs : (runs S).Reachable s) : ∃ lists, Invariant S s lists := by
  refine hs.invariant (P := fun s => ∃ lists, Invariant S s lists) (fun s h => ?_) ?_
  · exact ⟨_, init_invariant h⟩
  · rintro s s' - ⟨lists, h⟩ ⟨c, hc, q, hrun, rfl⟩
    exact ⟨_, h.after hc hrun⟩

end QueueRun
end Drippu.Kernel
