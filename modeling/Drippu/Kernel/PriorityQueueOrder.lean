import Drippu.Kernel.PriorityQueueInvariant

/-!
# Kernel - Placement and order in the priority queue

The getters walk through the queues of a family on a core, from the highest priority
to the lowest.  Together with the placement invariant this says what the scheduler
sees: exactly the threads that belong there, in the order of their priorities and,
within a priority, in the order in which they were pushed.

Main results:

- Theorem `runs_placed`: placement and enumeration in every reachable state.
-/

namespace Drippu.Kernel

open Library Library.IntrusiveList KPriorityQueue KPriorityQueueImpl QueueShape List Option

variable {α : Type}

namespace KPriorityQueue

/-- The threads of a family on a core, from the highest priority to the lowest. -/
def enumeration (S : QueueShape) (l : CoreLists α) (f : QueueFamily) : List α :=
  (range S.numPriority).flatMap fun p => l (f, p)

/-- The getter of the front, for each family. -/
def frontOf (S : QueueShape) : QueueFamily → Int → KPriorityQueue α → Except QueueFault (Option α)
  | .scheduled => getScheduledFront S
  | .suggested => getSuggestedFront S

/-- The getter of the next thread, for each family. -/
def nextOf (S : QueueShape) :
    QueueFamily → Int → α → Member → KPriorityQueue α → Except QueueFault (Option α)
  | .scheduled => getScheduledNext S
  | .suggested => getSuggestedNext S

/-- The first element of a concatenation is the first one of the first list that is
not empty. -/
lemma head?_flatMap_range' {g : Nat → List α} {bits : Nat → Bool}
    (hbits : ∀ p, bits p = !(g p).isEmpty) (n start : Nat) :
    ((range' start n).flatMap g).head? =
      ((range' start n).find? bits).bind fun p => (g p).head? := by
  induction n generalizing start with
  | zero => rfl
  | succ n ih =>
    rw [range'_succ, flatMap_cons, head?_append, ih, find?_cons, hbits]
    cases hg : g start with
    | nil => simp
    | cons x xs => simp [hg]

variable {S : QueueShape} {q : KPriorityQueue α} {core : Int} {l : CoreLists α}

/-- The front of the first queue from a priority on whose bit is set. -/
lemma front_of_firstSet (h : Holds (q.onCore core) l) (f : QueueFamily) (start : Nat) :
    (let priority := firstSet ((q.queue f).availablePriorities core) S.numPriority start
      if priority ≤ S.lowestPriority then ((q.queue f).queues priority).getFront core
      else none) =
    ((range' start (S.numPriority - start)).flatMap fun p => l (f, p)).head? := by
  have hbits : ∀ p, (q.queue f).availablePriorities core p = !(l (f, p)).isEmpty := fun p =>
    h.available (f, p)
  rw [head?_flatMap_range' hbits, firstSet]
  cases hfind : (range' start (S.numPriority - start)).find?
      ((q.queue f).availablePriorities core) with
  | none =>
    rw [getD_none, bind_none]
    exact if_neg (by simp only [numPriority]; omega)
  | some p =>
    have hp : p ≤ S.lowestPriority := by
      have hmem := mem_of_find?_eq_some hfind
      rw [mem_range'_1] at hmem
      simp only [numPriority] at hmem
      omega
    simp only [getD_some, hp, if_true, bind_some]
    exact (h.shared.represents (f, p)).head

lemma getFront_eq (hcore : S.isValidCore core) (h : Holds (q.onCore core) l) (f : QueueFamily) :
    frontOf S f core q = .ok (enumeration S l f).head? := by
  have hfront := front_of_firstSet (S := S) h f 0
  rw [Nat.sub_zero, ← range_eq_range'] at hfront
  have hget : frontOf S f core q = (q.queue f).getFront S core := by cases f <;> rfl
  rw [hget, getFront, enumeration, ← hfront]
  simp [hcore]

lemma enumeration_nodup {v : CoreView α} (h : Holds v l) (f : QueueFamily) :
    (enumeration S l f).Nodup := by
  rw [enumeration, nodup_flatMap]
  refine ⟨fun p _ => (h.shared.represents (f, p)).nodup, ?_⟩
  refine nodup_range.imp fun hne x hx hy => hne ?_
  exact congrArg Prod.snd (h.shared.exclusive x _ _ hx hy)

lemma getNext_eq {m : Member} {pre post : List α} {x : α} (hcore : S.isValidCore core)
    (h : Holds (q.onCore core) l) (f : QueueFamily) (hp : m.priority ≤ S.lowestPriority)
    (hx : x ∈ l (f, m.priority)) (hsplit : enumeration S l f = pre ++ x :: post) :
    nextOf S f core x m q = .ok post.head? := by
  obtain ⟨before, behind, hlist⟩ := append_of_mem hx
  -- the threads in front of this one, and those behind it
  have henum : enumeration S l f =
      ((range m.priority).flatMap (fun p => l (f, p)) ++ before) ++ x ::
        (behind ++ (range' (m.priority + 1) (S.numPriority - (m.priority + 1))).flatMap
          fun p => l (f, p)) := by
    have hlength : S.numPriority = m.priority + (S.numPriority - (m.priority + 1) + 1) := by
      simp only [numPriority]
      omega
    have hrange : range S.numPriority = range m.priority ++ m.priority ::
        range' (m.priority + 1) (S.numPriority - (m.priority + 1)) := by
      rw [range_eq_range', range_eq_range', ← range'_succ]
      nth_rewrite 1 [hlength]
      rw [← range'_append, zero_add, one_mul]
    simp [enumeration, hrange, hlist]
  have hnodup := enumeration_nodup (S := S) h f
  rw [henum] at hnodup
  obtain ⟨hfront, hback⟩ : x ∉ (range m.priority).flatMap (fun p => l (f, p)) ++ before ∧
      x ∉ behind ++ (range' (m.priority + 1) (S.numPriority - (m.priority + 1))).flatMap
        fun p => l (f, p) := by
    have := (nodup_middle.1 hnodup)
    rw [nodup_cons, mem_append, not_or] at this
    exact this.1
  obtain ⟨-, -, hpost⟩ := (append_cons_inj_of_notMem hfront hback).1 (henum.symm.trans hsplit)
  have hnext : (q.entries x core).next = behind.head? := by
    have hrep := h.shared.represents (f, m.priority)
    rw [hlist] at hrep
    exact hrep.next_eq
  have hget : nextOf S f core x m q =
      getNext S core x m.priority (q.entries, q.queue f) := by
    cases f <;> rfl
  rw [hget, getNext, hnext, ← hpost]
  cases behind with
  | cons y behind => simp [hcore]
  | nil =>
    have hrest := front_of_firstSet (S := S) h f (m.priority + 1)
    rw [nil_append, ← hrest]
    simp only [hcore, Bool.not_true, Bool.false_eq_true, if_false, head?_nil, getNextSet]
    rfl

end KPriorityQueue

namespace QueueRun

/-- The threads that belong to a family on a core. -/
def Belongs (S : QueueShape) (s : QueueRun α) (f : QueueFamily) (core : Int) (x : α) : Prop :=
  s.queued x = true ∧ (s.members x).priority ≤ S.lowestPriority ∧
    HasCore (s.members x).affinityMask core ∧ familyOn (s.members x).activeCore core = f

variable {S : QueueShape} {s : QueueRun α} {lists : Int → CoreLists α} {core : Int}

section
variable (h : Invariant S s lists) (hcore : S.isValidCore core)
include h hcore

variable (f : QueueFamily)
include f

lemma Invariant.mem_iff (p : Nat) (x : α) :
    x ∈ lists core (f, p) ↔ s.Belongs S f core x ∧ (s.members x).priority = p := by
  rw [h.placed core hcore x (f, p)]
  by_cases hq : s.queued x = true ∧ HasCore (s.members x).affinityMask core
  · by_cases hp : (s.members x).priority ≤ S.lowestPriority
    · simp [position, hq, key, hp, Belongs]
    · simp [position, key, hp, Belongs]
  simp only [position, hq, if_false, Belongs]
  constructor
  · rintro ⟨⟩
  · rintro ⟨⟨h1, -, h2, -⟩, -⟩
    exact absurd ⟨h1, h2⟩ hq

lemma Invariant.mem_enumeration (x : α) :
    x ∈ enumeration S (lists core) f ↔ s.Belongs S f core x := by
  simp only [enumeration, mem_flatMap, mem_range, h.mem_iff hcore, numPriority]
  constructor
  · rintro ⟨p, -, hx, -⟩
    exact hx
  · intro hx
    exact ⟨_, Nat.lt_succ_of_le hx.2.1, hx, rfl⟩

/-- The enumeration is in the order of the priorities, then of the tickets. -/
lemma Invariant.enumeration_pairwise :
    (enumeration S (lists core) f).Pairwise fun a b =>
      (s.members a).priority < (s.members b).priority ∨
        (s.members a).priority = (s.members b).priority ∧ s.ticket a core < s.ticket b core := by
  have hpriority : ∀ p, ∀ x ∈ lists core (f, p), (s.members x).priority = p := fun p x hx =>
    ((h.mem_iff hcore f p x).1 hx).2
  rw [enumeration, pairwise_flatMap]
  refine ⟨fun p _ => ?_, ?_⟩
  · refine (h.order core hcore (f, p)).imp_of_mem fun ha hb hlt => .inr ⟨?_, hlt⟩
    rw [hpriority p _ ha, hpriority p _ hb]
  · refine pairwise_lt_range.imp fun hlt a ha b hb => .inl ?_
    rw [hpriority _ a ha, hpriority _ b hb]
    exact hlt

end

variable [DecidableEq α]

/-- In every state of every run, and on every core: the links represent a list for each
family and priority, no thread is in two of them, and the bits say which are not empty;
the lists of a priority hold exactly the threads that belong there; and the getters
enumerate the threads of a family by priority and, within one, by ticket.  Moreover
every call of the scheduler returns. -/
theorem runs_placed (S : QueueShape) {s : QueueRun α} (hs : (runs S).Reachable s) :
    (∀ core, S.isValidCore core → ∃ l : CoreLists α, Holds (s.queue.onCore core) l ∧
      (∀ f p x, x ∈ l (f, p) ↔ s.Belongs S f core x ∧ (s.members x).priority = p) ∧
      ∀ f, ∃ threads : List α, (∀ x, x ∈ threads ↔ s.Belongs S f core x) ∧
        (threads.Pairwise fun a b =>
          (s.members a).priority < (s.members b).priority ∨
            (s.members a).priority = (s.members b).priority ∧ s.ticket a core < s.ticket b core) ∧
        frontOf S f core s.queue = .ok threads.head? ∧
        ∀ pre x post, threads = pre ++ x :: post →
          nextOf S f core x (s.members x) s.queue = .ok post.head?) ∧
    ∀ c : QueueCall α, c.Valid S s → ∃ q, c.run S s s.queue = .ok q := by
  obtain ⟨lists, h⟩ := runs_invariant hs
  refine ⟨fun core hcore => ⟨lists core, h.holds core hcore, ?_, fun f => ?_⟩, fun c hc => ?_⟩
  · exact h.mem_iff hcore
  · refine ⟨enumeration S (lists core) f, h.mem_enumeration hcore f,
      h.enumeration_pairwise hcore f, getFront_eq hcore (h.holds core hcore) f, ?_⟩
    intro pre x post hsplit
    have hx := (h.mem_enumeration hcore f x).1 (by rw [hsplit]; simp)
    exact getNext_eq hcore (h.holds core hcore) f hx.2.1
      ((h.mem_iff hcore f _ x).2 ⟨hx, rfl⟩) hsplit
  · obtain ⟨q, hrun, -⟩ := call_acts h c hc s.queue h.holds
    exact ⟨q, hrun⟩

/-- A first thread of priority 44 on core 0 can be pushed. -/
theorem runs_placed_first_push :
    ∃ q, QueueCall.run ⟨4, 63⟩
      (⟨fun _ => ⟨44, 0, 1#64, false⟩, KPriorityQueue.initialized, fun _ => false, 0,
        fun _ _ => 0⟩ : QueueRun Nat) (.pushBack 7) KPriorityQueue.initialized = .ok q :=
  (runs_placed ⟨4, 63⟩ (.start ⟨rfl, fun _ => rfl, fun _ _ => rfl⟩)).2 (.pushBack 7)
    (.inr ⟨rfl, by decide, fun core hcore => by
      have hbit := hcore.2
      have hpos := hcore.1
      rw [show QueueCall.memberAfter _ (.pushBack 7) = ⟨44, 0, 1#64, false⟩ from rfl,
        BitVec.getLsbD_one] at hbit
      simp only [isValidCore, decide_eq_true_eq, Bool.and_eq_true] at hbit ⊢
      omega, .inr ⟨by decide, by decide⟩⟩)

end QueueRun
end Drippu.Kernel
