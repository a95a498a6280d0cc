import Drippu.Kernel.PriorityQueue

/-!
# Kernel - The lists behind the priority queue

What the pointers of `KPriorityQueue` represent: on every core a list of threads
for each family and priority.  A call on a queue of one core changes the lists of that
core only, and the loops over the cores of a mask change the lists of those cores.
-/

namespace Drippu.Kernel
open Library Library.IntrusiveList Function QueueShape KPriorityQueueImpl IntrusiveList List Member

/-- A queue of a core: its family and its priority. -/
abbrev QueueKey := QueueFamily × Nat

/-- Where a call leaves a thread on a core. -/
inductive Spot where
  | nowhere
  | back (k : QueueKey)
  | front (k : QueueKey)
  deriving DecidableEq, Repr

/-- The queue of a spot. -/
def Spot.key : Spot → Option QueueKey
  | nowhere => none
  | back k => some k
  | front k => some k

@[simp]
lemma Spot.nowhere_key : Spot.nowhere.key = none :=
  rfl

namespace QueueShape

variable (S : QueueShape)

/-- The queue of a family and a priority, if the priority has one. -/
def key (k : QueueKey) : Option QueueKey := if k.2 ≤ S.lowestPriority then some k else none

/-- The back of a queue, if there is one. -/
def back (k : QueueKey) : Spot := if k.2 ≤ S.lowestPriority then .back k else .nowhere

/-- The front of a queue, if there is one. -/
def front (k : QueueKey) : Spot := if k.2 ≤ S.lowestPriority then .front k else .nowhere

@[simp]
lemma back_key (k : QueueKey) : (S.back k).key = S.key k := by
  simp only [back, key]
  split <;> rfl

@[simp]
lemma front_key (k : QueueKey) : (S.front k).key = S.key k := by
  simp only [front, key]
  split <;> rfl

end QueueShape

namespace KPriorityQueue

/-- The part of the priority queue that belongs to one core. -/
@[ext]
structure CoreView (α : Type) where
  entry : α → Link α
  root : QueueKey → Link α
  available : QueueKey → Bool

variable {α : Type}

def onCore (q : KPriorityQueue α) (core : Int) : CoreView α where
  entry member := q.entries member core
  root k := ((q.queue k.1).queues k.2).root core
  available k := (q.queue k.1).availablePriorities core k.2

/-- The lists of one core. -/
abbrev CoreLists (α : Type) := QueueKey → List α

/-- The links of a core represent its lists, and its bits say which are not empty. -/
structure Holds (v : CoreView α) (l : CoreLists α) : Prop where
  shared : Shared v.entry v.root l
  available : ∀ k, v.available k = !(l k).isEmpty

/-- A call that takes the lists of some cores to other lists and does not touch the
other cores. -/
def ActsOn (cores : Int → Prop)
    (op : KPriorityQueue α → Except QueueFault (KPriorityQueue α))
    (lists lists' : Int → CoreLists α) : Prop :=
  ∀ q, (∀ c, cores c → Holds (q.onCore c) (lists c)) →
    ∃ q', op q = .ok q' ∧ (∀ c, cores c → Holds (q'.onCore c) (lists' c)) ∧
      ∀ c, ¬ cores c → q'.onCore c = q.onCore c

/-- A call on the queues of one core. -/
abbrev ActsAt (core : Int) (op : KPriorityQueue α → Except QueueFault (KPriorityQueue α))
    (l l' : CoreLists α) : Prop :=
  ActsOn (· = core) op (fun _ => l) fun _ => l'

section
variable {cores cores' : Int → Prop} {lists lists' lists'' : Int → CoreLists α}
  {op op' : KPriorityQueue α → Except QueueFault (KPriorityQueue α)}

lemma ActsOn.done (h : ∀ c, cores c → lists' c = lists c) :
    ActsOn cores (fun q => .ok q) lists lists' := by
  intro q hq
  refine ⟨q, rfl, fun c hc => ?_, fun _ _ => rfl⟩
  rw [h c hc]
  exact hq c hc

section
variable (h : ActsOn cores op lists lists')
include h

lemma ActsOn.bind (h' : ActsOn cores op' lists' lists'') :
    ActsOn cores (fun q => op q >>= op') lists lists'' := by
  intro q hq
  obtain ⟨q₁, hrun₁, hholds₁, hframe₁⟩ := h q hq
  obtain ⟨q₂, hrun₂, hholds₂, hframe₂⟩ := h' q₁ hholds₁
  refine ⟨q₂, ?_, hholds₂, fun c hc => (hframe₂ c hc).trans (hframe₁ c hc)⟩
  simp only [hrun₁]
  exact hrun₂

/-- A call also acts on more cores, if it does not change their lists. -/
lemma ActsOn.widen (hsub : ∀ c, cores c → cores' c)
    (hsame : ∀ c, cores' c → ¬ cores c → lists' c = lists c) :
    ActsOn cores' op lists lists' := by
  intro q hq
  obtain ⟨q', hrun, hholds, hframe⟩ := h q fun c hc => hq c (hsub c hc)
  refine ⟨q', hrun, fun c hc => ?_, fun c hc => hframe c (mt (hsub c) hc)⟩
  by_cases hin : cores c
  · exact hholds c hin
  · rw [hframe c hin, hsame c hc hin]
    exact hq c hc

lemma ActsOn.congr (hcores : ∀ c, cores' c ↔ cores c) : ActsOn cores' op lists lists' := by
  obtain rfl : cores' = cores := funext fun c => propext (hcores c)
  exact h

lemma ActsOn.congr_lists (hlists : ∀ c, cores c → lists'' c = lists' c) :
    ActsOn cores op lists lists'' := by
  intro q hq
  obtain ⟨q', hrun, hholds, hframe⟩ := h q hq
  refine ⟨q', hrun, fun c hc => ?_, hframe⟩
  rw [hlists c hc]
  exact hholds c hc

lemma ActsOn.extend [DecidablePred cores] (hsub : ∀ c, cores c → cores' c) :
    ActsOn cores' op lists fun c => if cores c then lists' c else lists c :=
  (h.congr_lists fun _ hc => if_pos hc).widen hsub fun _ _ hc => if_neg hc

end

lemma ActsOn.single {core : Int} (h : ActsAt core op (lists core) (lists' core)) :
    ActsOn (· = core) op lists lists' := by
  intro q hq
  obtain ⟨q', hrun, hholds, hframe⟩ := h q fun c hc => by
    have := hq c hc
    rwa [hc] at this ⊢
  refine ⟨q', hrun, fun c hc => ?_, hframe⟩
  have := hholds c hc
  rwa [hc] at this ⊢

/-- A call on one core, and then a call on other ones. -/
lemma ActsOn.cons {core : Int} (h : ActsAt core op (lists core) (lists' core))
    (h' : ActsOn cores op' lists lists') (hnot : ¬ cores core)
    (hcores : ∀ c, cores' c ↔ c = core ∨ cores c) :
    ActsOn cores' (fun q => op q >>= op') lists lists' := by
  intro q hq
  obtain ⟨q₁, hrun₁, hholds₁, hframe₁⟩ := ActsOn.single h q fun c hc =>
    hq c ((hcores c).2 (.inl hc))
  obtain ⟨q₂, hrun₂, hholds₂, hframe₂⟩ := h' q₁ fun c hc => by
    rw [hframe₁ c (by rintro rfl; exact hnot hc)]
    exact hq c ((hcores c).2 (.inr hc))
  refine ⟨q₂, ?_, fun c hc => ?_, fun c hc => ?_⟩
  · simp only [hrun₁]
    exact hrun₂
  · obtain rfl | hc := (hcores c).1 hc
    · rw [hframe₂ _ hnot]
      exact hholds₁ _ rfl
    · exact hholds₂ c hc
  · rw [hcores, not_or] at hc
    exact (hframe₂ c hc.2).trans (hframe₁ c hc.1)

end

/-! ## Calls on one queue -/

/-- Storing the links of a queue, with new bits for its family. -/
def stored (q : KPriorityQueue α) (f : QueueFamily) (p : Nat) (core : Int) (links : Links α)
    (bits : Int → Nat → Bool) : KPriorityQueue α :=
  let stored := ((q.queue f).queues p).store q.entries core links
  ⟨update q.queue f
    { queues := update (q.queue f).queues p stored.2, availablePriorities := bits },
    stored.1⟩

lemma stored_onCore (q : KPriorityQueue α) (f : QueueFamily) (p : Nat) (core : Int)
    (links : Links α) (bits : Int → Nat → Bool) (c : Int) :
    (q.stored f p core links bits).onCore c =
      { entry := fun x => if c = core then links (some x) else (q.onCore c).entry x
        root := update (q.onCore c).root (f, p)
          (if c = core then links none else (q.onCore c).root (f, p))
        available := fun k => if k.1 = f then bits c k.2 else (q.onCore c).available k } := by
  ext1
  · simp only [onCore, stored, KPerCoreQueue.store]
  all_goals
    funext ⟨f', p'⟩
    by_cases hf : f' = f
    · subst hf
      by_cases hp : p' = p <;> by_cases hc : c = core <;>
        simp [onCore, stored, KPerCoreQueue.store, hp, hc]
    · simp [onCore, stored, hf]

variable {S : QueueShape} {f : QueueFamily} {p : Nat} {core : Int} {x : α} {l : CoreLists α}
  {op : KPerCoreQueue α → Entries α → Int → α → (Entries α × KPerCoreQueue α) × Bool}

/-- A call on one queue acts on its list, if it does so on all links that represent
the list and tells rightly when the list becomes or stops being empty. -/
lemma acts_updateQueue {g : Links α → Links α} {bit : Bool} {list : List α}
    (hcore : S.isValidCore core) (hp : p ≤ S.lowestPriority)
    (hstore : ∀ q entries, (op q entries core x).1 =
      q.store entries core (g (q.links entries core)))
    (hshared : ∀ entry root, Shared entry root l →
      Shared (fun y => g (join entry (root (f, p))) (some y))
        (update root (f, p) (g (join entry (root (f, p))) none)) (update l (f, p) list))
    (hbit : ∀ q entries, Represents (q.links entries core) (l (f, p)) →
      Represents (g (q.links entries core)) list →
      (!list.isEmpty) = if (op q entries core x).2 then bit else !(l (f, p)).isEmpty) :
    ActsAt core (onQueue f (updateQueue S op bit p core x)) l
      (update l (f, p) list) := by
  intro q hq
  have hold : Holds (q.onCore core) l := hq core rfl
  have hnew := hshared _ _ hold.shared
  obtain ⟨bits, hbits⟩ : ∃ bits, bits =
      if (op ((q.queue f).queues p) q.entries core x).2 then
        update (q.queue f).availablePriorities core
          (update ((q.queue f).availablePriorities core) p bit)
      else (q.queue f).availablePriorities := ⟨_, rfl⟩
  refine ⟨q.stored f p core (g (((q.queue f).queues p).links q.entries core)) bits, ?_,
    fun c hc => ?_, fun c hc => ?_⟩
  · have hvalid : S.isValidPriority p = true := by
      simp only [isValidPriority, decide_eq_true_eq]
      omega
    simp only [onQueue, updateQueue, guarded, hcore,
      hvalid, Bool.not_true, Bool.false_eq_true, if_false, not_lt.2 hp, hstore, bind,
      Except.bind, pure, Except.pure, stored, hbits]
    split <;> rfl
  · subst hc
    simp only [stored_onCore, if_true]
    refine ⟨hnew, fun k => ?_⟩
    change (if k.1 = f then bits c k.2 else (q.onCore c).available k) = _
    by_cases hk : k = (f, p)
    · subst hk
      have hsame := hbit ((q.queue f).queues p) q.entries (hold.shared.represents (f, p)) (by
        have := hnew.represents (f, p)
        rw [update_self, update_self] at this
        exact this.congr rfl fun _ _ => rfl)
      rw [if_pos rfl, update_self, hsame, hbits]
      split
      · simp
      · exact hold.available (f, p)
    rw [update_of_ne hk, ← hold.available k]
    obtain ⟨f', p'⟩ := k
    by_cases hf : f' = f
    · subst hf
      have hp' : p' ≠ p := fun hp' => hk (by rw [hp'])
      rw [if_pos rfl, hbits]
      split
      · simp [onCore, hp']
      · rfl
    · simp [hf]
  · simp only [stored_onCore, if_neg hc, update_eq_self]
    refine CoreView.ext rfl rfl (funext fun k => ?_)
    change (if k.1 = f then bits c k.2 else (q.onCore c).available k) = _
    split <;> rename_i hf
    · rw [hbits]
      split
      · simp [hc, onCore, hf]
      · simp [onCore, hf]
    · rfl

lemma links_store (q : KPerCoreQueue α) (entries : Entries α) (links : Links α) :
    (q.store entries core links).2.links (q.store entries core links).1 core = links := by
  funext a
  cases a <;> simp [KPerCoreQueue.links, KPerCoreQueue.store, join]

lemma store_store (q : KPerCoreQueue α) (entries : Entries α) (links links' : Links α) :
    (q.store entries core links).2.store (q.store entries core links).1 core links' =
      q.store entries core links' := by
  refine Prod.ext ?_ ?_
  · funext y c
    by_cases hc : c = core <;> simp [KPerCoreQueue.store, hc]
  · simp [KPerCoreQueue.store]

/-! ## Spots in the lists of a core -/

section
variable [DecidableEq α]

/-- Takes a thread from the lists of a core and puts it at a spot. -/
def CoreLists.requeue (x : α) (spot : Spot) (l : CoreLists α) : CoreLists α :=
  match spot with
  | .nowhere => fun k => (l k).erase x
  | .back k => update (fun k => (l k).erase x) k ((l k).erase x ++ [x])
  | .front k => update (fun k => (l k).erase x) k (x :: (l k).erase x)

/-- The thread is in the given list, and in no other one. -/
def CoreLists.At (l : CoreLists α) (x : α) (key : Option QueueKey) : Prop :=
  ∀ k, x ∈ l k ↔ key = some k

namespace CoreLists

variable {l : CoreLists α} {x y : α} {k : QueueKey} {spot : Spot}

omit [DecidableEq α] in
lemma At.not_mem (h : l.At x none) (k : QueueKey) : x ∉ l k := fun hx => by
  cases (h k).1 hx

lemma erase_of_at_none (h : l.At x none) : (fun k => (l k).erase x) = l :=
  funext fun k => erase_of_not_mem (h.not_mem k)

lemma erase_of_at_some (h : l.At x (some k)) :
    (fun k => (l k).erase x) = update l k ((l k).erase x) := by
  funext k'
  by_cases hk : k' = k
  · subst hk
    rw [update_self]
  rw [update_of_ne hk]
  refine erase_of_not_mem fun hx => hk ?_
  have := (h k').1 hx
  cases this
  rfl

section
variable (hnodup : ∀ k, (l k).Nodup)
include hnodup

lemma requeue_nowhere_at : (l.requeue x .nowhere).At x none := by
  intro k
  refine ⟨fun hx => absurd hx (hnodup k).not_mem_erase, ?_⟩
  rintro ⟨⟩

lemma requeue_requeue_nowhere (spot : Spot) :
    (l.requeue x .nowhere).requeue x spot = l.requeue x spot := by
  have herase : (fun k => ((l k).erase x).erase x) = fun k => (l k).erase x :=
    erase_of_at_none (requeue_nowhere_at hnodup)
  have herase' : ∀ k, ((l k).erase x).erase x = (l k).erase x := fun k => congrFun herase k
  cases spot with
  | nowhere => exact herase
  | back k | front k => simp [requeue, herase']

lemma mem_requeue_self : (l.requeue x spot).At x spot.key := by
  intro k
  have hnot := (hnodup k).not_mem_erase (a := x)
  cases spot with
  | nowhere => simpa [requeue, Spot.key] using hnot
  | back k' | front k' =>
    by_cases hk : k = k'
    · subst hk
      simp [requeue, Spot.key]
    · simpa [requeue, Spot.key, hk, Ne.symm hk] using hnot

end

lemma mem_requeue_of_ne (hy : y ≠ x) : y ∈ l.requeue x spot k ↔ y ∈ l k := by
  have herase : y ∈ (l k).erase x ↔ y ∈ l k := mem_erase_of_ne hy
  cases spot with
  | nowhere => exact herase
  | back k' | front k' =>
    by_cases hk : k = k'
    · subst hk
      simp [requeue, hy]
    · simp [requeue, hk, herase]

end CoreLists

section

/-- Moving a thread within its queue is a call that never changes the bit. -/
lemma requeue_eq_updateQueue :
    requeue S op p core x =
      updateQueue S (fun q entries core x =>
        ((op (q.remove entries core x).1.2 (q.remove entries core x).1.1 core x).1, false))
        true p core x := by
  funext state
  by_cases hp : p ≤ S.lowestPriority
  · simp [requeue, updateQueue, hp, not_lt.2 hp]
  · simp [requeue, updateQueue, hp, lt_of_not_ge hp]

variable (hcore : S.isValidCore core) (hvalid : S.isValidPriority p)
include hcore hvalid

/-- Without a queue nothing is done. -/
lemma acts_updateQueue_of_lt {bit : Bool} (hp : ¬ p ≤ S.lowestPriority) (hx : l.At x none) :
    ActsAt core (onQueue f (updateQueue S op bit p core x)) l
      (l.requeue x .nowhere) := by
  have herase : l.requeue x .nowhere = l := CoreLists.erase_of_at_none hx
  intro q hq
  refine ⟨q, ?_, herase.symm ▸ hq, fun _ _ => rfl⟩
  simp [onQueue, updateQueue, guarded, hcore, hvalid,
    lt_of_not_ge hp, bind, Except.bind, pure, Except.pure]

lemma acts_pushBack (hx : l.At x none) :
    ActsAt core (onQueue f (KPriorityQueueImpl.pushBack S p core x)) l
      (l.requeue x (S.back (f, p))) := by
  rw [back]
  split_ifs with hp
  · have herase := CoreLists.erase_of_at_none hx
    have hback : l.requeue x (.back (f, p)) = update l (f, p) (l (f, p) ++ [x]) := by
      simp [CoreLists.requeue, herase, congrFun herase (f, p)]
    rw [hback]
    refine acts_updateQueue (g := fun links => IntrusiveList.pushBack links x) hcore hp
      (fun _ _ => rfl) (fun _ _ h => h.pushBack hx.not_mem) fun q entries hold _ => ?_
    have hflag : (KPerCoreQueue.pushBack q entries core x).2 = (l (f, p)).isEmpty :=
      hold.prev_isNone
    rw [hflag]
    cases l (f, p) <;> simp
  · exact acts_updateQueue_of_lt hcore hvalid hp hx

lemma acts_pushFront (hx : l.At x none) :
    ActsAt core (onQueue f (pushFront S p core x)) l
      (l.requeue x (S.front (f, p))) := by
  rw [front]
  split_ifs with hp
  · have herase := CoreLists.erase_of_at_none hx
    have hfront : l.requeue x (.front (f, p)) = update l (f, p) (x :: l (f, p)) := by
      simp [CoreLists.requeue, herase, congrFun herase (f, p)]
    rw [hfront]
    refine acts_updateQueue (g := fun links => pushFront links x) hcore hp
      (fun _ _ => rfl) (fun _ _ h => h.pushFront hx.not_mem) fun q entries hold _ => ?_
    have hflag : (KPerCoreQueue.pushFront q entries core x).2 = (l (f, p)).isEmpty :=
      hold.next_isNone
    rw [hflag]
    cases l (f, p) <;> simp
  · exact acts_updateQueue_of_lt hcore hvalid hp hx

variable (hx : l.At x (S.key (f, p)))
include hx

lemma acts_remove :
    ActsAt core (onQueue f (KPriorityQueueImpl.remove S p core x)) l (l.requeue x .nowhere) := by
  rw [key] at hx
  split_ifs at hx with hp
  · have herase : l.requeue x .nowhere = update l (f, p) ((l (f, p)).erase x) :=
      CoreLists.erase_of_at_some hx
    have hmem : x ∈ l (f, p) := (hx (f, p)).2 rfl
    rw [herase]
    refine acts_updateQueue (g := fun links => IntrusiveList.remove links x) hcore hp
      (fun _ _ => rfl) (fun _ _ h => h.remove hmem) fun q entries hold hnew => ?_
    have hflag : (KPerCoreQueue.remove q entries core x).2 = ((l (f, p)).erase x).isEmpty := by
      rw [← hnew.next_isNone]
      simp [KPerCoreQueue.remove, KPerCoreQueue.store, KPerCoreQueue.getFront]
    rw [hflag]
    cases hl : (l (f, p)).erase x with
    | nil => simp
    | cons y rest => simp [ne_nil_of_mem hmem]
  · exact acts_updateQueue_of_lt hcore hvalid hp hx

/-- Moving a thread within its list, or where it has none. -/
lemma acts_requeue {g : Links α → Links α} {spot : Spot} {list : List α}
    (hstore : ∀ q entries, (op q entries core x).1 =
      q.store entries core (g (q.links entries core)))
    (hspot : l.At x (some (f, p)) → l.requeue x spot = update l (f, p) list) (hlist : list ≠ [])
    (hshared : x ∈ l (f, p) → ∀ entry root, Shared entry root l →
      Shared (fun y => g (IntrusiveList.remove (join entry (root (f, p))) x) (some y))
        (update root (f, p) (g (IntrusiveList.remove (join entry (root (f, p))) x) none))
        (update l (f, p) list)) :
    ActsAt core (onQueue f (requeue S op p core x)) l
      (l.requeue x (if p ≤ S.lowestPriority then spot else .nowhere)) := by
  rw [requeue_eq_updateQueue]
  rw [key] at hx
  split_ifs at hx ⊢ with hp
  · have hmem := (hx (f, p)).2 rfl
    rw [hspot hx]
    refine acts_updateQueue (g := fun links => g (IntrusiveList.remove links x)) hcore hp
      (fun q entries => ?_) (hshared hmem) fun _ _ _ _ => ?_
    · simp [hstore, KPerCoreQueue.remove, links_store, store_store]
    · cases list <;> cases hl : l (f, p) <;> simp_all
  · exact acts_updateQueue_of_lt hcore hvalid hp hx

lemma acts_moveToFront :
    ActsAt core (onQueue f (moveToFront S p core x)) l
      (l.requeue x (S.front (f, p))) :=
  acts_requeue (g := fun links => pushFront links x) hcore hvalid hx (fun _ _ => rfl)
    (fun h => by simp [CoreLists.requeue, CoreLists.erase_of_at_some h]) (cons_ne_nil _ _)
    fun hmem _ _ h => h.moveToFront hmem

lemma acts_moveToBack :
    ActsAt core (onQueue f (requeue S KPerCoreQueue.pushBack p core x)) l
      (l.requeue x (S.back (f, p))) :=
  acts_requeue (g := fun links => IntrusiveList.pushBack links x) hcore hvalid hx (fun _ _ => rfl)
    (fun h => by simp [CoreLists.requeue, CoreLists.erase_of_at_some h]) (by simp)
    fun hmem _ _ h => h.moveToBack hmem

end
end

/-! ## The loops over the cores -/

/-- The core is in the mask. -/
def HasCore (mask : BitVec 64) (core : Int) : Prop := 0 ≤ core ∧ mask.getLsbD core.toNat = true

instance (mask : BitVec 64) (core : Int) : Decidable (HasCore mask core) :=
  inferInstanceAs (Decidable (_ ∧ _))

variable {mask : BitVec 64}

lemma getAffinity_iff {core : Int} (h : 0 ≤ core) :
    getAffinity mask core = true ↔ HasCore mask core := by
  simp [getAffinity, HasCore, and_one_shiftLeft_eq_zero, h]

lemma hasCore_clearAffinityBit {core c : Int} (h : 0 ≤ core) :
    HasCore (clearAffinityBit mask core) c ↔ c ≠ core ∧ HasCore mask c := by
  simp only [HasCore, clearAffinityBit, getLsbD_andNot_one_shiftLeft, Bool.and_eq_true,
    Bool.not_eq_true', decide_eq_false_iff_not]
  constructor
  · rintro ⟨hc, hbit, hne⟩
    exact ⟨fun heq => hne (by rw [heq]), hc, hbit⟩
  · rintro ⟨hne, hc, hbit⟩
    exact ⟨hc, hbit, by omega⟩

lemma getNextCore_spec (h : mask ≠ 0#64) :
    HasCore mask (getNextCore mask).1 ∧
      (∀ c, HasCore (getNextCore mask).2 c ↔ c ≠ (getNextCore mask).1 ∧ HasCore mask c) ∧
      ∀ c, HasCore mask c → (getNextCore mask).1 ≤ c := by
  refine ⟨⟨Int.natCast_nonneg _, BitVec.getLsbD_true_ctz_of_ne_zero h⟩,
    fun c => hasCore_clearAffinityBit (Int.natCast_nonneg _), fun c hc => ?_⟩
  by_contra hlt
  have hlow : c.toNat < mask.ctz.toNat := by
    have := hc.1
    simp only [getNextCore] at hlt
    omega
  rw [HasCore, BitVec.getLsbD_false_of_lt_ctz hlow] at hc
  exact absurd hc.2 (by decide)

section
variable {lists lists' : Int → CoreLists α}

lemma visitCores_succ (body : Int → KPriorityQueue α → Except QueueFault (KPriorityQueue α))
    (rounds : Nat) (mask : BitVec 64) :
    visitCores body (rounds + 1) mask = fun q =>
      if mask = 0#64 then .ok q
      else body (getNextCore mask).1 q >>= visitCores body rounds (getNextCore mask).2 :=
  rfl

lemma visitAffinity_cons (op : Nat → Int → α → Entries α × KPriorityQueueImpl α →
      Except QueueFault (Entries α × KPriorityQueueImpl α))
    (priority : Nat) (x : α) (activeCore : Int) (mask : BitVec 64) (core : Nat)
    (cores : List Nat) :
    visitAffinity op priority x activeCore mask (core :: cores) = fun q =>
      if getAffinity mask core then
        q.onQueue (familyOn activeCore core) (op priority core x) >>=
          visitAffinity op priority x activeCore mask cores
      else visitAffinity op priority x activeCore mask cores q :=
  rfl

lemma visitCores_acts {body : Int → KPriorityQueue α → Except QueueFault (KPriorityQueue α)}
    (rounds : Nat) (hrounds : ∀ c, HasCore mask c → 64 - (rounds : Int) ≤ c)
    (hbody : ∀ c, HasCore mask c → ActsAt c (body c) (lists c) (lists' c)) :
    ActsOn (HasCore mask) (visitCores body rounds mask) lists lists' := by
  induction rounds generalizing mask with
  | zero =>
    -- no core is left
    refine .done fun c hc => ?_
    have hlow := hrounds c hc
    have hhigh := BitVec.lt_of_getLsbD hc.2
    omega
  | succ rounds ih =>
    rw [visitCores_succ]
    by_cases hmask : mask = 0#64
    · simp only [hmask, if_true]
      refine .done fun c hc => ?_
      simp [HasCore] at hc
    simp only [hmask, if_false]
    obtain ⟨hfirst, hrest, hlowest⟩ := getNextCore_spec hmask
    have hloop : ActsOn (HasCore (getNextCore mask).2)
        (visitCores body rounds (getNextCore mask).2) lists lists' := by
      refine ih (fun c hc => ?_) fun c hc => hbody c ((hrest c).1 hc).2
      obtain ⟨hne, hc⟩ := (hrest c).1 hc
      have hle := hlowest c hc
      have hlow := hrounds _ hfirst
      omega
    refine .cons (hbody _ hfirst) hloop (fun hc => ((hrest _).1 hc).1 rfl) fun c => ?_
    rw [hrest]
    by_cases hc : c = (getNextCore mask).1 <;> simp [hc, hfirst]

/-- The calls on the queues of a thread act on the cores of its mask. -/
lemma visitQueues_acts {S : QueueShape} {priority : Nat} {x : α} {m : Member}
    {scheduled suggested : Nat → Int → α → Entries α × KPriorityQueueImpl α →
      Except QueueFault (Entries α × KPriorityQueueImpl α)}
    (hpriority : S.isValidPriority priority)
    (hactive : m.activeCore < 0 ∨ HasCore m.affinityMask m.activeCore)
    (hscheduled : HasCore m.affinityMask m.activeCore →
      ActsAt m.activeCore (onQueue .scheduled (scheduled priority m.activeCore x))
        (lists m.activeCore) (lists' m.activeCore))
    (hsuggested : ∀ c, HasCore m.affinityMask c → c ≠ m.activeCore →
      ActsAt c (onQueue .suggested (suggested priority c x)) (lists c) (lists' c)) :
    ActsOn (HasCore m.affinityMask) (visitQueues S scheduled suggested priority x m)
      lists lists' := by
  have hbits : ∀ (mask : BitVec 64) c, HasCore mask c → 64 - ((64 : Nat) : Int) ≤ c :=
    fun _ c hc => hc.1
  unfold visitQueues
  simp only [hpriority, Bool.not_true, Bool.false_eq_true, if_false]
  by_cases hcore : m.activeCore ≥ 0
  · simp only [hcore, if_true]
    have hin : HasCore m.affinityMask m.activeCore := hactive.resolve_left (by omega)
    have hloop := visitCores_acts 64 (hbits _) fun c
        (hc : HasCore (clearAffinityBit m.affinityMask m.activeCore) c) =>
      hsuggested c ((hasCore_clearAffinityBit hcore).1 hc).2
        ((hasCore_clearAffinityBit hcore).1 hc).1
    refine .cons (hscheduled hin) hloop (fun hc => ((hasCore_clearAffinityBit hcore).1 hc).1 rfl)
      fun c => ?_
    rw [hasCore_clearAffinityBit hcore]
    by_cases hc : c = m.activeCore <;> simp [hc, hin]
  · simp only [hcore, if_false]
    refine visitCores_acts 64 (hbits _) fun c hc => hsuggested c hc ?_
    rintro rfl
    exact hcore hc.1

/-- The loop over a list of cores acts on those that are in the mask. -/
lemma visitAffinity_acts {priority : Nat} {x : α} {activeCore : Int}
    {op : Nat → Int → α → Entries α × KPriorityQueueImpl α →
      Except QueueFault (Entries α × KPriorityQueueImpl α)} {cores : List Nat}
    (hnodup : cores.Nodup) (hop : ∀ c, HasCore mask c →
      ActsAt c (onQueue (familyOn activeCore c) (op priority c x)) (lists c) (lists' c)) :
    ActsOn (fun c => HasCore mask c ∧ ∃ n ∈ cores, c = (n : Int))
      (visitAffinity op priority x activeCore mask cores) lists lists' := by
  induction cores with
  | nil => exact .done fun c hc => by simp at hc
  | cons core cores ih =>
    obtain ⟨hnew, hnodup⟩ := nodup_cons.1 hnodup
    have hcore : (0 : Int) ≤ (core : Int) := Int.natCast_nonneg core
    rw [visitAffinity_cons]
    by_cases hin : HasCore mask core
    · simp only [(getAffinity_iff hcore).2 hin, if_true]
      refine .cons (hop _ hin) (ih hnodup) ?_ fun c => ?_
      · rintro ⟨-, n, hn, heq⟩
        exact hnew (Int.ofNat.inj heq ▸ hn)
      · grind
    have hfalse : ¬ getAffinity mask core = true := fun h =>
      hin ((getAffinity_iff hcore).1 h)
    simp only [hfalse]
    refine (ih hnodup).congr fun c => ?_
    grind

lemma onCoreQueue_acts {S : QueueShape} {m : Member} {x : α} {core : Int}
    {f : QueueFamily} {l' : CoreLists α}
    {op : Nat → Int → α → Entries α × KPriorityQueueImpl α →
      Except QueueFault (Entries α × KPriorityQueueImpl α)}
    (hvalid : 0 ≤ core → S.isValidCore core)
    (hop : 0 ≤ core → ActsAt core (onQueue f (op m.priority core x)) (lists core) l') :
    ActsOn (fun c => S.isValidCore c) (onCoreQueue core f op x m) lists (update lists core l') := by
  unfold onCoreQueue
  by_cases hcore : core ≥ 0
  · simp only [hcore, if_true]
    have hsingle : ActsOn (· = core) (onQueue f (op m.priority core x)) lists
        (update lists core l') := by
      refine .single ?_
      rw [update_self]
      exact hop hcore
    refine hsingle.widen (fun c hc => hc ▸ hvalid hcore) fun c _ hc => ?_
    exact update_of_ne hc _ _
  · simp only [hcore, if_false]
    refine .done fun c hc => update_of_ne ?_ _ _
    simp only [isValidCore, decide_eq_true_eq] at hc
    omega

end
end KPriorityQueue
end Drippu.Kernel
