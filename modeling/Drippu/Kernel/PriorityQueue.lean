import Drippu.Library.BitWords
import Drippu.Library.Transition
import Drippu.Library.IntrusiveList

/-!
# Kernel - The priority queue of the scheduler

`KPriorityQueue` keeps the runnable threads in queues, one for each family
(scheduled or suggested), priority and core.  A thread has one pair of links for each
core, so that on one core all queues share the links of the threads; a bit set per
core and family says which queues are not empty.

The highest priority is zero, as in the kernel's instantiation: a priority is the
index of its queue.  The priority below the lowest one is valid but has no queue.
-/

namespace Drippu.Kernel

open Library Library.IntrusiveList Function

/-- The assertions of the priority queue. -/
inductive QueueFault where
  | invalidCore
  | invalidPriority
  deriving DecidableEq, Repr

/-- The template parameters of `KPriorityQueue`. -/
structure QueueShape where
  numCores : Nat
  lowestPriority : Nat
  deriving DecidableEq, Repr

namespace QueueShape

def numPriority (S : QueueShape) : Nat := S.lowestPriority + 1

def isValidCore (S : QueueShape) (core : Int) : Bool := 0 ≤ core ∧ core < S.numCores

def isValidPriority (S : QueueShape) (priority : Nat) : Bool := priority ≤ S.lowestPriority + 1

end QueueShape

/-- What the queue reads of a thread. -/
structure Member where
  priority : Nat
  activeCore : Int
  affinityMask : BitVec 64
  isDummyThread : Bool
  deriving DecidableEq, Repr

namespace Member

def getAffinity (mask : BitVec 64) (core : Int) : Bool :=
  (mask &&& (1#64 <<< core.toNat)) ≠ 0#64

end Member

/-- The links that the threads keep for each core. -/
abbrev Entries (α : Type) := α → Int → Link α

/-- The queues of one priority: a root for each core. -/
structure KPerCoreQueue (α : Type) where
  root : Int → Link α

variable {α : Type} [DecidableEq α]

namespace KPerCoreQueue

/-- The links of the queue of a core. -/
def links (q : KPerCoreQueue α) (entries : Entries α) (core : Int) : Links α :=
  join (fun member => entries member core) (q.root core)

/-- Writes the links of the queue of a core. -/
def store (q : KPerCoreQueue α) (entries : Entries α) (core : Int) (links : Links α) :
    Entries α × KPerCoreQueue α :=
  (fun member c => if c = core then links (some member) else entries member c,
    ⟨update q.root core (links none)⟩)

def getFront (q : KPerCoreQueue α) (core : Int) : Option α := (q.root core).next

/-- Returns with the new links whether the queue was empty. -/
def pushBack (q : KPerCoreQueue α) (entries : Entries α) (core : Int) (member : α) :
    (Entries α × KPerCoreQueue α) × Bool :=
  let tail := (q.root core).prev
  (q.store entries core (IntrusiveList.pushBack (q.links entries core) member), tail.isNone)

def pushFront (q : KPerCoreQueue α) (entries : Entries α) (core : Int) (member : α) :
    (Entries α × KPerCoreQueue α) × Bool :=
  let head := (q.root core).next
  (q.store entries core (IntrusiveList.pushFront (q.links entries core) member), head.isNone)

/-- Returns with the new links whether the queue became empty. -/
def remove (q : KPerCoreQueue α) (entries : Entries α) (core : Int) (member : α) :
    (Entries α × KPerCoreQueue α) × Bool :=
  let stored := q.store entries core (IntrusiveList.remove (q.links entries core) member)
  (stored, (stored.2.getFront core).isNone)

end KPerCoreQueue

/-- The queues of one family. -/
structure KPriorityQueueImpl (α : Type) where
  queues : Nat → KPerCoreQueue α
  availablePriorities : Int → Nat → Bool

namespace KPriorityQueueImpl

variable (S : QueueShape)

/-- The assertions of every call on one queue of the family. -/
def guarded {β : Type} (priority : Nat) (core : Int) (result : β) : Except QueueFault β :=
  if !S.isValidCore core then .error .invalidCore
  else if !S.isValidPriority priority then .error .invalidPriority
  else .ok result

/-- Sets or resets the bit of a queue. -/
def setAvailable (impl : KPriorityQueueImpl α) (core : Int) (priority : Nat) (bit : Bool) :
    KPriorityQueueImpl α :=
  { impl with
    availablePriorities := update impl.availablePriorities core
      (update (impl.availablePriorities core) priority bit) }

/-- A call on one queue.  When it returns true, the bit of the queue changes. -/
def updateQueue
    (op : KPerCoreQueue α → Entries α → Int → α → (Entries α × KPerCoreQueue α) × Bool)
    (bit : Bool) (priority : Nat) (core : Int) (member : α)
    (state : Entries α × KPriorityQueueImpl α) :
    Except QueueFault (Entries α × KPriorityQueueImpl α) :=
  guarded S priority core <|
    if priority > S.lowestPriority then state
    else
      let result := op (state.2.queues priority) state.1 core member
      let impl := { state.2 with queues := update state.2.queues priority result.1.2 }
      (result.1.1, if result.2 then impl.setAvailable core priority bit else impl)

def pushBack : Nat → Int → α → Entries α × KPriorityQueueImpl α →
    Except QueueFault (Entries α × KPriorityQueueImpl α) :=
  updateQueue S KPerCoreQueue.pushBack true

def pushFront : Nat → Int → α → Entries α × KPriorityQueueImpl α →
    Except QueueFault (Entries α × KPriorityQueueImpl α) :=
  updateQueue S KPerCoreQueue.pushFront true

def remove : Nat → Int → α → Entries α × KPriorityQueueImpl α →
    Except QueueFault (Entries α × KPriorityQueueImpl α) :=
  updateQueue S KPerCoreQueue.remove false

/-- Removes a thread from a queue and pushes it again.  The bit does not change. -/
def requeue
    (op : KPerCoreQueue α → Entries α → Int → α → (Entries α × KPerCoreQueue α) × Bool)
    (priority : Nat) (core : Int) (member : α) (state : Entries α × KPriorityQueueImpl α) :
    Except QueueFault (Entries α × KPriorityQueueImpl α) :=
  guarded S priority core <|
    if priority ≤ S.lowestPriority then
      let removed := ((state.2.queues priority).remove state.1 core member).1
      let pushed := (op removed.2 removed.1 core member).1
      (pushed.1, { state.2 with queues := update state.2.queues priority pushed.2 })
    else state

def moveToFront : Nat → Int → α → Entries α × KPriorityQueueImpl α →
    Except QueueFault (Entries α × KPriorityQueueImpl α) :=
  requeue S KPerCoreQueue.pushFront

/-- Returns with the new state the front of the queue. -/
def moveToBack (priority : Nat) (core : Int) (member : α)
    (state : Entries α × KPriorityQueueImpl α) :
    Except QueueFault ((Entries α × KPriorityQueueImpl α) × Option α) := do
  let state ← requeue S KPerCoreQueue.pushBack priority core member state
  if priority ≤ S.lowestPriority then
    return (state, (state.2.queues priority).getFront core)
  else
    return (state, none)

/-- The first set bit from an index on, or the number of bits. -/
def firstSet (bits : Nat → Bool) (size start : Nat) : Nat :=
  ((List.range' start (size - start)).find? bits).getD size

def getNextSet (bits : Nat → Bool) (size n : Nat) : Nat := firstSet bits size (n + 1)

def getFront (core : Int) (impl : KPriorityQueueImpl α) : Except QueueFault (Option α) :=
  if !S.isValidCore core then .error .invalidCore
  else
    let priority := firstSet (impl.availablePriorities core) S.numPriority 0
    .ok (if priority ≤ S.lowestPriority then (impl.queues priority).getFront core else none)

def getNext (core : Int) (member : α) (memberPriority : Nat)
    (state : Entries α × KPriorityQueueImpl α) : Except QueueFault (Option α) :=
  if !S.isValidCore core then .error .invalidCore
  else
    match (state.1 member core).next with
    | some next => .ok (some next)
    | none =>
      let priority := getNextSet (state.2.availablePriorities core) S.numPriority memberPriority
      .ok (if priority ≤ S.lowestPriority then (state.2.queues priority).getFront core
        else none)

end KPriorityQueueImpl

/-- The two families of queues. -/
inductive QueueFamily where
  | scheduled
  | suggested
  deriving DecidableEq, Repr

/-- The scheduled and the suggested queue, with the links of the threads. -/
structure KPriorityQueue (α : Type) where
  queue : QueueFamily → KPriorityQueueImpl α
  entries : Entries α

namespace KPriorityQueue

/-- All queues are empty. -/
def initialized : KPriorityQueue α where
  queue _ := { queues := fun _ => ⟨fun _ => ⟨none, none⟩⟩, availablePriorities := fun _ _ => false }
  entries _ _ := ⟨none, none⟩

/-- A call on one of the families. -/
def onQueue (family : QueueFamily)
    (op : Entries α × KPriorityQueueImpl α → Except QueueFault (Entries α × KPriorityQueueImpl α))
    (q : KPriorityQueue α) : Except QueueFault (KPriorityQueue α) := do
  let state ← op (q.entries, q.queue family)
  return ⟨update q.queue family state.2, state.1⟩

/-! ## Affinity masks -/

def clearAffinityBit (affinity : BitVec 64) (core : Int) : BitVec 64 :=
  affinity &&& ~~~(1#64 <<< core.toNat)

/-- The lowest core of a mask, and the mask without it. -/
def getNextCore (affinity : BitVec 64) : Int × BitVec 64 :=
  let core : Int := affinity.ctz.toNat
  (core, clearAffinityBit affinity core)

/-- The loop over the cores of a mask.  Every round clears a bit, so that as many
rounds as there are bits are enough. -/
def visitCores (body : Int → KPriorityQueue α → Except QueueFault (KPriorityQueue α)) :
    Nat → BitVec 64 → KPriorityQueue α → Except QueueFault (KPriorityQueue α)
  | 0, _, q => .ok q
  | rounds + 1, affinity, q =>
    if affinity = 0#64 then .ok q
    else do
      let q ← body (getNextCore affinity).1 q
      visitCores body rounds (getNextCore affinity).2 q

/-- Visits the scheduled queue of the active core, if there is one, and the suggested
queues of the other cores of the mask. -/
def visitQueues (S : QueueShape)
    (scheduled suggested : Nat → Int → α → Entries α × KPriorityQueueImpl α →
      Except QueueFault (Entries α × KPriorityQueueImpl α))
    (priority : Nat) (member : α) (m : Member) (q : KPriorityQueue α) :
    Except QueueFault (KPriorityQueue α) :=
  let suggest core := onQueue .suggested (suggested priority core member)
  if !S.isValidPriority priority then .error .invalidPriority
  else if m.activeCore ≥ 0 then do
    let q ← q.onQueue .scheduled (scheduled priority m.activeCore member)
    visitCores suggest 64 (clearAffinityBit m.affinityMask m.activeCore) q
  else visitCores suggest 64 m.affinityMask q

/-! ## The calls of the scheduler -/

section
variable (S : QueueShape)

def pushBackAt : Nat → α → Member → KPriorityQueue α → Except QueueFault (KPriorityQueue α) :=
  visitQueues S (KPriorityQueueImpl.pushBack S) (KPriorityQueueImpl.pushBack S)

/-- In front of its core's queue only: the suggested queues are pushed at the back. -/
def pushFrontAt : Nat → α → Member → KPriorityQueue α → Except QueueFault (KPriorityQueue α) :=
  visitQueues S (KPriorityQueueImpl.pushFront S) (KPriorityQueueImpl.pushBack S)

def removeAt : Nat → α → Member → KPriorityQueue α → Except QueueFault (KPriorityQueue α) :=
  visitQueues S (KPriorityQueueImpl.remove S) (KPriorityQueueImpl.remove S)

def pushBack (member : α) (m : Member) (q : KPriorityQueue α) :
    Except QueueFault (KPriorityQueue α) :=
  if m.isDummyThread then .ok q else q.pushBackAt S m.priority member m

def remove (member : α) (m : Member) (q : KPriorityQueue α) :
    Except QueueFault (KPriorityQueue α) :=
  if m.isDummyThread then .ok q else q.removeAt S m.priority member m

def moveToScheduledFront (member : α) (m : Member) (q : KPriorityQueue α) :
    Except QueueFault (KPriorityQueue α) :=
  if m.isDummyThread then .ok q
  else q.onQueue .scheduled (KPriorityQueueImpl.moveToFront S m.priority m.activeCore member)

/-- Returns with the new queue the thread at the front. -/
def moveToScheduledBack (member : α) (m : Member) (q : KPriorityQueue α) :
    Except QueueFault (KPriorityQueue α × Option α) :=
  if m.isDummyThread then .ok (q, none)
  else do
    let (state, front) ← KPriorityQueueImpl.moveToBack S m.priority m.activeCore member
      (q.entries, q.queue .scheduled)
    return (⟨update q.queue .scheduled state.2, state.1⟩, front)

def changePriority (prevPriority : Nat) (isRunning : Bool) (member : α) (m : Member)
    (q : KPriorityQueue α) : Except QueueFault (KPriorityQueue α) :=
  if m.isDummyThread then .ok q
  else if !S.isValidPriority prevPriority then .error .invalidPriority
  else do
    let q ← q.removeAt S prevPriority member m
    if isRunning then q.pushFrontAt S m.priority member m
    else q.pushBackAt S m.priority member m

/-- The family of the queue in which a thread with an active core is on a core. -/
def familyOn (activeCore core : Int) : QueueFamily :=
  if core = activeCore then .scheduled else .suggested

/-- The loop of `ChangeAffinityMask` over all cores: a call for each core of the
mask, on the scheduled queue of the active core and the suggested queue of the others. -/
def visitAffinity (op : Nat → Int → α → Entries α × KPriorityQueueImpl α →
      Except QueueFault (Entries α × KPriorityQueueImpl α))
    (priority : Nat) (member : α) (activeCore : Int) (mask : BitVec 64) :
    List Nat → KPriorityQueue α → Except QueueFault (KPriorityQueue α)
  | [], q => .ok q
  | core :: cores, q =>
    if Member.getAffinity mask core then do
      let q ← q.onQueue (familyOn activeCore core) (op priority core member)
      visitAffinity op priority member activeCore mask cores q
    else visitAffinity op priority member activeCore mask cores q

def changeAffinityMask (prevCore : Int) (prevAffinity : BitVec 64) (member : α) (m : Member)
    (q : KPriorityQueue α) : Except QueueFault (KPriorityQueue α) :=
  if m.isDummyThread then .ok q
  else do
    let q ← visitAffinity (KPriorityQueueImpl.remove S) m.priority member prevCore prevAffinity
      (List.range S.numCores) q
    visitAffinity (KPriorityQueueImpl.pushBack S) m.priority member m.activeCore m.affinityMask
      (List.range S.numCores) q

/-- A call on a queue of the given core, when that is one. -/
def onCoreQueue (core : Int) (family : QueueFamily)
    (op : Nat → Int → α → Entries α × KPriorityQueueImpl α →
      Except QueueFault (Entries α × KPriorityQueueImpl α))
    (member : α) (m : Member) (q : KPriorityQueue α) : Except QueueFault (KPriorityQueue α) :=
  if core ≥ 0 then q.onQueue family (op m.priority core member) else .ok q

def changeCore (prevCore : Int) (member : α) (m : Member) (toFront : Bool)
    (q : KPriorityQueue α) : Except QueueFault (KPriorityQueue α) :=
  if m.isDummyThread then .ok q
  else if prevCore ≠ m.activeCore then do
    let push := if toFront then KPriorityQueueImpl.pushFront S else KPriorityQueueImpl.pushBack S
    let q ← q.onCoreQueue prevCore .scheduled (KPriorityQueueImpl.remove S) member m
    let q ← q.onCoreQueue m.activeCore .suggested (KPriorityQueueImpl.remove S) member m
    let q ← q.onCoreQueue m.activeCore .scheduled push member m
    q.onCoreQueue prevCore .suggested (KPriorityQueueImpl.pushBack S) member m
  else .ok q

def getScheduledFront (core : Int) (q : KPriorityQueue α) : Except QueueFault (Option α) :=
  (q.queue .scheduled).getFront S core

def getSuggestedFront (core : Int) (q : KPriorityQueue α) : Except QueueFault (Option α) :=
  (q.queue .suggested).getFront S core

def getScheduledNext (core : Int) (member : α) (m : Member) (q : KPriorityQueue α) :
    Except QueueFault (Option α) :=
  KPriorityQueueImpl.getNext S core member m.priority (q.entries, q.queue .scheduled)

def getSuggestedNext (core : Int) (member : α) (m : Member) (q : KPriorityQueue α) :
    Except QueueFault (Option α) :=
  KPriorityQueueImpl.getNext S core member m.priority (q.entries, q.queue .suggested)

end
end KPriorityQueue
end Drippu.Kernel
