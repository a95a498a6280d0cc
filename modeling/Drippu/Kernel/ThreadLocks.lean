import Mathlib.Tactic

/-!
# Kernel - Locks with priority inheritance

A thread that waits for a lock waits on the lock info of the lock's owner for its
address key: `LockWithPriorityInheritanceInfo`, which exists as long as somebody
waits on it and keeps its waiters in the order of their priorities.  A thread inherits
the priorities of the threads that wait on its lock infos.

Lock infos are numbered; a number stands for the address of a lock info and is never
used again.  The tree of a lock info is the list of its waiters, into which a waiter is
inserted behind those of the same priority.
-/

namespace Drippu.Kernel

/-- The failed assertions and the uses of null of the lock functions. -/
inductive ThreadFault where
  | waiting
  | kernelWaiters
  | notWaiting
  | notOwner
  | noWaiters
  | basePriority
  | outOfSteps
  deriving DecidableEq, Repr

/-- What the lock functions read and write of a thread. -/
structure KThread where
  basePriority : Int
  priority : Int
  addressKey : Nat
  isKernelAddressKey : Bool
  heldLockInfoList : List Nat
  waitingLockInfo : Option Nat
  numKernelWaiters : Int
  deriving DecidableEq, Repr

/-- A lock info: `LockWithPriorityInheritanceInfo`. -/
structure LockInfo (α : Type) where
  tree : List α
  addressKey : Nat
  isKernelAddressKey : Bool
  owner : Option α
  waiterCount : Nat
  deriving DecidableEq, Repr

/-- The threads and the lock infos.  The lock infos below `nextLock` have been
created. -/
structure KThreads (α : Type) where
  thread : α → KThread
  lock : Nat → LockInfo α
  nextLock : Nat

variable {α : Type} [DecidableEq α]

/-- Inserts a waiter behind those of the same priority. -/
def insertWaiter (priority : α → Int) (waiter : α) : List α → List α
  | [] => [waiter]
  | x :: xs =>
    if priority waiter < priority x then waiter :: x :: xs
    else x :: insertWaiter priority waiter xs

namespace KThreads

variable (s : KThreads α) (t : α)

def modifyThread (f : KThread → KThread) : KThreads α :=
  { s with thread := Function.update s.thread t (f (s.thread t)) }

def modifyLock (l : Nat) (f : LockInfo α → LockInfo α) : KThreads α :=
  { s with lock := Function.update s.lock l (f (s.lock l)) }

/-- The priority of a thread. -/
def priority (s : KThreads α) (t : α) : Int := (s.thread t).priority

/-! ## Lock infos -/

/-- `LockWithPriorityInheritanceInfo::Create`. -/
def createLock (addressKey : Nat) (isKernelAddressKey : Bool) : Nat × KThreads α :=
  (s.nextLock,
    { s with
      lock := Function.update s.lock s.nextLock
        { tree := [], addressKey := addressKey, isKernelAddressKey := isKernelAddressKey,
          owner := none, waiterCount := 0 }
      nextLock := s.nextLock + 1 })

/-- `LockWithPriorityInheritanceInfo::AddWaiter`. -/
def lockAddWaiter (l : Nat) (waiter : α) : KThreads α :=
  (s.modifyLock l fun lock =>
    { lock with
      tree := insertWaiter s.priority waiter lock.tree
      waiterCount := lock.waiterCount + 1 }).modifyThread waiter fun thread =>
        { thread with waitingLockInfo := some l }

/-- `LockWithPriorityInheritanceInfo::RemoveWaiter`.  Returns with the new state
whether there are no more waiters. -/
def lockRemoveWaiter (l : Nat) (waiter : α) : Bool × KThreads α :=
  ((s.lock l).waiterCount - 1 == 0,
    (s.modifyLock l fun lock =>
      { lock with
        tree := lock.tree.erase waiter
        waiterCount := lock.waiterCount - 1 }).modifyThread waiter fun thread =>
          { thread with waitingLockInfo := none })

def getHighestPriorityWaiter (l : Nat) : Option α := (s.lock l).tree.head?

def addHeldLock (l : Nat) : KThreads α :=
  (s.modifyLock l fun lock => { lock with owner := some t }).modifyThread t fun thread =>
    { thread with heldLockInfoList := l :: thread.heldLockInfoList }

/-- Erases a lock info from the list of a thread. -/
def eraseHeldLock (l : Nat) : KThreads α :=
  s.modifyThread t fun thread => { thread with heldLockInfoList := thread.heldLockInfoList.erase l }

def findHeldLock (addressKey : Nat) (isKernelAddressKey : Bool) : Option Nat :=
  (s.thread t).heldLockInfoList.find? fun l =>
    (s.lock l).addressKey == addressKey && (s.lock l).isKernelAddressKey == isKernelAddressKey

def getLockOwner : Option α :=
  match (s.thread t).waitingLockInfo with
  | some l => (s.lock l).owner
  | none => none

/-! ## Waiting -/

/-- The address key of a thread is the key of the lock it waits for next. -/
def setAddressKey (key : Nat) (isKernelAddressKey : Bool) : Except ThreadFault (KThreads α) :=
  if (s.thread t).waitingLockInfo = none then
    .ok (s.modifyThread t fun thread =>
      { thread with addressKey := key, isKernelAddressKey := isKernelAddressKey })
  else .error .waiting

def setUserAddressKey (key : Nat) : Except ThreadFault (KThreads α) :=
  s.setAddressKey t key false

def setKernelAddressKey (key : Nat) : Except ThreadFault (KThreads α) :=
  s.setAddressKey t key true

/-- Adds to the kernel waiters of a thread. -/
def addKernelWaiters (n : Int) : KThreads α :=
  s.modifyThread t fun thread => { thread with numKernelWaiters := thread.numKernelWaiters + n }

/-- Counts a new waiter with a kernel address key. -/
def countWaiter (thread : α) : Except ThreadFault (KThreads α) :=
  if (s.thread thread).isKernelAddressKey then
    if (s.thread t).numKernelWaiters ≥ 0 then .ok (s.addKernelWaiters t 1)
    else .error .kernelWaiters
  else .ok s

/-- Stops counting a waiter with a kernel address key. -/
def uncountWaiter (thread : α) : Except ThreadFault (KThreads α) :=
  if (s.thread thread).isKernelAddressKey then
    if (s.thread t).numKernelWaiters > 0 then .ok (s.addKernelWaiters t (-1))
    else .error .kernelWaiters
  else .ok s

def addWaiterImpl (thread : α) : Except ThreadFault (KThreads α) := do
  let addressKey := (s.thread thread).addressKey
  let isKernelAddressKey := (s.thread thread).isKernelAddressKey
  let s ← s.countWaiter t thread
  match s.findHeldLock t addressKey isKernelAddressKey with
  | some l => return s.lockAddWaiter l thread
  | none =>
    let (l, s) := s.createLock addressKey isKernelAddressKey
    return (s.addHeldLock t l).lockAddWaiter l thread

def removeWaiterImpl (thread : α) : Except ThreadFault (KThreads α) := do
  let s ← s.uncountWaiter t thread
  match (s.thread thread).waitingLockInfo with
  | none => .error .notWaiting
  | some l =>
    if (s.lock l).owner = some t then
      let (isEmpty, s) := s.lockRemoveWaiter l thread
      return if isEmpty then s.eraseHeldLock t l else s
    else .error .notOwner

/-! ## Inheriting -/

/-- The priority a thread should have: the lowest of its base priority and the
priorities of the first waiters of its lock infos. -/
def newPriorityLoop (s : KThreads α) : List Nat → Int → Except ThreadFault Int
  | [], newPriority => .ok newPriority
  | l :: ls, newPriority =>
    match s.getHighestPriorityWaiter l with
    | some waiter => newPriorityLoop s ls (min newPriority (s.priority waiter))
    | none => .error .noWaiters

/-- Removes a waiter from its owner's lock info while its priority changes. -/
def setWaiterPriority (lockOwner : Option α) (thread : α) (newPriority : Int) :
    Except ThreadFault (KThreads α) :=
  let set (s : KThreads α) := s.modifyThread thread fun r => { r with priority := newPriority }
  match lockOwner with
  | some owner => do
    let s ← s.removeWaiterImpl owner thread
    (set s).addWaiterImpl owner thread
  | none => .ok (set s)

/-- The loop of `RestorePriority`, for a number of rounds. -/
def restorePriorityLoop : Nat → KThreads α → Option α → Except ThreadFault (KThreads α)
  | _, s, none => .ok s
  | 0, _, some _ => .error .outOfSteps
  | rounds + 1, s, some thread => do
    let newPriority ← s.newPriorityLoop (s.thread thread).heldLockInfoList
      (s.thread thread).basePriority
    if newPriority = s.priority thread then return s
    else
      let lockOwner := s.getLockOwner thread
      let s ← s.setWaiterPriority lockOwner thread newPriority
      restorePriorityLoop rounds s lockOwner

section
variable [Fintype α]

/-- Every round goes to another thread, so that there are at most as many rounds as
threads. -/
def restorePriority (thread : α) : Except ThreadFault (KThreads α) :=
  restorePriorityLoop (Fintype.card α) s (some thread)

/-- Restores the priority of a thread under a condition. -/
def restoreWhen (condition : Bool) (t : α) : Except ThreadFault (KThreads α) :=
  if condition then s.restorePriority t else .ok s

def addWaiter (thread : α) : Except ThreadFault (KThreads α) := do
  let s ← s.addWaiterImpl t thread
  s.restoreWhen (s.priority thread < s.priority t) t

/-- A thread that lost a waiter may have inherited its priority. -/
def mayHaveInherited (thread : α) : Bool :=
  s.priority t = s.priority thread ∧ s.priority t < (s.thread t).basePriority

def removeWaiter (thread : α) : Except ThreadFault (KThreads α) := do
  let s ← s.removeWaiterImpl t thread
  s.restoreWhen (s.mayHaveInherited t thread) t

/-- Stops counting the waiters of a lock info that leaves its owner. -/
def uncountWaiters (l : Nat) : Except ThreadFault (KThreads α) :=
  if (s.lock l).isKernelAddressKey then
    let s' := s.addKernelWaiters t (-((s.lock l).waiterCount : Int))
    if (s'.thread t).numKernelWaiters ≥ 0 then .ok s' else .error .kernelWaiters
  else .ok s

/-- Hands a lock info to its next owner, unless it has no more waiters. -/
def handOver (isEmpty : Bool) (nextOwner : α) (l : Nat) : Except ThreadFault (KThreads α) :=
  if isEmpty then .ok s
  else
    let s := s.addHeldLock nextOwner l
    if (s.lock l).isKernelAddressKey then
      let s := s.addKernelWaiters nextOwner (s.lock l).waiterCount
      if (s.thread nextOwner).numKernelWaiters > 0 then .ok s else .error .kernelWaiters
    else .ok s

/-- Returns with the new state the next owner of the lock and whether it has waiters.
The assertion that the lock info has waiters and the use of the first one are one
fault. -/
def removeWaiterByKey (key : Nat) (isKernelAddressKey : Bool) :
    Except ThreadFault (KThreads α × Option α × Bool) :=
  match s.findHeldLock t key isKernelAddressKey with
  | none => .ok (s, none, false)
  | some l => do
    let s ← (s.eraseHeldLock t l).uncountWaiters t l
    match s.getHighestPriorityWaiter l with
    | none => .error .noWaiters
    | some nextOwner =>
      let (isEmpty, s) := s.lockRemoveWaiter l nextOwner
      let s ← s.handOver isEmpty nextOwner l
      let s ← s.restoreWhen (s.mayHaveInherited t nextOwner) t
      return (s, some nextOwner, !isEmpty)

/-- The lowest and the highest priority of a thread. -/
def lowestThreadPriority : Int := 63
def highestThreadPriority : Int := 0

def setBasePriority (value : Int) : Except ThreadFault (KThreads α) :=
  if highestThreadPriority ≤ value ∧ value ≤ lowestThreadPriority then
    (s.modifyThread t fun thread => { thread with basePriority := value }).restorePriority t
  else .error .basePriority

def increaseBasePriority (priority : Int) : Except ThreadFault (KThreads α) :=
  if highestThreadPriority ≤ priority ∧ priority ≤ lowestThreadPriority then
    if (s.thread t).basePriority > priority then
      (s.modifyThread t fun thread => { thread with basePriority := priority }).restorePriority t
    else .ok s
  else .error .basePriority

end
end KThreads
end Drippu.Kernel
