import Drippu.Library.Transition
import Drippu.Recomp.GuardGenStores

/-!
# Recomp - Cores that enter guarded blocks

The guest side of the generation code guard, interleaved with the host.  Any number of
cores enter blocks, and every access of theirs to a shared word is a step of its own: the
two loads of `RECOMP_GG_GUARD` in either order, the load of the generation in
`recomp_gg_miss`, the comparisons of `recomp_code_guard` one instruction word at
a time, and the store of the seen word in `recomp_code_guard_gen`.  The host holds
its lock during a call, and the effects of the call happen one by one.  The instruction
words can change at any time.  Memory is sequentially consistent.

The machine also keeps the history that the properties are about: a clock that counts the
steps, the stores to generation words, the instruction words at every time and the
verifications that have passed.  No step reads the history.
-/

namespace Drippu.RecompGuardGen

open Library Function

/-- The emitted blocks: the generation word of a block's module and the instruction words
the block was compiled from. -/
structure Blocks (β : Type) where
  word : β → Nat
  expected : β → List Nat

/-- Where a core is.  A loaded value comes with the time of its load. -/
inductive Phase (β : Type) where
  | outside
  /-- In `RECOMP_GG_GUARD`, with the words loaded so far. -/
  | guard (b : β) (seen word : Option (Nat × Nat))
  /-- In `recomp_gg_miss`. -/
  | miss (b : β)
  /-- In `recomp_code_guard`, about to compare word `k`. -/
  | codeGuard (b : β) (gen start k : Nat) (fast : Bool)
  /-- Back in `recomp_code_guard_gen`. -/
  | codeGuardGen (b : β) (gen start : Nat)
  /-- In the body, with the times of the two loads when the comparison was skipped. -/
  | body (b : β) (skipped : Option (Nat × Nat))
  deriving DecidableEq, Repr

/-- A store to a generation word during a call of the host. -/
structure Store where
  word : Nat
  value : Nat
  time : Nat
  call : Nat
  deriving DecidableEq, Repr

/-- A verification that passed: the generation was loaded at `start`, and the
comparison was over at `finish`. -/
structure Check (β : Type) where
  block : β
  gen : Nat
  start : Nat
  finish : Nat
  deriving DecidableEq, Repr

/-- The shared memory, the host, the cores and the history.  `code b k` is the word
that a core reads for word `k` of block `b`, if it can be read. -/
structure Machine (κ β : Type) where
  host : State
  pending : List Effect
  words : Nat → Nat
  seen : β → Nat
  code : β → Nat → Option Nat
  core : κ → Phase β
  clock : Nat
  calls : Nat
  stores : List Store
  codeAt : Nat → β → Nat → Option Nat
  checks : List (Check β)

/-- The steps of the host and of the cores. -/
inductive Action (κ β : Type) where
  /-- The host takes the lock for a call. -/
  | call (base : Nat → Nat) (hostCall : GuardCall)
  /-- The next effect of the call. -/
  | effect
  /-- A module invalidates its own word, when it is loaded or rebased. -/
  | resetWord (word : Nat)
  /-- Instruction words or their mappings change. -/
  | writeCode (code : β → Nat → Option Nat)
  | enter (c : κ) (b : β)
  | loadSeen (c : κ)
  | loadWord (c : κ)
  | compare (c : κ)
  | loadGen (c : κ) (fast : Bool)
  | compareWord (c : κ)
  /-- The fast path meets a page that it cannot read. -/
  | fallBack (c : κ)
  | pass (c : κ)
  | publish (c : κ)
  /-- The block is over, or the core was halted. -/
  | leave (c : κ)

/-- Every module has a generation word of its own. -/
def Action.OwnWords {κ β : Type} : Action κ β → Prop
  | .call _ hostCall => hostCall.OwnWords
  | _ => True

namespace Machine

variable {κ β : Type} [DecidableEq κ] [DecidableEq β]

/-- The time of the step that the machine takes next. -/
def now (m : Machine κ β) : Nat :=
  m.clock + 1

/-- The end of a step. -/
def tick (m : Machine κ β) : Machine κ β :=
  { m with clock := m.now, codeAt := update m.codeAt m.now m.code }

def setCore (m : Machine κ β) (c : κ) (phase : Phase β) : Machine κ β :=
  { m with core := update m.core c phase }

def storeWord (m : Machine κ β) (word value : Nat) : Machine κ β :=
  { m with words := update m.words word value,
           stores := ⟨word, value, m.now, m.calls⟩ :: m.stores }

/-- The host inside its lock applies the next effect of its call. -/
def applyEffect (m : Machine κ β) : Effect → Machine κ β
  | .store word value => m.storeWord word value
  | _ => m

/-- The comparison of `recomp_code_guard` with one word.  The fast path leaves a
mismatch to the loop; the loop halts the core. -/
def compareWord (blocks : Blocks β) (m : Machine κ β) (b : β) (gen start k : Nat)
    (fast : Bool) : Option (Phase β) :=
  match (blocks.expected b)[k]? with
  | none => none
  | some word =>
    if m.code b k = some word then some (.codeGuard b gen start (k + 1) fast)
    else if fast then some (.codeGuard b gen start 0 false)
    else some .outside

/-- One step, if it is possible. -/
def act (blocks : Blocks β) (m : Machine κ β) : Action κ β → Option (Machine κ β)
  | .call base hostCall =>
    match m.pending with
    | [] =>
      let r := hostCall.locked base m.host
      some (tick { m with host := r.1, pending := r.2, calls := m.calls + 1 })
    | _ => none
  | .effect =>
    match m.pending with
    | [] => none
    | effect :: rest => some (tick { m.applyEffect effect with pending := rest })
  | .resetWord word => some (tick (m.storeWord word kVerifyAlways))
  | .writeCode code => some (tick { m with code := code })
  | .enter c b =>
    match m.core c with
    | .outside => some (tick (m.setCore c (.guard b none none)))
    | _ => none
  | .loadSeen c =>
    match m.core c with
    | .guard b none word =>
      some (tick (m.setCore c (.guard b (some (m.seen b, m.now)) word)))
    | _ => none
  | .loadWord c =>
    match m.core c with
    | .guard b seen none =>
      some (tick (m.setCore c (.guard b seen (some (m.words (blocks.word b), m.now)))))
    | _ => none
  | .compare c =>
    match m.core c with
    | .guard b (some (seen, seenAt)) (some (word, wordAt)) =>
      some (tick (m.setCore c (if seen = word then .body b (some (seenAt, wordAt)) else .miss b)))
    | _ => none
  | .loadGen c fast =>
    match m.core c with
    | .miss b =>
      some (tick (m.setCore c (.codeGuard b (m.words (blocks.word b)) m.now 0 fast)))
    | _ => none
  | .compareWord c =>
    match m.core c with
    | .codeGuard b gen start k fast =>
      (compareWord blocks m b gen start k fast).map fun phase => tick (m.setCore c phase)
    | _ => none
  | .fallBack c =>
    match m.core c with
    | .codeGuard b gen start _ true =>
      some (tick (m.setCore c (.codeGuard b gen start 0 false)))
    | _ => none
  | .pass c =>
    match m.core c with
    | .codeGuard b gen start k _ =>
      if k = (blocks.expected b).length then
        some (tick { m.setCore c (.codeGuardGen b gen start) with
          checks := ⟨b, gen, start, m.now⟩ :: m.checks })
      else none
    | _ => none
  | .publish c =>
    match m.core c with
    | .codeGuardGen b gen _ =>
      some (tick { m.setCore c (.body b none) with
        seen := if gen = kVerifyAlways then m.seen else update m.seen b gen })
    | _ => none
  | .leave c => some (tick (m.setCore c .outside))

/-- The start of the process: the seen words are 0 and the generation words are
`kVerifyAlways`. -/
def start (code : β → Nat → Option Nat) : Machine κ β where
  host := initialState
  pending := []
  words _ := kVerifyAlways
  seen _ := 0
  code := code
  core _ := .outside
  clock := 0
  calls := 0
  stores := []
  codeAt _ := code
  checks := []

/-- All interleavings. -/
def runs (κ : Type) [DecidableEq κ] (blocks : Blocks β) : TransitionSystem (Machine κ β) where
  init m := ∃ code, m = start code
  step m m' := ∃ action : Action κ β, action.OwnWords ∧ m.act blocks action = some m'

end Machine
end Drippu.RecompGuardGen
