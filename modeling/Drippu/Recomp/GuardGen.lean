import Mathlib.Tactic

/-!
# Recomp - The generation code guard

The host side of the generation code guard of recompiled code.  A block of a module
skips the check of its instruction words while its seen word equals the generation word
of its module.  The host moves the generation words forward after every event that can
change a guarded instruction word or its mapping, and holds a module at
`kVerifyAlways` when it cannot prove that module's code stable.

What a call does to the rest of the process is the list of its effects in the order of
the program: the stores to generation words, the watched spans and the messages to the
two loggers.  Addresses and sizes are numbers below `2 ^ 64`; the sums of the source
wrap around.  The load bases are memory of the modules, which the host only reads.
-/

namespace Drippu.RecompGuardGen

/-- Never stored into a block's seen word. -/
def kVerifyAlways : Nat := 0xFFFFFFFF

/-- Live mappings remembered before everything goes sticky. -/
def kMaxMapLog : Nat := 16384

/-- A module: the address of its generation word, the address of its load base and the
module-relative span of its guarded words. -/
structure Module where
  word : Nat
  base : Nat
  codeLo : Nat
  codeEnd : Nat
  deriving DecidableEq, Repr

inductive Reason where
  | activate
  | map
  | unmap
  | protect
  | deviceMap
  | invalidate
  | invalidateAll
  | pageTableSwap
  | codeWrite
  | pointerExposed
  | jitFallback
  deriving DecidableEq, Repr

/-- Why a module first went sticky. -/
inductive PinCause where
  | untracked
  | mapLogOverflow
  | exposuresOverflow
  | notFirstActivation
  | hole
  | rebased
  | aliasAtActivation
  | exposedBeforeActivation
  | map
  | unmap
  | protect
  | deviceMap
  | pointerExposed
  | jitFallback
  deriving DecidableEq, Repr

structure ModuleState where
  m : Module
  sticky : Bool
  pinLogged : Bool
  activeBase : Nat
  paRuns : List (Nat × Nat)
  deriving DecidableEq, Repr

/-- One live mapping: `size` bytes at `va` in `table`, backed by physical
`pa`, with the write permission it has now. -/
structure MapRecord where
  table : Nat
  va : Nat
  size : Nat
  pa : Nat
  writable : Bool
  deriving DecidableEq, Repr

/-- The state behind the lock, with the two flags the hooks read without it. -/
structure State where
  modules : List ModuleState
  enabled : Bool
  active : Bool
  activeTable : Nat
  activeKey : Nat
  counter : Nat
  exhausted : Bool
  mapLog : List MapRecord
  tables : List Nat
  mapLogOverflow : Bool
  exposures : List MapRecord
  exposuresOverflow : Bool
  activations : Nat
  bumps : Reason → Nat
  pinLogger : Bool
  tableSeenLogger : Bool
  watching : Bool
  prelog : Bool

/-- What a call does outside of its state. -/
inductive Effect where
  | store (word value : Nat)
  | watch (va size : Nat)
  | pin (index : Nat) (cause : PinCause) (addr : Nat)
  | tableSeen (table known : Nat)
  deriving DecidableEq, Repr

/-- Sums and differences of 64-bit numbers. -/
def add64 (a b : Nat) : Nat := (a + b) % 2 ^ 64

def sub64 (a b : Nat) : Nat := (a + 2 ^ 64 - b) % 2 ^ 64

def overlaps (a aSize b bSize : Nat) : Bool :=
  aSize != 0 && bSize != 0 && decide (a < add64 b bSize) && decide (b < add64 a aSize)

variable (s : State) (table : Nat)

section
variable (base : Nat → Nat)

def loadBase (m : Module) : Nat := base m.base

def spanStart (s : ModuleState) : Nat := add64 (loadBase base s.m) s.m.codeLo

def spanSize (s : ModuleState) : Nat := sub64 s.m.codeEnd s.m.codeLo

def overlapsModuleVa (s : ModuleState) (va size : Nat) : Bool :=
  overlaps va size (spanStart base s) (spanSize s)

def overlapsModulePa (s : ModuleState) (pa size : Nat) : Bool :=
  s.paRuns.any fun run => overlaps pa size run.1 run.2

/-! ## Moving the generation -/

/-- Sets a module sticky and reports why the first time. -/
def markSticky (pinLogger : Bool) (index : Nat) (module : ModuleState) (cause : PinCause)
    (addr : Nat) : ModuleState × List Effect :=
  ({ module with sticky := true, pinLogged := true },
    if !module.pinLogged && pinLogger then [.pin index cause addr] else [])

/-- The loop over the modules with their indices. -/
def forModules (f : Nat → ModuleState → ModuleState × List Effect) :
    Nat → List ModuleState → List ModuleState × List Effect
  | _, [] => ([], [])
  | i, module :: modules =>
    let first := f i module
    let rest := forModules f (i + 1) modules
    (first.1 :: rest.1, first.2 ++ rest.2)

/-- The sticky flag of a module in `Bump`: it was rebased since activation. -/
def checkRebased (s : State) (i : Nat) (module : ModuleState) : ModuleState × List Effect :=
  if s.active && loadBase base module.m != module.activeBase then
    markSticky s.pinLogger i module .rebased 0
  else (module, [])

/-- The value `Bump` stores into the word of a module. -/
def generation (module : ModuleState) : Nat :=
  if !s.active || s.exhausted || module.sticky then kVerifyAlways else s.counter

def bumpModule (s : State) (i : Nat) (module : ModuleState) : ModuleState × List Effect :=
  let checked := checkRebased base s i module
  (checked.1, checked.2 ++ [.store checked.1.m.word (generation s checked.1)])

/-- The counter moves until it is exhausted. -/
def nextGeneration : State :=
  if s.counter ≥ kVerifyAlways - 1 then { s with exhausted := true }
  else { s with counter := s.counter + 1 }

def countBump (reason : Reason) : State :=
  { s with bumps := Function.update s.bumps reason (s.bumps reason + 1) }

/-- Stores the new generation into every module word, or `kVerifyAlways` for a
module that is not provably stable. -/
def bump (s : State) (reason : Reason) : State × List Effect :=
  let s := countBump s reason
  if !s.enabled then (s, [])
  else
    let s := nextGeneration s
    let bumped := forModules (bumpModule base s) 0 s.modules
    ({ s with modules := bumped.1 }, bumped.2)

/-- Makes every module that `hit` selects sticky, with the address it reports. -/
def pinModule (pinLogger : Bool) (cause : PinCause) (hit : ModuleState → Option Nat) (i : Nat)
    (module : ModuleState) : ModuleState × List Effect :=
  match hit module with
  | some addr => markSticky pinLogger i module cause addr
  | none => (module, [])

/-- Bumps under a condition, after some effects. -/
def bumpWhen (s : State) (any : Bool) (reason : Reason) (before : List Effect) :
    State × List Effect :=
  if any then
    let bumped := bump base s reason
    (bumped.1, before ++ bumped.2)
  else (s, before)

def stickyWhere (s : State) (reason : Reason) (cause : PinCause)
    (hit : ModuleState → Option Nat) : State × List Effect :=
  let pinned := forModules (pinModule s.pinLogger cause hit) 0 s.modules
  bumpWhen base { s with modules := pinned.1 } (s.modules.any fun module => (hit module).isSome)
    reason pinned.2

/-! ## The log of live mappings -/

/-- The record splits at the edges of a range; the piece inside it is kept as
`inside` says. -/
def splitRecord (va size : Nat) (inside : MapRecord → Option MapRecord) (rec : MapRecord) :
    List MapRecord :=
  if rec.table != table || !overlaps rec.va rec.size va size then [rec]
  else
    let stop := add64 va size
    let recEnd := add64 rec.va rec.size
    let lo := max rec.va va
    let hi := min recEnd stop
    (if rec.va < va then [{ rec with size := sub64 va rec.va }] else []) ++
      (inside { rec with
        va := lo, size := sub64 hi lo, pa := add64 rec.pa (lo - rec.va) }).toList ++
      (if stop < recEnd then
        [{ rec with va := stop, size := sub64 recEnd stop, pa := add64 rec.pa (stop - rec.va) }]
      else [])

def editLog (va size : Nat) (inside : MapRecord → Option MapRecord) : State :=
  if s.mapLog.all fun rec => !(rec.table == table && overlaps rec.va rec.size va size) then s
  else
    let out := s.mapLog.flatMap (splitRecord table va size inside)
    { s with mapLog := out, mapLogOverflow := s.mapLogOverflow || decide (out.length > kMaxMapLog) }

/-- A physical run goes on where the last one ends, or starts anew. -/
def addRun (runs : List (Nat × Nat)) (pa size : Nat) : List (Nat × Nat) :=
  match runs.getLast? with
  | some run =>
    if add64 run.1 run.2 = pa then runs.dropLast ++ [(run.1, add64 run.2 size)]
    else runs ++ [(pa, size)]
  | none => [(pa, size)]

/-- The loop over the sorted parts of a span, from the address that is reached. -/
def stableLoop (stop : Nat) : List MapRecord → Nat → List (Nat × Nat) → Bool × List (Nat × Nat)
  | [], _, runs => (false, runs)
  | rec :: parts, reached, runs =>
    if rec.va > reached || rec.writable then (false, runs)
    else
      let hi := min (add64 rec.va rec.size) stop
      let runs := addRun runs (add64 rec.pa (reached - rec.va)) (sub64 hi reached)
      if hi ≥ stop then (true, runs) else stableLoop stop parts hi runs

/-- Whether a range is wholly mapped in a table without write permission, and the
physical runs behind it. -/
def stableSpan (mapLog : List MapRecord) (table va size : Nat) : Bool × List (Nat × Nat) :=
  let parts := mapLog.filter fun rec => rec.table == table && overlaps rec.va rec.size va size
  stableLoop (add64 va size) (parts.insertionSort fun a b => a.va ≤ b.va) va []

/-! ## Registration -/

/-- Of a logger only matters whether there is one. -/
def setPinLogger (fn : Bool) : State × List Effect :=
  ({ s with pinLogger := fn }, [])

def setTableSeenLogger (fn : Bool) : State × List Effect :=
  ({ s with tableSeenLogger := fn }, [])

def setModules (modules : List Module) (enabled : Bool) : State × List Effect :=
  let enabled := enabled && !modules.isEmpty
  ({ s with
      modules := modules.map fun m =>
        { m := m, sticky := false, pinLogged := false, activeBase := 0, paRuns := [] }
      enabled := enabled
      active := false
      activeTable := 0
      activeKey := 0
      mapLog := []
      tables := []
      mapLogOverflow := false
      exposures := []
      exposuresOverflow := false
      activations := 0
      prelog := enabled
      watching := enabled },
    modules.map fun m => .store m.word kVerifyAlways)

def forget : State × List Effect :=
  ({ s with
      watching := false
      prelog := false
      exposures := []
      exposuresOverflow := false
      activations := 0
      modules := []
      enabled := false
      active := false
      activeTable := 0
      activeKey := 0
      mapLog := []
      tables := []
      mapLogOverflow := false },
    [])

/-! ## Activation -/

def isActive (key : Nat) : Bool := s.activeKey == key

/-- A record of the span itself is no alias. -/
def ownRecord (table : Nat) (module : ModuleState) (rec : MapRecord) : Bool :=
  rec.table == table && overlaps rec.va rec.size (spanStart base module) (spanSize module)

/-- The tests of a module whose span is mapped without write permission. -/
def activateStable (s : State) (table : Nat) (i : Nat) (module : ModuleState) :
    ModuleState × List Effect :=
  match s.mapLog.find? fun rec =>
      !ownRecord base table module rec && overlapsModulePa module rec.pa rec.size with
  | some rec => markSticky s.pinLogger i module .aliasAtActivation rec.va
  | none =>
    if module.sticky then (module, [])
    else
      match s.exposures.find? fun rec =>
          rec.table == table && overlapsModuleVa base module rec.va rec.size with
      | some rec => markSticky s.pinLogger i module .exposedBeforeActivation rec.va
      | none => (module, [])

/-- Decides whether a module is stable. -/
def activateModule (s : State) (table : Nat) (tracked : Bool) (untrackedCause : PinCause)
    (i : Nat) (module : ModuleState) : ModuleState × List Effect :=
  let module := { module with activeBase := loadBase base module.m, paRuns := [] }
  if !tracked then markSticky s.pinLogger i module untrackedCause table
  else if spanSize module = 0 then
    markSticky s.pinLogger i module .hole (spanStart base module)
  else
    let found := stableSpan s.mapLog table (spanStart base module) (spanSize module)
    let module := { module with paRuns := found.2 }
    if !found.1 then markSticky s.pinLogger i module .hole (spanStart base module)
    else activateStable base s table i module

/-- Only a table whose every mapping the hooks saw can prove anything, and only in the
first activation. -/
def tracked : Bool :=
  !s.mapLogOverflow && !s.exposuresOverflow && s.activations == 0 && s.tables.contains table

def untrackedCause : PinCause :=
  if s.mapLogOverflow then .mapLogOverflow
  else if s.exposuresOverflow then .exposuresOverflow
  else if s.activations != 0 then .notFirstActivation
  else .untracked

/-- The state in which the first bump of an activation happens. -/
def activated (modules : List ModuleState) : State :=
  { s with
    activations := (s.activations + 1) % 2 ^ 32
    modules := modules
    exposures := []
    prelog := false
    active := true
    activeTable := table }

def activate (s : State) (key table : Nat) : State × List Effect :=
  if !s.enabled || s.activeKey == key then (s, [])
  else
    let decided := forModules (activateModule base s table (tracked s table) (untrackedCause s)) 0
      s.modules
    let watched := (decided.1.filter fun module => !module.sticky).map fun module =>
      .watch (spanStart base module) (spanSize module)
    let bumped := bump base (activated s table decided.1) .activate
    ({ bumped.1 with activeKey := key }, decided.2 ++ watched ++ bumped.2)

/-! ## Hooks

Every hook first tests whether anybody is watching; see `GuardCall.run`. -/

/-- Adds a live mapping to the log. -/
def logMapping (rec : MapRecord) : State :=
  if s.mapLog.length < kMaxMapLog then { s with mapLog := s.mapLog ++ [rec] }
  else { s with mapLogOverflow := true }

def onMap (s : State) (table va size pa : Nat) (writable : Bool) : State × List Effect :=
  -- a new mapping replaces whatever the log had there
  let s := logMapping (editLog s table va size fun _ => none) ⟨table, va, size, pa, writable⟩
  if !s.active then (s, [])
  else
    stickyWhere base s .map .map fun module =>
      if table == s.activeTable && overlapsModuleVa base module va size then some va
      else if overlapsModulePa module pa size then some pa
      else none

/-- The modules that a range of the active table overlaps, with the address to report. -/
def hitVa (va size : Nat) (module : ModuleState) : Option Nat :=
  if overlapsModuleVa base module va size then some va else none

def onUnmap (s : State) (table va size : Nat) : State × List Effect :=
  let s := editLog s table va size fun _ => none
  if !s.active || table != s.activeTable then (s, [])
  else stickyWhere base s .unmap .unmap (hitVa base va size)

def onProtect (s : State) (table va size : Nat) (writable : Bool) : State × List Effect :=
  let s := editLog s table va size fun rec => some { rec with writable := writable }
  if !s.active || table != s.activeTable then (s, [])
  else
    let pinned := forModules
      (pinModule s.pinLogger .protect fun module =>
        if writable then hitVa base va size module else none) 0 s.modules
    bumpWhen base { s with modules := pinned.1 }
      (s.modules.any fun module => overlapsModuleVa base module va size) .protect pinned.2

def onWatchedWrite (s : State) (table va size : Nat) : State × List Effect :=
  if !s.active || table != s.activeTable then (s, [])
  else
    bumpWhen base s (s.modules.any fun module => overlapsModuleVa base module va size) .codeWrite []

def onPointerExposed (s : State) (table va size : Nat) : State × List Effect :=
  if s.activations == 0 then
    if s.exposures.length < kMaxMapLog then
      ({ s with exposures := s.exposures ++ [⟨table, va, size, 0, true⟩] }, [])
    else ({ s with exposuresOverflow := true }, [])
  else if !s.active || table != s.activeTable then (s, [])
  else stickyWhere base s .pointerExposed .pointerExposed (hitVa base va size)

def onJitFallback (s : State) : State × List Effect :=
  stickyWhere base s .jitFallback .jitFallback fun _ => some 0

def onDeviceMap (s : State) (table va size : Nat) : State × List Effect :=
  if !s.active || table != s.activeTable then (s, [])
  else stickyWhere base s .deviceMap .deviceMap (hitVa base va size)

def onInvalidate (s : State) (va size : Nat) : State × List Effect :=
  bumpWhen base s (s.modules.any fun module => overlapsModuleVa base module va size) .invalidate []

def onInvalidateAll (s : State) : State × List Effect := bump base s .invalidateAll

/-- A reused address is a new table: drops what the log still says about it. -/
def trackTable : State :=
  { s with
    mapLog := s.mapLog.filter fun rec => rec.table != table
    tables := if s.tables.contains table then s.tables else s.tables ++ [table] }

def onPageTableSwap (s : State) (table : Nat) : State × List Effect :=
  let s := trackTable s table
  let seen := if s.tableSeenLogger then [Effect.tableSeen table s.tables.length] else []
  let bumped := bump base s .pageTableSwap
  (bumped.1, seen ++ bumped.2)

end

/-! ## Calls -/

/-- The calls of the generation code guard. -/
inductive GuardCall where
  | setPinLogger (fn : Bool)
  | setTableSeenLogger (fn : Bool)
  | setModules (modules : List Module) (enabled : Bool)
  | forget
  | activate (key table : Nat)
  | onMap (table va size pa : Nat) (writable : Bool)
  | onUnmap (table va size : Nat)
  | onProtect (table va size : Nat) (writable : Bool)
  | onWatchedWrite (table va size : Nat)
  | onPointerExposed (table va size : Nat)
  | onJitFallback
  | onDeviceMap (table va size : Nat)
  | onInvalidate (va size : Nat)
  | onInvalidateAll
  | onPageTableSwap (table : Nat)
  deriving DecidableEq, Repr

namespace GuardCall

/-- What a call does while it holds the lock. -/
def locked (base : Nat → Nat) (s : State) : GuardCall → State × List Effect
  | setPinLogger fn => RecompGuardGen.setPinLogger s fn
  | setTableSeenLogger fn => RecompGuardGen.setTableSeenLogger s fn
  | setModules modules enabled => RecompGuardGen.setModules s modules enabled
  | forget => RecompGuardGen.forget s
  | activate key table => RecompGuardGen.activate base s key table
  | onMap table va size pa writable => RecompGuardGen.onMap base s table va size pa writable
  | onUnmap table va size => RecompGuardGen.onUnmap base s table va size
  | onProtect table va size writable => RecompGuardGen.onProtect base s table va size writable
  | onWatchedWrite table va size => RecompGuardGen.onWatchedWrite base s table va size
  | onPointerExposed table va size => RecompGuardGen.onPointerExposed base s table va size
  | onJitFallback => RecompGuardGen.onJitFallback base s
  | onDeviceMap table va size => RecompGuardGen.onDeviceMap base s table va size
  | onInvalidate va size => RecompGuardGen.onInvalidate base s va size
  | onInvalidateAll => RecompGuardGen.onInvalidateAll base s
  | onPageTableSwap table => RecompGuardGen.onPageTableSwap base s table

/-- Registration and activation do not ask whether anybody is watching. -/
def isHook : GuardCall → Bool
  | setPinLogger _ => false
  | setTableSeenLogger _ => false
  | setModules _ _ => false
  | forget => false
  | activate _ _ => false
  | _ => true

def run (base : Nat → Nat) (s : State) (call : GuardCall) : State × List Effect :=
  if call.isHook && !s.watching then (s, []) else call.locked base s

end GuardCall

/-- The state at the start of the process. -/
def initialState : State where
  modules := []
  enabled := false
  active := false
  activeTable := 0
  activeKey := 0
  counter := 0
  exhausted := false
  mapLog := []
  tables := []
  mapLogOverflow := false
  exposures := []
  exposuresOverflow := false
  activations := 0
  bumps _ := 0
  pinLogger := false
  tableSeenLogger := false
  watching := false
  prelog := false

end Drippu.RecompGuardGen
