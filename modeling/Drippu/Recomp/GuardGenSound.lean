import Drippu.Library.Transition
import Drippu.Recomp.GuardGenModules

/-!
# Recomp - Soundness of the generation code guard

Whenever the generation word of a module is not `kVerifyAlways`, the code of the
module should be stable: its whole span is mapped in the active table without write
permission, and no other virtual address of any table is backed by the same physical
addresses.  The run keeps the true mappings of all tables beside the state of the guard.

The invariant behind this: the log says the truth, all of it for the tables it tracks,
and every module that is not sticky while the guard is active is stable, with its
physical runs known.
-/

namespace Drippu.RecompGuardGen

open Library GuardCall List Option

/-- The mappings of all tables: the physical address and the write permission behind
every virtual address. -/
abbrev Mappings := Nat → Nat → Option (Nat × Bool)

/-- A state of the guard with the words and the true mappings. -/
structure GuardRun where
  state : State
  words : Nat → Nat
  live : Mappings

/-- The mappings after the event that a call reports. -/
def GuardCall.mappingsAfter (live : Mappings) : GuardCall → Mappings
  | onMap table va size pa writable => fun t a =>
    if t = table ∧ va ≤ a ∧ a < va + size then some (pa + (a - va), writable) else live t a
  | onUnmap table va size => fun t a =>
    if t = table ∧ va ≤ a ∧ a < va + size then none else live t a
  | onProtect table va size writable => fun t a =>
    if t = table ∧ va ≤ a ∧ a < va + size then (live t a).map fun m => (m.1, writable)
    else live t a
  | onPageTableSwap table => fun t a => if t = table then none else live t a
  | _ => live

variable (base : Nat → Nat) {s : State} {live live' : Mappings} {table : Nat}
  {module module' : ModuleState}

def GuardRun.after (r : GuardRun) (call : GuardCall) : GuardRun where
  state := (call.run base r.state).1
  words := applyEffects r.words (call.run base r.state).2
  live := call.mappingsAfter r.live

/-- The run after a call that takes the lock. -/
def GuardRun.locked (r : GuardRun) (call : GuardCall) : GuardRun where
  state := (call.locked base r.state).1
  words := applyEffects r.words (call.locked base r.state).2
  live := call.mappingsAfter r.live

/-- An address of the guarded span of a module. -/
def InSpan (module : ModuleState) (a : Nat) : Prop :=
  spanStart base module ≤ a ∧ a < spanStart base module + spanSize module

/-- A module whose word is a generation is mapped in the active table without write
permission, and nothing else is backed by the same physical addresses. -/
def GuardRun.Sound (r : GuardRun) : Prop :=
  ∀ module ∈ r.state.modules, r.words module.m.word ≠ kVerifyAlways →
    r.state.active = true ∧ ∀ a, InSpan base module a →
      ∃ p, r.live r.state.activeTable a = some (p, false) ∧
        ∀ t' a' w, r.live t' a' = some (p, w) → t' = r.state.activeTable ∧ a' = a

/-! ## Stable modules -/

/-- The span of a module does not wrap around. -/
def SpanOk (m : Module) : Prop :=
  m.codeLo ≤ m.codeEnd ∧ base m.base + m.codeEnd < 2 ^ 64

variable {base}

lemma SpanOk.range (h : SpanOk base module.m) :
    spanStart base module + spanSize module < 2 ^ 64 := by
  rw [spanStart, spanSize, loadBase, add64_of_lt (by have := h.1; have := h.2; omega),
    sub64_of_le h.1 (by have := h.2; omega)]
  have := h.1
  have := h.2
  omega

variable (base)

/-- The code of a module is stable in a table, and its physical runs are known. -/
structure Stable (live : Mappings) (table : Nat) (module : ModuleState) : Prop where
  runs : RunsInRange module.paRuns
  span : ∀ a, InSpan base module a → ∃ p, live table a = some (p, false) ∧
    InRuns module.paRuns p ∧ ∀ t' a' w, live t' a' = some (p, w) → t' = table ∧ a' = a

variable {base}

/-- A module stays stable if its span keeps its mapping and no physical address of its
runs is mapped anew. -/
lemma Stable.mono (h : Stable base live table module) (hadvanced : Advanced module module')
    (hkept : ∀ a p, InSpan base module a → live table a = some (p, false) →
      live' table a = some (p, false))
    (hnew : ∀ t' a' p w, InRuns module.paRuns p → live' t' a' = some (p, w) →
      ∃ w', live t' a' = some (p, w')) : Stable base live' table module' := by
  refine ⟨hadvanced.paRuns ▸ h.runs, fun a ha => ?_⟩
  rw [InSpan, spanStart, spanSize, hadvanced.m] at ha
  obtain ⟨p, hp, hrun, honly⟩ := h.span a ha
  refine ⟨p, hkept a p ha hp, hadvanced.paRuns ▸ hrun, fun t' a' w hmap => ?_⟩
  obtain ⟨w', hold⟩ := hnew t' a' p w hrun hmap
  exact honly t' a' w' hold

/-! ## The log and the mappings -/

/-- The log says the truth, and all of it for the tables it tracks. -/
structure LogOk (s : State) (live : Mappings) : Prop where
  wellFormed : LogWellFormed s.mapLog
  sound : ∀ t a p w, LogMaps s.mapLog t a p w → live t a = some (p, w)
  complete : s.mapLogOverflow = false → ∀ t ∈ s.tables, ∀ a p w, live t a = some (p, w) →
    LogMaps s.mapLog t a p w

section
variable (h : LogOk s live)
include h

lemma LogOk.congr {s' : State} (hlog : s'.mapLog = s.mapLog) (htables : s'.tables = s.tables)
    (hoverflow : s'.mapLogOverflow = s.mapLogOverflow) : LogOk s' live := by
  refine ⟨hlog ▸ h.wellFormed, fun t a p w hmaps => h.sound t a p w (hlog ▸ hmaps), ?_⟩
  rw [hlog, htables, hoverflow]
  exact h.complete

variable {a pa size va : Nat}

/-- An edit of the log, with the mappings of the range dropped or protected. -/
lemma LogOk.editLog {keep : Option Bool} {inside : MapRecord → Option MapRecord}
    (hinside : Keeps keep inside) (hrange : va + size < 2 ^ 64) (hlive : ∀ t a, live' t a =
      if t = table ∧ va ≤ a ∧ a < va + size then
        (live t a).bind fun m => keep.map fun w => (m.1, w)
      else live t a) : LogOk (editLog s table va size inside) live' := by
  have htables : (RecompGuardGen.editLog s table va size inside).tables = s.tables := by
    rw [RecompGuardGen.editLog]
    split <;> rfl
  refine ⟨editLog_wellFormed hinside h.wellFormed hrange, fun t a p w hmaps => ?_,
    fun hoverflow t ht a p w hmap => ?_⟩
  · rw [logMaps_editLog hinside h.wellFormed hrange] at hmaps
    rw [hlive]
    split at hmaps <;> rename_i hin
    · obtain ⟨⟨w', hmaps⟩, rfl⟩ := hmaps
      rw [if_pos hin, h.sound t a p w' hmaps]
      rfl
    · rw [if_neg hin, h.sound t a p w hmaps]
  · have hbefore : s.mapLogOverflow = false := by
      rw [RecompGuardGen.editLog] at hoverflow
      split at hoverflow
      · exact hoverflow
      · simp only [Bool.or_eq_false_iff] at hoverflow
        exact hoverflow.1
    rw [htables] at ht
    rw [logMaps_editLog hinside h.wellFormed hrange]
    rw [hlive] at hmap
    split at hmap <;> rename_i hin
    · rw [if_pos hin]
      obtain ⟨⟨p', w'⟩, hold, hnew⟩ := bind_eq_some_iff.1 hmap
      obtain ⟨w'', hkeep, heq⟩ := map_eq_some_iff.1 hnew
      obtain ⟨rfl, rfl⟩ := heq
      exact ⟨⟨w', h.complete hbefore t ht a _ w' hold⟩, hkeep⟩
    · rw [if_neg hin]
      exact h.complete hbefore t ht a p w hmap

lemma LogOk.onUnmap (hrange : va + size < 2 ^ 64) :
    LogOk (RecompGuardGen.editLog s table va size fun _ => none)
      ((GuardCall.onUnmap table va size).mappingsAfter live) :=
  h.editLog (show Keeps none _ from fun _ => rfl) hrange fun t a => by
    simp only [mappingsAfter]
    split
    · cases live t a <;> rfl
    · rfl

end

lemma logOk_nil (hlog : s.mapLog = []) (htables : s.tables = []) : LogOk s live := by
  refine ⟨?_, ?_, ?_⟩
  · rw [hlog]
    exact ⟨nofun, List.Pairwise.nil⟩
  · rintro t a p w ⟨rec, hrec, -⟩
    rw [hlog] at hrec
    cases hrec
  · rw [htables]
    exact fun _ _ => nofun

section
variable (h : LogOk s live)
include h

/-- What the log says outside of a range in which nothing is mapped. -/
lemma LogOk.not_covers {rec : MapRecord} {t : Nat} (hfree : live t a = none)
    (hrec : rec ∈ s.mapLog) : ¬ rec.Covers t a := by
  intro hcovers
  have hmap := h.sound t a _ _ ⟨rec, hrec, hcovers, rfl, rfl⟩
  rw [hfree] at hmap
  cases hmap

/-- A new mapping where nothing is mapped is logged, or the log is full. -/
lemma LogOk.logMapping {writable : Bool}
    (hfree : ∀ a, va ≤ a → a < va + size → live table a = none) (hrange : va + size < 2 ^ 64)
    (hpa : pa + size < 2 ^ 64) (hlive : ∀ t a, live' t a =
      if t = table ∧ va ≤ a ∧ a < va + size then some (pa + (a - va), writable)
      else live t a) : LogOk (logMapping s ⟨table, va, size, pa, writable⟩) live' := by
  have hold : ∀ t a p w, LogMaps s.mapLog t a p w → live' t a = some (p, w) := by
    rintro t a p w ⟨rec, hrec, hmaps⟩
    have hnot : ¬ (t = table ∧ va ≤ a ∧ a < va + size) := by
      rintro ⟨rfl, hin⟩
      exact h.not_covers (hfree a hin.1 hin.2) hrec hmaps.1
    rw [hlive, if_neg hnot, h.sound t a p w ⟨rec, hrec, hmaps⟩]
  rw [RecompGuardGen.logMapping]
  split
  · refine ⟨⟨?_, ?_⟩, ?_, ?_⟩
    · intro rec hrec
      rcases mem_append.1 hrec with hrec | hrec
      · exact h.wellFormed.inRange rec hrec
      · rw [mem_singleton.1 hrec]
        exact ⟨hrange, hpa⟩
    · rw [pairwise_append]
      refine ⟨h.wellFormed.apart, pairwise_singleton _ _,
        fun rec hrec rec' hrec' t a hboth => ?_⟩
      rw [mem_singleton] at hrec'
      subst hrec'
      obtain ⟨hcovers, rfl, hin⟩ := hboth
      exact h.not_covers (hfree a hin.1 hin.2) hrec hcovers
    · rintro t a p w ⟨rec, hrec, hmaps⟩
      rcases mem_append.1 hrec with hrec | hrec
      · exact hold t a p w ⟨rec, hrec, hmaps⟩
      · rw [mem_singleton] at hrec
        subst hrec
        obtain ⟨⟨rfl, hin⟩, rfl, rfl⟩ := hmaps
        rw [hlive, if_pos ⟨rfl, hin⟩]
    · intro hoverflow t ht a p w hmap
      rw [hlive] at hmap
      split at hmap <;> rename_i hin
      · obtain ⟨rfl, hin⟩ := hin
        simp only [some.injEq, Prod.mk.injEq] at hmap
        exact ⟨⟨t, va, size, pa, writable⟩, by simp, ⟨rfl, hin⟩, hmap.1.symm, hmap.2.symm⟩
      · obtain ⟨rec, hrec, hmaps⟩ := h.complete hoverflow t ht a p w hmap
        exact ⟨rec, mem_append_left _ hrec, hmaps⟩
  · exact ⟨h.wellFormed, hold, nofun⟩

lemma LogOk.trackTable (hlive : ∀ t a, live' t a = if t = table then none else live t a) :
    LogOk (trackTable s table) live' := by
  have hmem : ∀ rec, rec ∈ s.mapLog.filter (fun rec => rec.table != table) ↔
      rec ∈ s.mapLog ∧ rec.table ≠ table := fun rec => by simp
  refine ⟨⟨fun rec hrec => h.wellFormed.inRange rec ((hmem rec).1 hrec).1,
    h.wellFormed.apart.filter _⟩, ?_, ?_⟩
  · rintro t a p w ⟨rec, hrec, hmaps⟩
    obtain ⟨hrec, hne⟩ := (hmem rec).1 hrec
    rw [hlive, if_neg (hmaps.1.1 ▸ hne), h.sound t a p w ⟨rec, hrec, hmaps⟩]
  intro hoverflow t ht a p w hmap
  rw [hlive] at hmap
  split at hmap <;> rename_i hne
  · cases hmap
  have ht' : t ∈ s.tables := by
    simp only [RecompGuardGen.trackTable] at ht
    split at ht
    · exact ht
    · rcases mem_append.1 ht with ht | ht
      · exact ht
      · exact absurd (mem_singleton.1 ht) hne
  obtain ⟨rec, hrec, hmaps⟩ := h.complete hoverflow t ht' a p w hmap
  exact ⟨rec, (hmem rec).2 ⟨hrec, hmaps.1.1.symm ▸ hne⟩, hmaps⟩

end

/-! ## The invariant -/

variable (base)

/-- What holds between the calls. -/
structure Invariant (r : GuardRun) : Prop where
  ownWords : OwnWords r.state.modules
  spans : ∀ module ∈ r.state.modules, SpanOk base module.m
  log : LogOk r.state r.live
  watching : r.state.watching = r.state.enabled
  unwatched : r.state.watching = false → r.state.mapLog = [] ∧ r.state.tables = []
  active : r.state.active = true → r.state.enabled = true
  words : WordsOk r.state r.words
  stable : r.state.active = true → ∀ module ∈ r.state.modules, module.sticky = false →
    Stable base r.live r.state.activeTable module

variable {base} {r : GuardRun}

lemma Invariant.sound (h : Invariant base r) : r.Sound base := by
  intro module hmem hword
  obtain ⟨hactive, hsticky⟩ := h.words module hmem hword
  refine ⟨hactive, fun a ha => ?_⟩
  obtain ⟨p, hmap, -, honly⟩ := (h.stable hactive module hmem hsticky).span a ha
  exact ⟨p, hmap, honly⟩

/-- Only the log of a state changes. -/
structure LogEdited (s s' : State) : Prop where
  modules : s'.modules = s.modules
  enabled : s'.enabled = s.enabled
  active : s'.active = s.active
  activeTable : s'.activeTable = s.activeTable
  watching : s'.watching = s.watching

lemma logEdited_editLog (s : State) (table va size : Nat) (inside : MapRecord → Option MapRecord) :
    LogEdited s (editLog s table va size inside) := by
  rw [editLog]
  split <;> exact ⟨rfl, rfl, rfl, rfl, rfl⟩

variable {hit : ModuleState → Bool} {call : State × List Effect}

variable (h : Invariant base r) (hwatched : r.state.watching = true)

section
include h hwatched

/-- A call that changes the log and the mappings, pins modules and bumps. -/
lemma Invariant.of_pins {s₁ : State} (hedited : LogEdited r.state s₁) (hpins : Pins s₁ hit call)
    (hlog : LogOk s₁ live')
    (hstable : r.state.active = true → ∀ module ∈ r.state.modules, ∀ module',
      Advanced module module' → hit module = false →
      Stable base r.live r.state.activeTable module →
      Stable base live' r.state.activeTable module') :
    Invariant base ⟨call.1, applyEffects r.words call.2, live'⟩ := by
  obtain ⟨hmodules, henabled, hactive, htable, hwatching⟩ := hedited
  have hsame := hpins.same
  have hwords₁ : WordsOk s₁ r.words := by
    rw [WordsOk, hmodules, hactive]
    exact h.words
  have henabled₁ : s₁.enabled = true := by rw [henabled, ← h.watching, hwatched]
  refine ⟨?_, ?_, ?_, ?_, ?_, ?_, ?_, ?_⟩
  · exact (hmodules ▸ h.ownWords : OwnWords s₁.modules).of_map_eq hpins.modules
  · intro module' hmem
    obtain ⟨module, hmem, hadv, -⟩ := hpins.mem module' hmem
    rw [hadv.m]
    exact h.spans module (hmodules ▸ hmem)
  · exact hlog.congr hsame.mapLog hsame.tables hsame.mapLogOverflow
  · rw [hsame.watching, hsame.enabled, hwatching, henabled, h.watching]
  · intro hfalse
    rw [hsame.watching, hwatching, hwatched] at hfalse
    cases hfalse
  · intro _
    rw [hsame.enabled]
    exact henabled₁
  · exact hpins.wordsOk henabled₁ (hmodules ▸ h.ownWords) r.words hwords₁
  · intro hact module' hmem hsticky
    obtain ⟨module, hmem, hadv, hhit⟩ := hpins.mem module' hmem
    rw [hsame.active, hactive] at hact
    rw [hsame.activeTable, htable]
    rw [hmodules] at hmem
    exact hstable hact module hmem module' hadv (hhit hsticky)
      (h.stable hact module hmem (hadv.sticky hsticky))

lemma Invariant.of_pins_only (hpins : Pins r.state hit call) :
    Invariant base ⟨call.1, applyEffects r.words call.2, r.live⟩ :=
  h.of_pins hwatched ⟨rfl, rfl, rfl, rfl, rfl⟩ hpins h.log fun _ _ _ _ hadv _ hstable =>
    hstable.mono hadv (fun _ _ _ hmap => hmap) fun _ _ _ w _ hmap => ⟨w, hmap⟩

end

/-! ## The hooks -/

lemma pins_unless (c : Bool) (h : Pins s hit call) :
    Pins s (fun module => !c && hit module) (if c then (s, []) else call) := by
  cases c with
  | true =>
    have hrefl := pins_refl s
    exact ⟨hrefl.same, hrefl.modules, hrefl.mem, hrefl.wordsOk⟩
  | false => exact ⟨h.same, h.modules, h.mem, h.wordsOk⟩

/-- A range of the active table that does not overlap the span of a module. -/
lemma not_inSpan_of_not_overlaps (hspan : SpanOk base module.m) (hrange : va + size < 2 ^ 64)
    (hover : overlapsModuleVa base module va size = false) (ha : InSpan base module a) :
    ¬ (va ≤ a ∧ a < va + size) := by
  intro hin
  rw [overlapsModuleVa, overlaps_of_mem hrange hspan.range hin ha] at hover
  cases hover

lemma overlapsModulePa_of_mem {p : Nat} (hruns : RunsInRange module.paRuns)
    (hrange : pa + size < 2 ^ 64) (hp : pa ≤ p ∧ p < pa + size) (hin : InRuns module.paRuns p) :
    overlapsModulePa module pa size = true := by
  obtain ⟨run, hrun, hprun⟩ := hin
  exact any_eq_true.2 ⟨run, hrun, overlaps_of_mem hrange (hruns run hrun) hp hprun⟩

lemma not_mem_of_not_hit (hspan : SpanOk base module.m) (hrange : va + size < 2 ^ 64)
    (hhit : (!(!true || table != s.activeTable) && overlapsModuleVa base module va size) = false)
    (ha : InSpan base module a) : ¬ (s.activeTable = table ∧ va ≤ a ∧ a < va + size) := by
  rintro ⟨rfl, hin⟩
  refine not_inSpan_of_not_overlaps hspan hrange ?_ ha hin
  simpa using hhit

lemma isSome_hitVa (va size : Nat) (module : ModuleState) :
    (hitVa base va size module).isSome = overlapsModuleVa base module va size := by
  rw [hitVa]
  split <;> simp_all

lemma pins_onProtect (s : State) (va size : Nat) (writable : Bool) :
    Pins s (fun module => writable && overlapsModuleVa base module va size)
      (bumpWhen base
        { s with modules := (forModules (pinModule s.pinLogger .protect fun module =>
            if writable then hitVa base va size module else none) 0 s.modules).1 }
        (s.modules.any fun module => overlapsModuleVa base module va size) .protect
        (forModules (pinModule s.pinLogger .protect fun module =>
          if writable then hitVa base va size module else none) 0 s.modules).2) := by
  have hsome : ∀ module, (if writable then hitVa base va size module else none).isSome =
      (writable && overlapsModuleVa base module va size) := fun module => by
    cases writable with
    | true => simp [isSome_hitVa]
    | false => rfl
  refine pins_bumpWhen base .protect (fun i module => ?_) fun hany i module hmem =>
    pinModule_of_none ?_
  · rw [← hsome module]
    exact advanced_pinModule _ _ _ i module
  · rw [hsome, Bool.eq_false_iff.2 (any_eq_false.1 hany module hmem), Bool.and_false]

section
include h hwatched

lemma invariant_onMap (writable : Bool) (hrange : va + size < 2 ^ 64) (hpa : pa + size < 2 ^ 64) :
    Invariant base (r.locked base (.onMap table va size pa writable)) := by
  -- first the range is unmapped in the log, then the new mapping is logged
  have hlog₂ : LogOk (logMapping (editLog r.state table va size fun _ => none)
      ⟨table, va, size, pa, writable⟩)
      ((GuardCall.onMap table va size pa writable).mappingsAfter r.live) :=
    (h.log.onUnmap hrange).logMapping (fun a hlo hhi => if_pos ⟨rfl, hlo, hhi⟩) hrange hpa
      fun t a => by
      simp only [mappingsAfter]
      split <;> rfl
  have hedited : LogEdited r.state (logMapping (editLog r.state table va size fun _ => none)
      ⟨table, va, size, pa, writable⟩) := by
    obtain ⟨h1, h2, h3, h4, h5⟩ := logEdited_editLog r.state table va size fun _ => none
    rw [logMapping]
    split <;> exact ⟨h1, h2, h3, h4, h5⟩
  refine h.of_pins hwatched hedited (pins_unless _ (pins_stickyWhere base _ _ _ _)) hlog₂
    fun hactive module hmem module' hadv hhit hstable => ?_
  rw [hedited.active, hactive, hedited.activeTable] at hhit
  have hspan := h.spans module hmem
  split at hhit <;> rename_i hva
  · cases hhit
  split at hhit <;> rename_i hpa'
  · cases hhit
  refine hstable.mono hadv (fun a p ha hmap => ?_) fun t' a' p w hp hmap => ?_
  · simp only [mappingsAfter]
    rw [if_neg]
    · exact hmap
    · rintro ⟨heq, hin⟩
      refine not_inSpan_of_not_overlaps hspan hrange ?_ ha hin
      simpa [heq] using hva
  · simp only [mappingsAfter] at hmap
    split at hmap <;> rename_i hin
    · simp only [some.injEq, Prod.mk.injEq] at hmap
      exact absurd (overlapsModulePa_of_mem hstable.runs hpa ⟨by omega, by omega⟩ hp) hpa'
    · exact ⟨w, hmap⟩

lemma invariant_onUnmap (hrange : va + size < 2 ^ 64) :
    Invariant base (r.locked base (.onUnmap table va size)) := by
  have hedited := logEdited_editLog r.state table va size fun _ => none
  refine h.of_pins hwatched hedited (pins_unless _ (pins_stickyWhere base _ _ _ _))
    (h.log.onUnmap hrange) fun hactive module hmem module' hadv hhit hstable => ?_
  rw [hedited.active, hactive, isSome_hitVa, hedited.activeTable] at hhit
  refine hstable.mono hadv (fun a p ha hmap => ?_) fun t' a' p w _ hmap => ?_
  · simp only [mappingsAfter]
    rw [if_neg (not_mem_of_not_hit (h.spans module hmem) hrange hhit ha)]
    exact hmap
  · simp only [mappingsAfter] at hmap
    split at hmap
    · cases hmap
    · exact ⟨w, hmap⟩

lemma invariant_onProtect (writable : Bool) (hrange : va + size < 2 ^ 64) :
    Invariant base (r.locked base (.onProtect table va size writable)) := by
  have hedited := logEdited_editLog r.state table va size fun rec =>
    some { rec with writable := writable }
  have hlog : LogOk
      (editLog r.state table va size fun rec => some { rec with writable := writable })
      ((GuardCall.onProtect table va size writable).mappingsAfter r.live) :=
    h.log.editLog (show Keeps (some writable) _ from fun _ => rfl) hrange fun t a => by
      simp only [mappingsAfter]
      split
      · cases r.live t a <;> rfl
      · rfl
  refine h.of_pins hwatched hedited (pins_unless _ (pins_onProtect _ va size writable)) hlog
    fun hactive module hmem module' hadv hhit hstable => ?_
  rw [hedited.active, hactive, hedited.activeTable] at hhit
  refine hstable.mono hadv (fun a p ha hmap => ?_) fun t' a' p w _ hmap => ?_
  · simp only [mappingsAfter]
    split <;> rename_i hin
    · -- the range is protected against writing, as it was
      rw [hmap, map_some]
      cases writable with
      | false => rfl
      | true => exact absurd hin (not_mem_of_not_hit (h.spans module hmem) hrange hhit ha)
    · exact hmap
  · simp only [mappingsAfter] at hmap
    split at hmap
    · obtain ⟨⟨p', w'⟩, hold, heq⟩ := map_eq_some_iff.1 hmap
      simp only [Prod.mk.injEq] at heq
      exact ⟨w', heq.1 ▸ hold⟩
    · exact ⟨w, hmap⟩

/-- Only the active table may not be replaced. -/
lemma invariant_onPageTableSwap (hother : r.state.active = true → table ≠ r.state.activeTable) :
    Invariant base (r.locked base (.onPageTableSwap table)) := by
  have hpins : ∀ (s : State) (seen : List Effect), Pins s (fun _ => false)
      ((bump base s .pageTableSwap).1, seen ++ (bump base s .pageTableSwap).2) := by
    intro s seen
    have hbump := pins_bump base s .pageTableSwap
    refine ⟨hbump.same, hbump.modules, hbump.mem, fun henabled hown words _ => ?_⟩
    rw [applyEffects_append]
    exact bump_wordsOk base henabled hown _ _
  have hedited : LogEdited r.state (trackTable r.state table) := ⟨rfl, rfl, rfl, rfl, rfl⟩
  have hlog : LogOk (trackTable r.state table)
      ((GuardCall.onPageTableSwap table).mappingsAfter r.live) :=
    h.log.trackTable fun _ _ => rfl
  refine h.of_pins hwatched hedited (hpins _ _) hlog
    fun hactive module _ module' hadv _ hstable => ?_
  refine hstable.mono hadv (fun a p _ hmap => ?_) fun t' a' p w _ hmap => ?_
  · simp only [mappingsAfter]
    rw [if_neg (Ne.symm (hother hactive))]
    exact hmap
  · simp only [mappingsAfter] at hmap
    split at hmap
    · cases hmap
    · exact ⟨w, hmap⟩

end

lemma invariant_unwatched (h : Invariant base r) (hwatched : r.state.watching = false)
    (call : GuardCall) : Invariant base ⟨r.state, r.words, call.mappingsAfter r.live⟩ := by
  obtain ⟨hnolog, hnotables⟩ := h.unwatched hwatched
  have hdisabled : r.state.enabled = false := h.watching ▸ hwatched
  have hinactive : r.state.active ≠ true := fun hactive => by
    rw [h.active hactive] at hdisabled
    cases hdisabled
  exact ⟨h.ownWords, h.spans, logOk_nil hnolog hnotables, h.watching, h.unwatched, h.active,
    h.words, fun hactive => absurd hactive hinactive⟩

end Drippu.RecompGuardGen
