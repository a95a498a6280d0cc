import Drippu.Recomp.GuardGenSound
import Drippu.Recomp.GuardGenStores

/-!
# Recomp - Runs of the generation code guard

An activation decides from the log which modules are stable.  It does not see an alias
of a span in a record that overlaps the span itself, nor one in a table that was mapped
before the modules were registered, and a new table at the address of the active one
pins no module.  Runs without such steps are sound.

Main results:

- Theorem `GuardRun.runs_sound`: soundness of the runs without hidden aliases.
- Theorem `GuardRun.hidden_alias_unsound`: runs that are not sound.
-/

namespace Drippu.RecompGuardGen

open Library List GuardCall Bool

variable {base : Nat → Nat} {s : State} {live : Mappings} {table : Nat}
  {module : ModuleState} {r : GuardRun}

/-! ## Activation -/

variable (base)

/-- Every other address that is backed by a physical address of the span is logged, or
its table is tracked, and no record that covers it overlaps the span. -/
def AliasesSeen (s : State) (live : Mappings) (table : Nat) (module : ModuleState) : Prop :=
  ∀ a, InSpan base module a → ∀ p w, live table a = some (p, w) →
    ∀ t' a' w', live t' a' = some (p, w') → ¬ (t' = table ∧ a' = a) →
      (t' ∈ s.tables ∨ ∃ rec ∈ s.mapLog, rec.Covers t' a') ∧
        ∀ rec ∈ s.mapLog, rec.Covers t' a' → ownRecord base table module rec = false

variable {base}

/-- A module that an activation does not pin. -/
structure Proved (base : Nat → Nat) (s : State) (table : Nat) (tracked : Bool)
    (module module' : ModuleState) : Prop where
  tracked : tracked = true
  sticky : module.sticky = false
  m : module'.m = module.m
  span : (stableSpan s.mapLog table (spanStart base module) (spanSize module)).1 = true
  paRuns : module'.paRuns = (stableSpan s.mapLog table (spanStart base module) (spanSize module)).2
  aliases : ∀ rec ∈ s.mapLog, ownRecord base table module rec = false →
    overlapsModulePa module' rec.pa rec.size = false

lemma activateStable_of_not_sticky {i : Nat}
    (h : (activateStable base s table i module).1.sticky = false) :
    (activateStable base s table i module).1 = module ∧ module.sticky = false ∧
      ∀ rec ∈ s.mapLog, ownRecord base table module rec = false →
        overlapsModulePa module rec.pa rec.size = false := by
  rw [activateStable] at h ⊢
  split at h <;> rename_i hfind
  · cases h
  split at h <;> rename_i hsticky
  · rw [hsticky] at h
    cases h
  split at h <;> rename_i hexposed
  · cases h
  simp only [hsticky]
  refine ⟨rfl, trivial, fun rec hrec hown => ?_⟩
  have hno := find?_eq_none.1 hfind rec hrec
  simpa [hown] using hno

lemma activateModule_of_not_sticky {tracked : Bool} {cause : PinCause} {i : Nat}
    (h : (activateModule base s table tracked cause i module).1.sticky = false) :
    Proved base s table tracked module (activateModule base s table tracked cause i module).1 := by
  simp only [activateModule] at h ⊢
  split at h <;> rename_i htracked
  · cases h
  split at h <;> rename_i hsize
  · cases h
  split at h <;> rename_i hspan
  · cases h
  rw [if_neg htracked, if_neg hsize, if_neg hspan]
  obtain ⟨heq, hsticky, haliases⟩ := activateStable_of_not_sticky h
  rw [heq]
  simp only [not_eq_true', not_eq_false] at htracked hspan
  exact ⟨htracked, hsticky, rfl, hspan, rfl, haliases⟩

lemma stable_of_proved {tracked : Bool} {module' : ModuleState} (hlog : LogOk s live)
    (hspan : SpanOk base module.m) (hoverflow : s.mapLogOverflow = false)
    (hseen : AliasesSeen base s live table module)
    (h : Proved base s table tracked module module') : Stable base live table module' := by
  obtain ⟨hruns, hmapped⟩ := stableSpan_spec hlog.wellFormed hspan.range h.span
  rw [← h.paRuns] at hruns hmapped
  refine ⟨hruns, fun a ha => ?_⟩
  rw [InSpan, spanStart, spanSize, h.m] at ha
  obtain ⟨p, hmaps, hp⟩ := hmapped a ha.1 ha.2
  have hlive := hlog.sound table a p false hmaps
  refine ⟨p, hlive, hp, fun t' a' w' halias => ?_⟩
  by_contra hother
  obtain ⟨hlogged, hown⟩ := hseen a ha p false hlive t' a' w' halias hother
  -- the alias is in a record that the check looked at
  obtain ⟨rec, hrec, hcovers⟩ : ∃ rec ∈ s.mapLog, rec.Covers t' a' := by
    rcases hlogged with htracked | hlogged
    · obtain ⟨rec, hrec, hmaps⟩ := hlog.complete hoverflow t' htracked a' p w' halias
      exact ⟨rec, hrec, hmaps.1⟩
    · exact hlogged
  have hback := hlog.sound t' a' _ _ ⟨rec, hrec, hcovers, rfl, rfl⟩
  rw [halias, Option.some.injEq, Prod.mk.injEq] at hback
  have hcovers' := hcovers
  obtain ⟨-, hlo, hhi⟩ := hcovers'
  have hover := overlapsModulePa_of_mem hruns (hlog.wellFormed.inRange rec hrec).2
    (p := p) ⟨by omega, by omega⟩ hp
  rw [h.aliases rec hrec (hown rec hrec hcovers)] at hover
  cases hover

lemma invariant_activate (h : Invariant base r) {key : Nat}
    (hseen : r.state.enabled = true → r.state.activeKey ≠ key → tracked r.state table = true →
      ∀ module ∈ r.state.modules, AliasesSeen base r.state r.live table module) :
    Invariant base (r.locked base (.activate key table)) := by
  rw [GuardRun.locked, locked]
  by_cases hskip : r.state.enabled = true ∧ r.state.activeKey ≠ key
  · obtain ⟨henabled, hkey⟩ := hskip
    obtain ⟨before, -, hrun⟩ := activate_of_enabled base table henabled hkey
    have hbump := pins_bump base (activated r.state table (decided base r.state table).1) .activate
    have hsame := hbump.same
    have hown : OwnWords (decided base r.state table).1 :=
      h.ownWords.of_map_eq (map_m_decided base r.state table)
    have hfrom : ∀ module' ∈ (bump base (activated r.state table (decided base r.state table).1)
        .activate).1.modules, ∃ module ∈ r.state.modules, module'.m = module.m ∧
        (module'.sticky = false → Stable base r.live table module') := by
      intro module'' hmem
      obtain ⟨module', hmem', hadv, -⟩ := hbump.mem module'' hmem
      obtain ⟨i, module, hmem, rfl⟩ := mem_forModules hmem'
      refine ⟨module, hmem, hadv.m.trans (m_activateModule base table _ _ i module),
        fun hsticky => ?_⟩
      have hproved := activateModule_of_not_sticky (hadv.sticky hsticky)
      have htracked := hproved.tracked
      have hoverflow : r.state.mapLogOverflow = false := by
        simp only [tracked, and_eq_true, not_eq_true'] at htracked
        exact htracked.1.1.1
      have hstable := stable_of_proved h.log (h.spans module hmem) hoverflow
        (hseen henabled hkey htracked module hmem) hproved
      exact hstable.mono hadv (fun _ _ _ hmap => hmap) fun _ _ _ w _ hmap => ⟨w, hmap⟩
    rw [hrun]
    refine ⟨hown.of_map_eq hbump.modules, fun module' hmem => ?_, ?_, ?_, ?_, ?_, ?_, ?_⟩
    · obtain ⟨module, hmem, hm, -⟩ := hfrom module' hmem
      rw [hm]
      exact h.spans module hmem
    · exact h.log.congr hsame.mapLog hsame.tables hsame.mapLogOverflow
    · exact hsame.watching.trans (h.watching.trans hsame.enabled.symm)
    · intro hfalse
      rw [hsame.watching] at hfalse
      exact h.unwatched hfalse |>.imp (hsame.mapLog.trans ·) (hsame.tables.trans ·)
    · intro _
      exact hsame.enabled.trans henabled
    · rw [applyEffects_append]
      exact bump_wordsOk base (s := activated r.state table (decided base r.state table).1) henabled
        hown _ _
    · intro _ module' hmem hsticky
      rw [hsame.activeTable]
      obtain ⟨-, -, -, hstable⟩ := hfrom module' hmem
      exact hstable hsticky
  · rw [activate_of_not base hskip]
    exact h

/-! ## Registration -/

lemma storesVerifyAlways (modules : List Module) (words : Nat → Nat) {m : Module}
    (hm : m ∈ modules) :
    applyEffects words (modules.map fun m => .store m.word kVerifyAlways) m.word =
      kVerifyAlways := by
  refine applyEffects_of_mem words _ ?_ fun v hv => ?_
  · rw [storesOf_map_store]
    exact mem_map.2 ⟨m, hm, rfl⟩
  · rw [storesOf_map_store, mem_map] at hv
    obtain ⟨m', -, heq⟩ := hv
    exact (congrArg Prod.snd heq).symm

lemma invariant_setModules (r : GuardRun) {modules : List Module} (enabled : Bool)
    (hown : (modules.map fun m => m.word).Nodup) (hspans : ∀ m ∈ modules, SpanOk base m) :
    Invariant base (r.locked base (.setModules modules enabled)) := by
  refine ⟨?_, fun module hmem => ?_, logOk_nil rfl rfl, rfl, fun _ => ⟨rfl, rfl⟩, nofun,
    fun module hmem hword => ?_, nofun⟩
  · rw [OwnWords, GuardRun.locked, locked, setModules, map_map]
    exact hown
  · obtain ⟨m, hm, rfl⟩ := mem_map.1 hmem
    exact hspans m hm
  · obtain ⟨m, hm, rfl⟩ := mem_map.1 hmem
    exact absurd (storesVerifyAlways modules r.words hm) hword

lemma invariant_forget (r : GuardRun) : Invariant base (r.locked base .forget) :=
  ⟨nodup_nil, nofun, logOk_nil rfl rfl, rfl, fun _ => ⟨rfl, rfl⟩, nofun, nofun, nofun⟩

/-! ## Runs -/

variable (base)

/-- The modules have words of their own, and no range wraps around. -/
def GuardCall.Valid : GuardCall → Prop
  | setModules modules _ =>
    (modules.map fun m => m.word).Nodup ∧ ∀ m ∈ modules, SpanOk base m
  | onMap _ va size pa _ => va + size < 2 ^ 64 ∧ pa + size < 2 ^ 64
  | onUnmap _ va size => va + size < 2 ^ 64
  | onProtect _ va size _ => va + size < 2 ^ 64
  | _ => True

/-- The guard can see what it has to: an activation that can prove something sees the
aliases of every module, and the active table is not replaced. -/
def GuardRun.Sees (r : GuardRun) : GuardCall → Prop
  | .activate key table =>
    r.state.enabled = true → r.state.activeKey ≠ key → tracked r.state table = true →
      ∀ module ∈ r.state.modules, AliasesSeen base r.state r.live table module
  | .onPageTableSwap table => r.state.active = true → table ≠ r.state.activeTable
  | _ => True

variable {base}

lemma pins_onPointerExposed (base : Nat → Nat) (s : State) (table va size : Nat) :
    ∃ hit, Pins s hit (onPointerExposed base s table va size) := by
  rw [onPointerExposed]
  split
  · refine ⟨fun _ => false, ?_⟩
    split
    · exact pins_of_same ⟨rfl, rfl, rfl, rfl, rfl, rfl, rfl⟩ rfl
    · exact pins_of_same ⟨rfl, rfl, rfl, rfl, rfl, rfl, rfl⟩ rfl
  · exact ⟨_, pins_unless _ (pins_stickyWhere base s _ _ _)⟩

lemma pins_bumpWhen_nil (s : State) (any : Bool) (reason : Reason) :
    Pins s (fun _ => false) (bumpWhen base s any reason []) := by
  cases any with
  | true => exact pins_bump base s reason
  | false => exact pins_refl s

variable {call : GuardCall}

section
variable (h : Invariant base r)
include h

lemma invariant_hook (hwatched : r.state.watching = true) {hit : ModuleState → Bool}
    (hlive : call.mappingsAfter r.live = r.live)
    (hpins : Pins r.state hit (call.locked base r.state)) :
    Invariant base (r.locked base call) := by
  rw [GuardRun.locked, hlive]
  exact h.of_pins_only hwatched hpins

lemma invariant_locked (hvalid : call.Valid base) (hsees : r.Sees base call)
    (hwatched : call.isHook = true → r.state.watching = true) :
    Invariant base (r.locked base call) := by
  cases call with
  | setPinLogger fn | setTableSeenLogger fn =>
    exact ⟨h.ownWords, h.spans, h.log.congr rfl rfl rfl, h.watching, h.unwatched, h.active,
      h.words, h.stable⟩
  | setModules modules enabled => exact invariant_setModules r enabled hvalid.1 hvalid.2
  | forget => exact invariant_forget r
  | activate key table => exact invariant_activate h hsees
  | onMap table va size pa writable =>
    exact invariant_onMap h (hwatched rfl) writable hvalid.1 hvalid.2
  | onUnmap table va size => exact invariant_onUnmap h (hwatched rfl) hvalid
  | onProtect table va size writable => exact invariant_onProtect h (hwatched rfl) writable hvalid
  | onWatchedWrite table va size =>
    exact invariant_hook h (hwatched rfl) rfl (pins_unless _ (pins_bumpWhen_nil r.state _ _))
  | onPointerExposed table va size =>
    obtain ⟨hit, hpins⟩ := pins_onPointerExposed base r.state table va size
    exact invariant_hook h (hwatched rfl) rfl hpins
  | onJitFallback =>
    exact invariant_hook h (hwatched rfl) rfl (pins_stickyWhere base r.state _ _ _)
  | onDeviceMap table va size =>
    exact invariant_hook h (hwatched rfl) rfl (pins_unless _ (pins_stickyWhere base r.state _ _ _))
  | onInvalidate va size =>
    exact invariant_hook h (hwatched rfl) rfl (pins_bumpWhen_nil r.state _ _)
  | onInvalidateAll => exact invariant_hook h (hwatched rfl) rfl (pins_bump base r.state _)
  | onPageTableSwap table => exact invariant_onPageTableSwap h (hwatched rfl) hsees

lemma invariant_after (hvalid : call.Valid base) (hsees : r.Sees base call) :
    Invariant base (r.after base call) := by
  rw [GuardRun.after, run]
  split <;> rename_i hskip
  · simp only [and_eq_true, not_eq_true'] at hskip
    exact invariant_unwatched h hskip.2 call
  · refine invariant_locked h hvalid hsees fun hhook => ?_
    simpa [hhook] using hskip

end

namespace GuardRun

/-- The start of the process: nothing is mapped or registered. -/
def start (words : Nat → Nat) : GuardRun where
  state := initialState
  words := words
  live _ _ := none

/-- The runs in which nothing is hidden from the guard. -/
def runs (base : Nat → Nat) : TransitionSystem GuardRun where
  init r := ∃ words, r = start words
  step r r' := ∃ call : GuardCall, call.Valid base ∧ r.Sees base call ∧ r' = r.after base call

lemma runs_invariant (h : (runs base).Reachable r) : Invariant base r := by
  refine h.invariant (P := Invariant base) ?_ ?_
  · rintro _ ⟨words, rfl⟩
    exact ⟨nodup_nil, nofun, logOk_nil rfl rfl, rfl, fun _ => ⟨rfl, rfl⟩, nofun, nofun, nofun⟩
  · rintro r _ _ hr ⟨call, hvalid, hsees, rfl⟩
    exact invariant_after hr hvalid hsees

/-- Every run in which nothing is hidden from the guard is sound. -/
theorem runs_sound (h : (runs base).Reachable r) : r.Sound base :=
  (runs_invariant h).sound

/-! ## Hidden aliases -/

/-- The state after some calls from the start of the process. -/
def runCalls (base : Nat → Nat) (calls : List GuardCall) : GuardRun :=
  calls.foldl (fun r call => r.after base call) (start fun _ => kVerifyAlways)

/-- A module with two pages of code at `0x1000`. -/
def codeModule : Module where
  word := 0
  base := 0
  codeLo := 0
  codeEnd := 0x2000

def codeBase : Nat → Nat := fun _ => 0x1000

/-- The module is registered and activated with its code mapped in one table. -/
def codeMapped : List GuardCall :=
  [.setModules [codeModule] true, .onPageTableSwap 1, .onMap 1 0x1000 0x2000 0x80000000 false,
    .activate 1 1]

/-- The activated module has a generation, and its code is stable. -/
theorem runs_sound_code_mapped :
    (runCalls codeBase codeMapped).words codeModule.word = 2 ∧
      (runCalls codeBase codeMapped).Sound codeBase := by
  have hmapped : (runs codeBase).Reachable (runCalls codeBase
      [.setModules [codeModule] true, .onPageTableSwap 1,
        .onMap 1 0x1000 0x2000 0x80000000 false]) := by
    refine .next (.next (.next (.start ⟨_, rfl⟩) ⟨.setModules [codeModule] true, ?_, trivial, rfl⟩)
      ⟨.onPageTableSwap 1, trivial, nofun, rfl⟩)
      ⟨.onMap 1 0x1000 0x2000 0x80000000 false, ⟨by decide, by decide⟩, trivial, rfl⟩
    exact ⟨by decide, by simp [SpanOk, codeModule, codeBase]⟩
  refine ⟨rfl, runs_sound (.next hmapped ⟨.activate 1 1, trivial, ?_, rfl⟩)⟩
  -- the only mapping is injective
  intro _ _ _ module _ a _ p w hmap t' a' w' halias hother
  have hlive : ∀ t b q v, (runCalls codeBase [.setModules [codeModule] true, .onPageTableSwap 1,
      .onMap 1 0x1000 0x2000 0x80000000 false]).live t b = some (q, v) →
      t = 1 ∧ 0x1000 ≤ b ∧ q = 0x80000000 + (b - 0x1000) := by
    intro t b q v h
    simp only [runCalls, foldl, after, mappingsAfter, start] at h
    split at h <;> rename_i hin
    · simp only [Option.some.injEq, Prod.mk.injEq] at h
      exact ⟨hin.1, hin.2.1, h.1.symm⟩
    · simp at h
  obtain ⟨-, hlo, hq⟩ := hlive _ _ _ _ hmap
  obtain ⟨ht', hlo', hq'⟩ := hlive _ _ _ _ halias
  exact absurd ⟨ht', by omega⟩ hother

/-- Two records that overlap the span map one physical page twice, a table was mapped
before the module was registered, or the active table is replaced. -/
theorem hidden_alias_unsound :
    ¬ (runCalls codeBase
      [.setModules [codeModule] true, .onPageTableSwap 1, .onMap 1 0 0x2000 0x80000000 false,
        .onMap 1 0x2000 0x2000 0x80000000 false, .activate 1 1,
        .onProtect 1 0x3000 0x1000 true]).Sound codeBase ∧
    ¬ (runCalls codeBase
      ([.onPageTableSwap 2, .onMap 2 0x1000 0x2000 0x80000000 true] ++ codeMapped)).Sound codeBase ∧
    ¬ (runCalls codeBase (codeMapped ++ [.onPageTableSwap 1])).Sound codeBase := by
  refine ⟨fun h => ?_, fun h => ?_, fun h => ?_⟩
  · obtain ⟨-, hspan⟩ := h _ mem_cons_self (by decide)
    obtain ⟨p, hp, honly⟩ := hspan 0x1000 ⟨by decide, by decide⟩
    obtain rfl : 0x80001000 = p := congrArg Prod.fst (Option.some.inj hp)
    exact absurd (honly 1 0x3000 true rfl).2 (by decide)
  · obtain ⟨-, hspan⟩ := h _ mem_cons_self (by decide)
    obtain ⟨p, hp, honly⟩ := hspan 0x1000 ⟨by decide, by decide⟩
    obtain rfl : 0x80000000 = p := congrArg Prod.fst (Option.some.inj hp)
    exact absurd (honly 2 0x1000 true rfl).1 (by decide)
  · obtain ⟨-, hspan⟩ := h _ mem_cons_self (by decide)
    obtain ⟨p, hp, -⟩ := hspan 0x1000 ⟨by decide, by decide⟩
    cases hp

end GuardRun
end Drippu.RecompGuardGen
