import Drippu.Recomp.GuardGenModules

/-!
# Recomp - The stores of a call

A call stores into generation words at most one value beside `kVerifyAlways`: the
new value of the counter, which no earlier call has stored.  The counter is never reset,
neither by another registration nor when it is exhausted.
-/

namespace Drippu.RecompGuardGen

open List

variable (base : Nat → Nat) {s : State}

lemma storesOf_forModules {f : Nat → ModuleState → ModuleState × List Effect}
    (hf : ∀ i module, storesOf (f i module).2 = []) (i : Nat) (modules : List ModuleState) :
    storesOf (forModules f i modules).2 = [] := by
  induction modules generalizing i with
  | nil => rfl
  | cons module modules ih => simp [forModules, hf, ih]

/-! ## Bumps -/

/-- The stores of a call: at most one new generation, into words of their own. -/
structure FreshStores (s : State) (r : State × List Effect) : Prop where
  counter : s.counter ≤ r.1.counter
  bound : s.counter < kVerifyAlways → r.1.counter < kVerifyAlways
  fresh : ∀ word value, (word, value) ∈ storesOf r.2 →
    value = kVerifyAlways ∨ value = r.1.counter ∧ s.counter < value
  nodup : OwnWords s.modules → ((storesOf r.2).map Prod.fst).Nodup
  own : OwnWords s.modules → OwnWords r.1.modules

variable {r : State × List Effect}

lemma freshStores_of_noStores (hcounter : r.1.counter = s.counter)
    (hmodules : (r.1.modules.map fun module => module.m) = s.modules.map fun module => module.m)
    (hstores : storesOf r.2 = []) : FreshStores s r := by
  refine ⟨hcounter.ge, fun h => hcounter ▸ h, fun word value hmem => ?_, fun _ => ?_,
    fun hown => hown.of_map_eq hmodules⟩
  · rw [hstores] at hmem
    cases hmem
  · rw [hstores]
    exact nodup_nil

lemma counter_nextGeneration (s : State) :
    (nextGeneration s).counter = s.counter ∧ (nextGeneration s).exhausted = true ∨
      (nextGeneration s).counter = s.counter + 1 ∧ s.counter + 1 < kVerifyAlways := by
  rw [nextGeneration]
  split <;> rename_i h
  · exact .inl ⟨rfl, rfl⟩
  · exact .inr ⟨rfl, by omega⟩

lemma freshStores_bump (s : State) (reason : Reason) : FreshStores s (bump base s reason) := by
  by_cases henabled : s.enabled = true
  · have hown := fun h => OwnWords.of_map_eq h (map_m_bump base s reason)
    have hcounter := counter_nextGeneration (countBump s reason)
    rw [show (countBump s reason).counter = s.counter from rfl] at hcounter
    rw [bump_of_enabled base henabled reason] at hown ⊢
    refine ⟨?_, fun hbound => ?_, fun word value hmem => ?_, fun h => ?_, hown⟩
    · show s.counter ≤ (nextGeneration (countBump s reason)).counter
      omega
    · show (nextGeneration (countBump s reason)).counter < kVerifyAlways
      omega
    · simp only [storesOf_bumpModules, mem_map, Prod.mk.injEq] at hmem
      obtain ⟨module, -, -, rfl⟩ := hmem
      rw [generation]
      split <;> rename_i hcond
      · exact .inl rfl
      · refine .inr ⟨rfl, ?_⟩
        rcases hcounter with ⟨-, hexhausted⟩ | ⟨heq, -⟩
        · simp [hexhausted] at hcond
        · omega
    · simp only [storesOf_bumpModules, map_map]
      exact hown h
  · refine freshStores_of_noStores ?_ (map_m_bump base s reason) ?_
    · simp [bump, countBump, henabled]
    · simp [bump, countBump, henabled]

variable {s' : State}

/-- Some effects without stores happen before a call, in a state that differs in neither
the counter nor the words. -/
lemma FreshStores.after {before : List Effect} (h : FreshStores s' r)
    (hcounter : s'.counter = s.counter)
    (hmodules : (s'.modules.map fun module => module.m) = s.modules.map fun module => module.m)
    (hbefore : storesOf before = []) : FreshStores s (r.1, before ++ r.2) := by
  refine ⟨hcounter ▸ h.counter, hcounter ▸ h.bound, fun word value hmem => ?_, fun hown => ?_,
    fun hown => h.own (hown.of_map_eq hmodules)⟩
  · rw [storesOf_append, hbefore, nil_append] at hmem
    exact hcounter ▸ h.fresh word value hmem
  · rw [storesOf_append, hbefore, nil_append]
    exact h.nodup (hown.of_map_eq hmodules)

lemma freshStores_bumpWhen {before : List Effect} (any : Bool) (reason : Reason)
    (hcounter : s'.counter = s.counter)
    (hmodules : (s'.modules.map fun module => module.m) = s.modules.map fun module => module.m)
    (hbefore : storesOf before = []) : FreshStores s (bumpWhen base s' any reason before) := by
  cases any with
  | true => exact (freshStores_bump base s' reason).after hcounter hmodules hbefore
  | false => exact freshStores_of_noStores hcounter hmodules hbefore

lemma storesOf_pinModule (pinLogger : Bool) (cause : PinCause)
    (hit : ModuleState → Option Nat) (i : Nat) (module : ModuleState) :
    storesOf (pinModule pinLogger cause hit i module).2 = [] := by
  rw [pinModule]
  split
  · exact storesOf_markSticky _ _ _ _ _
  · rfl

lemma map_m_pinModules (pinLogger : Bool) (cause : PinCause)
    (hit : ModuleState → Option Nat) (modules : List ModuleState) :
    ((forModules (pinModule pinLogger cause hit) 0 modules).1.map fun module => module.m) =
      modules.map fun module => module.m :=
  map_forModules (fun module : ModuleState => module.m)
    (fun i module => (advanced_pinModule pinLogger cause hit i module).1.m) 0

lemma freshStores_stickyWhere (reason : Reason) (cause : PinCause)
    (hit : ModuleState → Option Nat) (hcounter : s'.counter = s.counter)
    (hmodules : s'.modules = s.modules) : FreshStores s (stickyWhere base s' reason cause hit) :=
  freshStores_bumpWhen base _ reason hcounter
    ((map_m_pinModules _ _ _ _).trans (by rw [hmodules]))
    (storesOf_forModules (storesOf_pinModule _ _ _) 0 _)

/-! ## All calls -/

lemma modules_editLog (s : State) (table va size : Nat) (inside : MapRecord → Option MapRecord) :
    (editLog s table va size inside).modules = s.modules ∧
      (editLog s table va size inside).counter = s.counter := by
  rw [editLog]
  split <;> exact ⟨rfl, rfl⟩

lemma freshStores_refl (s : State) : FreshStores s (s, []) :=
  freshStores_of_noStores rfl rfl rfl

lemma storesOf_activateModule (table : Nat) (tracked : Bool) (cause : PinCause) (i : Nat)
    (module : ModuleState) :
    storesOf (activateModule base s table tracked cause i module).2 = [] := by
  simp only [activateModule, activateStable]
  repeat' split
  all_goals first | exact storesOf_markSticky _ _ _ _ _ | rfl

lemma m_activateModule (table : Nat) (tracked : Bool) (cause : PinCause) (i : Nat)
    (module : ModuleState) :
    (activateModule base s table tracked cause i module).1.m = module.m := by
  simp only [activateModule, activateStable]
  repeat' split
  all_goals rfl

/-- The modules as an activation decides. -/
def decided (s : State) (table : Nat) : List ModuleState × List Effect :=
  forModules (activateModule base s table (tracked s table) (untrackedCause s)) 0 s.modules

lemma activate_of_enabled (table : Nat) {key : Nat} (henabled : s.enabled = true)
    (hkey : s.activeKey ≠ key) :
    ∃ before, storesOf before = [] ∧ activate base s key table =
      ({ (bump base (activated s table (decided base s table).1) .activate).1 with
          activeKey := key },
        before ++ (bump base (activated s table (decided base s table).1) .activate).2) := by
  rw [activate, if_neg (by simp [henabled, hkey])]
  refine ⟨_, ?_, rfl⟩
  rw [storesOf_append, storesOf_forModules (storesOf_activateModule base table _ _) 0,
    nil_append, storesOf, filterMap_map]
  exact filterMap_eq_nil_iff.2 fun _ _ => rfl

lemma activate_of_not {key : Nat} (h : ¬ (s.enabled = true ∧ s.activeKey ≠ key)) (table : Nat) :
    activate base s key table = (s, []) := by
  rw [activate, if_pos]
  simp only [Bool.or_eq_true, Bool.not_eq_true', beq_iff_eq]
  rw [not_and_or, not_not] at h
  exact h.imp_left (by simp)

lemma map_m_decided (s : State) (table : Nat) :
    ((decided base s table).1.map fun module => module.m) = s.modules.map fun module => module.m :=
  map_forModules (fun module : ModuleState => module.m)
    (fun i module => m_activateModule base table _ _ i module) 0

lemma freshStores_activate (s : State) (key table : Nat) :
    FreshStores s (activate base s key table) := by
  by_cases hskip : s.enabled = true ∧ s.activeKey ≠ key
  · obtain ⟨before, hbefore, hrun⟩ := activate_of_enabled base table hskip.1 hskip.2
    have hbump := (freshStores_bump base (activated s table (decided base s table).1)
      .activate).after (s := s) rfl (map_m_decided base s table) hbefore
    rw [hrun]
    exact ⟨hbump.counter, hbump.bound, hbump.fresh, hbump.nodup, hbump.own⟩
  · rw [activate_of_not base hskip]
    exact freshStores_refl s

/-- Registration needs words of their own for the new modules. -/
def GuardCall.OwnWords : GuardCall → Prop
  | setModules modules _ => (modules.map fun m => m.word).Nodup
  | _ => True

lemma storesOf_map_store (modules : List Module) (value : Nat) :
    storesOf (modules.map fun m => .store m.word value) = modules.map fun m => (m.word, value) := by
  rw [storesOf, filterMap_map]
  exact congrFun filterMap_eq_map' modules

lemma freshStores_setModules (s : State) {modules : List Module} (enabled : Bool)
    (hown : (modules.map fun m => m.word).Nodup) :
    FreshStores s (setModules s modules enabled) := by
  have hstores := storesOf_map_store modules kVerifyAlways
  refine ⟨le_rfl, id, fun word value hmem => ?_, fun _ => ?_, fun _ => ?_⟩
  · rw [setModules, hstores, mem_map] at hmem
    obtain ⟨m, -, heq⟩ := hmem
    exact .inl (congrArg Prod.snd heq).symm
  · rw [setModules, hstores, map_map]
    exact hown
  · rw [RecompGuardGen.OwnWords, setModules, map_map]
    exact hown

lemma FreshStores.unless (c : Bool) (hs' : FreshStores s (s', [])) (h : FreshStores s r) :
    FreshStores s (if c then (s', []) else r) := by
  cases c with
  | true => exact hs'
  | false => exact h

lemma GuardCall.freshStores (s : State) (call : GuardCall) (hown : call.OwnWords) :
    FreshStores s (call.locked base s) := by
  cases call with
  | setPinLogger fn | setTableSeenLogger fn => exact freshStores_of_noStores rfl rfl rfl
  | setModules modules enabled => exact freshStores_setModules s enabled hown
  | forget => exact ⟨le_rfl, id, nofun, fun _ => nodup_nil, fun _ => nodup_nil⟩
  | activate key table => exact freshStores_activate base s key table
  | onMap table va size pa writable =>
    obtain ⟨hmodules, hcounter⟩ : (logMapping (editLog s table va size fun _ => none)
        ⟨table, va, size, pa, writable⟩).modules = s.modules ∧
        (logMapping (editLog s table va size fun _ => none)
          ⟨table, va, size, pa, writable⟩).counter = s.counter := by
      rw [logMapping]
      split <;> exact modules_editLog s table va size fun _ => none
    exact .unless _ (freshStores_of_noStores hcounter (by rw [hmodules]) rfl)
      (freshStores_stickyWhere base _ _ _ hcounter hmodules)
  | onUnmap table va size =>
    obtain ⟨hmodules, hcounter⟩ := modules_editLog s table va size fun _ => none
    exact .unless _ (freshStores_of_noStores hcounter (by rw [hmodules]) rfl)
      (freshStores_stickyWhere base _ _ _ hcounter hmodules)
  | onProtect table va size writable =>
    obtain ⟨hmodules, hcounter⟩ := modules_editLog s table va size fun rec =>
      some { rec with writable := writable }
    exact .unless _ (freshStores_of_noStores hcounter (by rw [hmodules]) rfl)
      (freshStores_bumpWhen base _ _ hcounter
        ((map_m_pinModules _ _ _ _).trans (by rw [hmodules]))
        (storesOf_forModules (storesOf_pinModule _ _ _) 0 _))
  | onWatchedWrite table va size =>
    exact .unless _ (freshStores_refl s) (freshStores_bumpWhen base _ _ rfl rfl rfl)
  | onPointerExposed table va size =>
    simp only [locked, RecompGuardGen.onPointerExposed]
    split
    · split <;> exact freshStores_of_noStores rfl rfl rfl
    · exact .unless _ (freshStores_refl s) (freshStores_stickyWhere base _ _ _ rfl rfl)
  | onJitFallback => exact freshStores_stickyWhere base _ _ _ rfl rfl
  | onDeviceMap table va size =>
    exact .unless _ (freshStores_refl s) (freshStores_stickyWhere base _ _ _ rfl rfl)
  | onInvalidate va size => exact freshStores_bumpWhen base _ _ rfl rfl rfl
  | onInvalidateAll => exact freshStores_bump base s _
  | onPageTableSwap table =>
    refine (freshStores_bump base (trackTable s table) _).after rfl rfl ?_
    split <;> rfl

end Drippu.RecompGuardGen
