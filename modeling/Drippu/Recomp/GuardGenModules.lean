import Drippu.Recomp.GuardGenLog

/-!
# Recomp - What a call does to the modules

Moving the generation changes of a module at most its sticky flag, which is never
cleared, and leaves every module word at `kVerifyAlways` whose module is sticky or
not active.
-/

namespace Drippu.RecompGuardGen

open List Function

variable (base : Nat → Nat) {s : State} {words : Nat → Nat}

/-! ## Effects on the words -/

def applyEffect (words : Nat → Nat) : Effect → Nat → Nat
  | .store word value => update words word value
  | .watch _ _ => words
  | .pin _ _ _ => words
  | .tableSeen _ _ => words

/-- The words after some effects. -/
def applyEffects (words : Nat → Nat) (effects : List Effect) : Nat → Nat :=
  effects.foldl applyEffect words

@[simp]
lemma applyEffects_append (first rest : List Effect) :
    applyEffects words (first ++ rest) = applyEffects (applyEffects words first) rest :=
  foldl_append

/-- The stores among some effects, with their words. -/
def storesOf (effects : List Effect) : List (Nat × Nat) :=
  effects.filterMap fun
    | .store word value => some (word, value)
    | _ => none

@[simp]
lemma storesOf_nil : storesOf [] = [] :=
  rfl

@[simp]
lemma storesOf_append (first rest : List Effect) :
    storesOf (first ++ rest) = storesOf first ++ storesOf rest :=
  filterMap_append

@[simp]
lemma storesOf_store (word value : Nat) (effects : List Effect) :
    storesOf (.store word value :: effects) = (word, value) :: storesOf effects :=
  rfl

variable (pinLogger : Bool) (i : Nat) (module : ModuleState) (cause : PinCause)

@[simp]
lemma storesOf_markSticky (addr : Nat) :
    storesOf (markSticky pinLogger i module cause addr).2 = [] := by
  simp only [markSticky]
  split <;> rfl

lemma applyEffects_eq (effects : List Effect) (words : Nat → Nat) :
    applyEffects words effects =
      (storesOf effects).foldl (fun words p => update words p.1 p.2) words := by
  induction effects generalizing words with
  | nil => rfl
  | cons effect effects ih => cases effect <;> exact ih _

/-- A word into which a single value is stored has this value afterwards. -/
lemma applyEffects_of_mem {effects : List Effect} {word : Nat} (words : Nat → Nat) (value : Nat)
    (hmem : (word, value) ∈ storesOf effects)
    (hsame : ∀ v, (word, v) ∈ storesOf effects → v = value) :
    applyEffects words effects word = value := by
  rw [applyEffects_eq]
  generalize storesOf effects = stores at hmem hsame
  induction stores using List.reverseRecOn with
  | nil => cases hmem
  | append_singleton stores p ih =>
    rw [foldl_append, foldl_cons, foldl_nil, update_apply]
    split <;> rename_i hp
    · exact hsame p.2 (by simp [hp])
    · have hne : (word, value) ≠ p := fun heq => hp (heq ▸ rfl)
      exact ih (by simpa [hne] using hmem) fun v hv => hsame v (mem_append_left _ hv)

/-! ## The loop over the modules -/

section
variable {f : Nat → ModuleState → ModuleState × List Effect} {modules : List ModuleState}

lemma mem_forModules {i : Nat} {module' : ModuleState} (h : module' ∈ (forModules f i modules).1) :
    ∃ j, ∃ module ∈ modules, module' = (f j module).1 := by
  induction modules generalizing i with
  | nil => cases h
  | cons module modules ih =>
    rcases mem_cons.1 h with rfl | h
    · exact ⟨i, module, mem_cons_self, rfl⟩
    · obtain ⟨j, module'', hmem, heq⟩ := ih h
      exact ⟨j, module'', mem_cons_of_mem module hmem, heq⟩

lemma map_forModules {β : Type} (g : ModuleState → β) (hf : ∀ i module, g (f i module).1 = g module)
    (i : Nat) : (forModules f i modules).1.map g = modules.map g := by
  induction modules generalizing i with
  | nil => rfl
  | cons module modules ih => simp [forModules, hf, ih]

lemma forModules_of_eq (hf : ∀ i, ∀ module ∈ modules, f i module = (module, [])) (i : Nat) :
    forModules f i modules = (modules, []) := by
  induction modules generalizing i with
  | nil => rfl
  | cons module modules ih =>
    have hrest := ih (fun j m hm => hf j m (mem_cons_of_mem module hm)) (i + 1)
    simp [forModules, hf i module mem_cons_self, hrest]

end

/-! ## Bumps -/

/-- A module after a bump: the same module, which may have become sticky. -/
structure Advanced (module module' : ModuleState) : Prop where
  m : module'.m = module.m
  paRuns : module'.paRuns = module.paRuns
  sticky : module'.sticky = false → module.sticky = false

/-- The state after a bump, apart from the generation. -/
structure SameMappings (s s' : State) : Prop where
  enabled : s'.enabled = s.enabled
  active : s'.active = s.active
  activeTable : s'.activeTable = s.activeTable
  mapLog : s'.mapLog = s.mapLog
  tables : s'.tables = s.tables
  mapLogOverflow : s'.mapLogOverflow = s.mapLogOverflow
  watching : s'.watching = s.watching

/-- A word is only a generation if its module is active and not sticky. -/
def WordsOk (s : State) (words : Nat → Nat) : Prop :=
  ∀ module ∈ s.modules, words module.m.word ≠ kVerifyAlways →
    s.active = true ∧ module.sticky = false

/-- The modules have words of their own. -/
def OwnWords (modules : List ModuleState) : Prop :=
  (modules.map fun module => module.m.word).Nodup

lemma advanced_refl : Advanced module module :=
  ⟨rfl, rfl, id⟩

lemma advanced_markSticky (addr : Nat) :
    Advanced module (markSticky pinLogger i module cause addr).1 :=
  ⟨rfl, rfl, nofun⟩

lemma advanced_checkRebased (s : State) (i : Nat) (module : ModuleState) :
    Advanced module (checkRebased base s i module).1 := by
  rw [checkRebased]
  split
  · exact advanced_markSticky _ _ _ _ _
  · exact advanced_refl module

lemma m_bumpModule (s : State) (i : Nat) (module : ModuleState) :
    (bumpModule base s i module).1.m = module.m :=
  (advanced_checkRebased base s i module).m

lemma sameMappings_nextGeneration (s : State) : SameMappings s (nextGeneration s) := by
  rw [nextGeneration]
  split <;> constructor <;> rfl

lemma modules_nextGeneration (s : State) : (nextGeneration s).modules = s.modules := by
  rw [nextGeneration]
  split <;> rfl

lemma sameMappings_bump (s : State) (reason : Reason) : SameMappings s (bump base s reason).1 := by
  simp only [bump]
  split
  · constructor <;> rfl
  · obtain ⟨h1, h2, h3, h4, h5, h6, h7⟩ := sameMappings_nextGeneration (countBump s reason)
    exact ⟨h1, h2, h3, h4, h5, h6, h7⟩

lemma bump_of_enabled (henabled : s.enabled = true) (reason : Reason) :
    bump base s reason =
      ({ nextGeneration (countBump s reason) with
          modules := (forModules (bumpModule base (nextGeneration (countBump s reason))) 0
            (nextGeneration (countBump s reason)).modules).1 },
        (forModules (bumpModule base (nextGeneration (countBump s reason))) 0
          (nextGeneration (countBump s reason)).modules).2) := by
  simp only [bump]
  rw [if_neg (by simp [countBump, henabled])]

lemma mem_bump {reason : Reason} {module' : ModuleState}
    (h : module' ∈ (bump base s reason).1.modules) :
    ∃ module ∈ s.modules, Advanced module module' := by
  simp only [bump] at h
  split at h
  · exact ⟨module', h, advanced_refl module'⟩
  · obtain ⟨j, module, hmem, rfl⟩ := mem_forModules h
    rw [modules_nextGeneration] at hmem
    exact ⟨module, hmem, advanced_checkRebased base _ _ _⟩

lemma map_m_bump (s : State) (reason : Reason) :
    ((bump base s reason).1.modules.map fun module => module.m) =
      s.modules.map fun module => module.m := by
  simp only [bump]
  split
  · rfl
  · refine (map_forModules (fun module : ModuleState => module.m) (m_bumpModule base _) 0).trans ?_
    rw [modules_nextGeneration]
    rfl

lemma OwnWords.of_map_eq {modules modules' : List ModuleState} (h : OwnWords modules)
    (hmap : (modules'.map fun module => module.m) = modules.map fun module => module.m) :
    OwnWords modules' := by
  have hwords := congrArg (List.map fun m : Module => m.word) hmap
  simp only [map_map] at hwords
  rw [OwnWords]
  exact hwords ▸ h

lemma storesOf_bumpModule (s : State) (i : Nat) (module : ModuleState) :
    storesOf (bumpModule base s i module).2 =
      [(module.m.word, generation s (bumpModule base s i module).1)] := by
  simp only [bumpModule, checkRebased]
  split
  · rw [storesOf_append, storesOf_markSticky]
    rfl
  · rfl

lemma storesOf_bumpModules (s : State) (i : Nat) (modules : List ModuleState) :
    storesOf (forModules (bumpModule base s) i modules).2 =
      (forModules (bumpModule base s) i modules).1.map fun module =>
        (module.m.word, generation s module) := by
  induction modules generalizing i with
  | nil => rfl
  | cons module modules ih =>
    simp [forModules, storesOf_bumpModule, m_bumpModule, ih]

/-- After a bump, a word is a generation only if its module is active and not sticky. -/
lemma bump_wordsOk (henabled : s.enabled = true) (hown : OwnWords s.modules)
    (reason : Reason) (words : Nat → Nat) :
    WordsOk (bump base s reason).1 (applyEffects words (bump base s reason).2) := by
  have hown := hown.of_map_eq (map_m_bump base s reason)
  intro module' hmem hword
  rw [bump_of_enabled base henabled reason] at hown hmem hword ⊢
  rw [applyEffects_of_mem words (generation _ module'), generation] at hword
  · split at hword <;> rename_i hcond
    · exact absurd rfl hword
    · simp only [Bool.or_eq_true, Bool.not_eq_true', not_or, Bool.not_eq_true] at hcond
      exact ⟨by simpa using hcond.1.1, hcond.2⟩
  · rw [storesOf_bumpModules]
    exact mem_map_of_mem hmem
  · intro v hv
    rw [storesOf_bumpModules] at hv
    obtain ⟨module, hmem', heq⟩ := mem_map.1 hv
    obtain ⟨hsame, rfl⟩ := Prod.mk.inj heq
    rw [inj_on_of_nodup_map hown hmem' hmem hsame]

/-! ## Sticky modules -/

/-- What a call that can only pin modules and bump does. -/
structure Pins (s : State) (hit : ModuleState → Bool) (r : State × List Effect) : Prop where
  same : SameMappings s r.1
  modules : (r.1.modules.map fun module => module.m) = s.modules.map fun module => module.m
  mem : ∀ module' ∈ r.1.modules, ∃ module ∈ s.modules,
    Advanced module module' ∧ (module'.sticky = false → hit module = false)
  wordsOk : s.enabled = true → OwnWords s.modules → ∀ words, WordsOk s words →
    WordsOk r.1 (applyEffects words r.2)

lemma pins_of_same {s' : State} (hsame : SameMappings s s') (hmodules : s'.modules = s.modules) :
    Pins s (fun _ => false) (s', []) := by
  refine ⟨hsame, by rw [hmodules], fun module hmem => ?_, fun _ _ words h => ?_⟩
  · exact ⟨module, hmodules ▸ hmem, advanced_refl module, fun _ => rfl⟩
  · rw [WordsOk, hmodules, hsame.active]
    exact h

lemma pins_refl (s : State) : Pins s (fun _ => false) (s, []) :=
  pins_of_same ⟨rfl, rfl, rfl, rfl, rfl, rfl, rfl⟩ rfl

lemma pins_bump (s : State) (reason : Reason) : Pins s (fun _ => false) (bump base s reason) := by
  refine ⟨sameMappings_bump base s reason, map_m_bump base s reason, fun module' hmem => ?_,
    fun henabled hown words _ => bump_wordsOk base henabled hown reason words⟩
  obtain ⟨module, hmem, hadvanced⟩ := mem_bump base hmem
  exact ⟨module, hmem, hadvanced, fun _ => rfl⟩

/-- A bump under a condition.  Without it, no module may have been pinned. -/
lemma pins_bumpWhen {f : Nat → ModuleState → ModuleState × List Effect}
    {hit : ModuleState → Bool} {any : Bool} (reason : Reason)
    (hadvanced : ∀ i module, Advanced module (f i module).1 ∧
      ((f i module).1.sticky = false → hit module = false))
    (hnone : any = false → ∀ i, ∀ module ∈ s.modules, f i module = (module, [])) :
    Pins s hit (bumpWhen base { s with modules := (forModules f 0 s.modules).1 } any reason
      (forModules f 0 s.modules).2) := by
  have hmodules : ((forModules f 0 s.modules).1.map fun module => module.m) =
      s.modules.map fun module => module.m :=
    map_forModules (fun module : ModuleState => module.m)
      (fun i module => (hadvanced i module).1.m) 0
  cases any with
  | true =>
    have hbump := pins_bump base { s with modules := (forModules f 0 s.modules).1 } reason
    refine ⟨?_, ?_, ?_, ?_⟩
    · obtain ⟨h1, h2, h3, h4, h5, h6, h7⟩ := hbump.same
      exact ⟨h1, h2, h3, h4, h5, h6, h7⟩
    · exact hbump.modules.trans hmodules
    · intro module'' hmem
      obtain ⟨module', hmem', hadv, -⟩ := hbump.mem module'' hmem
      obtain ⟨i, module, hmem, rfl⟩ := mem_forModules hmem'
      obtain ⟨hfirst, hhit⟩ := hadvanced i module
      exact ⟨module, hmem, ⟨hadv.m.trans hfirst.m, hadv.paRuns.trans hfirst.paRuns,
        fun h => hfirst.sticky (hadv.sticky h)⟩, fun h => hhit (hadv.sticky h)⟩
    · intro henabled hown words _
      have hown' : OwnWords (forModules f 0 s.modules).1 := hown.of_map_eq hmodules
      simp only [bumpWhen, if_true, applyEffects_append]
      exact bump_wordsOk base (s := { s with modules := (forModules f 0 s.modules).1 }) henabled
        hown' reason _
  | false =>
    have hsame := forModules_of_eq (hnone rfl) 0
    rw [hsame]
    refine ⟨⟨rfl, rfl, rfl, rfl, rfl, rfl, rfl⟩, rfl, fun module hmem => ?_, fun _ _ _ h => h⟩
    refine ⟨module, hmem, advanced_refl module, fun hsticky => (hadvanced 0 module).2 ?_⟩
    rw [hnone rfl 0 module hmem]
    exact hsticky

lemma advanced_pinModule (hit : ModuleState → Option Nat) (i : Nat) (module : ModuleState) :
    Advanced module (pinModule pinLogger cause hit i module).1 ∧
      ((pinModule pinLogger cause hit i module).1.sticky = false →
        (hit module).isSome = false) := by
  rw [pinModule]
  cases hit module with
  | none => exact ⟨advanced_refl module, fun _ => rfl⟩
  | some addr => exact ⟨advanced_markSticky _ _ _ _ _, nofun⟩

lemma pinModule_of_none {pinLogger : Bool} {cause : PinCause} {hit : ModuleState → Option Nat}
    {i : Nat} {module : ModuleState} (h : (hit module).isSome = false) :
    pinModule pinLogger cause hit i module = (module, []) := by
  rw [pinModule]
  rw [Option.isSome_eq_false_iff, Option.isNone_iff_eq_none] at h
  rw [h]

/-- A module that is not sticky afterwards was not hit. -/
lemma pins_stickyWhere (s : State) (reason : Reason) (cause : PinCause)
    (hit : ModuleState → Option Nat) :
    Pins s (fun module => (hit module).isSome) (stickyWhere base s reason cause hit) := by
  refine pins_bumpWhen base reason (advanced_pinModule s.pinLogger cause hit)
    fun hany i module hmem => pinModule_of_none ?_
  exact Bool.not_eq_true _ ▸ any_eq_false.1 hany module hmem

end Drippu.RecompGuardGen
