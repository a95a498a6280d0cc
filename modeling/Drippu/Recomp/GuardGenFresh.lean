import Drippu.Recomp.GuardGenActivate
import Drippu.Recomp.GuardGenCores

/-!
# Recomp - Skipped comparisons are fresh

A body that skipped the comparison runs on a verification that started after every store
to the generation word before the block loaded that word.  The argument is that the
values of a word are never reused: a seen word equal to the generation word was recorded
by a verification that had loaded this very generation, and a generation has one store.

Main results:

- Theorem `Machine.runs_fresh`: freshness in every interleaving.
-/

namespace Drippu.RecompGuardGen

open Library List Function Nat

namespace Machine

open Option GuardRun

variable {κ β : Type} {blocks : Blocks β} {m m' : Machine κ β}

/-! ## The stores -/

/-- A value that the host may still store into a word during its call. -/
def FreshValue (m : Machine κ β) (word value : Nat) : Prop :=
  value = kVerifyAlways ∨ value = m.host.counter ∧ 0 < value ∧
    ∀ x ∈ m.stores, x.value = value → x.call = m.calls ∧ x.word ≠ word

/-- The generation words hold their last stores, and generations are not reused. -/
structure MemoryOk (m : Machine κ β) : Prop where
  own : OwnWords m.host.modules
  bound : m.host.counter < kVerifyAlways
  words : ∀ w, m.words w = kVerifyAlways ∨
    ∃ x ∈ m.stores, x.word = w ∧ x.value = m.words w ∧ ∀ y ∈ m.stores, y.word = w → y.time ≤ x.time
  past : ∀ x ∈ m.stores, x.time ≤ m.clock
  values : ∀ x ∈ m.stores, x.value = kVerifyAlways ∨ 0 < x.value ∧ x.value ≤ m.host.counter
  unique : ∀ x ∈ m.stores, ∀ y ∈ m.stores, x.value = y.value → x.value ≠ kVerifyAlways →
    x.call = y.call ∧ (x.word = y.word → x = y)
  nodup : ((storesOf m.pending).map Prod.fst).Nodup
  fresh : ∀ w v, (w, v) ∈ storesOf m.pending → m.FreshValue w v

variable {m₁ : Machine κ β}

section
variable (h : MemoryOk m)
include h

/-- Steps of the cores and changes of the code leave the stores alone. -/
lemma MemoryOk.tick (hhost : m₁.host = m.host) (hpending : m₁.pending = m.pending)
    (hwords : m₁.words = m.words) (hstores : m₁.stores = m.stores) (hclock : m₁.clock = m.clock)
    (hcalls : m₁.calls = m.calls) : MemoryOk m₁.tick := by
  cases m₁
  subst hhost hpending hwords hstores hclock hcalls
  exact ⟨h.own, h.bound, h.words, fun x hx => (h.past x hx).trans (le_succ _), h.values,
    h.unique, h.nodup, h.fresh⟩

lemma MemoryOk.call (base : Nat → Nat) {hostCall : GuardCall} (hown : hostCall.OwnWords) :
    MemoryOk (Machine.tick { m with
      host := (hostCall.locked base m.host).1,
      pending := (hostCall.locked base m.host).2,
      calls := m.calls + 1 }) := by
  have hfresh := hostCall.freshStores base m.host hown
  refine ⟨hfresh.own h.own, hfresh.bound h.bound, h.words,
    fun x hx => (h.past x hx).trans (le_succ _), fun x hx => ?_, h.unique,
    hfresh.nodup h.own, fun w v hmem => ?_⟩
  · exact (h.values x hx).imp_right fun hx => ⟨hx.1, hx.2.trans hfresh.counter⟩
  rcases hfresh.fresh w v hmem with hv | ⟨hv, hlt⟩
  · exact .inl hv
  · -- all earlier values are at most the old counter
    refine .inr ⟨hv, by omega, fun x hx hvalue => ?_⟩
    have hbound := hfresh.bound h.bound
    rcases h.values x hx with hx | hx <;> omega

variable {gen k seenAt t value wordAt : Nat}

/-- A store of a value that is still fresh, with the effects that are left. -/
lemma MemoryOk.storeWord {word : Nat} {rest : List Effect} (hvalue : m.FreshValue word value)
    (hnodup : ((storesOf rest).map Prod.fst).Nodup)
    (hrest : ∀ p ∈ storesOf rest, p ∈ storesOf m.pending ∧ (value = kVerifyAlways ∨ p.1 ≠ word)) :
    MemoryOk (Machine.tick { m.storeWord word value with pending := rest }) := by
  have hnow : ∀ y ∈ m.stores, y.time ≤ m.now := fun y hy => (h.past y hy).trans (le_succ _)
  refine ⟨h.own, h.bound, fun w => ?_, ?_, ?_, ?_, hnodup, fun w v hmem => ?_⟩
  · by_cases hw : w = word
    · subst hw
      have hstored : value = update m.words w value w := (update_self w value m.words).symm
      refine .inr ⟨_, mem_cons_self, rfl, hstored, ?_⟩
      exact forall_mem_cons.2 ⟨fun _ => le_rfl, fun y hy _ => hnow y hy⟩
    · simp only [Machine.tick, Machine.storeWord, update_of_ne hw]
      rcases h.words w with hv | ⟨x, hx, hxw, hxv, hlast⟩
      · exact .inl hv
      · refine .inr ⟨x, mem_cons_of_mem _ hx, hxw, hxv, fun y hy hyw => ?_⟩
        rcases mem_cons.1 hy with rfl | hy
        · exact absurd hyw.symm hw
        · exact hlast y hy hyw
  · exact forall_mem_cons.2 ⟨le_rfl, hnow⟩
  · refine forall_mem_cons.2 ⟨?_, h.values⟩
    exact hvalue.imp_right fun hvalue => ⟨hvalue.2.1, hvalue.1.le⟩
  · -- a new generation differs from the older stores to its word
    have hnew : ∀ y ∈ m.stores, y.value = value → value ≠ kVerifyAlways →
        y.call = m.calls ∧ y.word ≠ word := fun y hy heq hne =>
      (hvalue.resolve_left hne).2.2 y hy heq
    refine forall_mem_cons.2 ⟨forall_mem_cons.2 ⟨fun _ _ => ⟨rfl, fun _ => rfl⟩,
      fun y hy heq hne => ?_⟩, fun x hx => forall_mem_cons.2 ⟨fun heq hne => ?_,
      h.unique x hx⟩⟩
    · obtain ⟨hcall, hword⟩ := hnew y hy heq.symm hne
      exact ⟨hcall.symm, fun h => absurd h.symm hword⟩
    · obtain ⟨hcall, hword⟩ := hnew x hx heq fun hv => hne (heq.trans hv)
      exact ⟨hcall, fun h => absurd h hword⟩
  · obtain ⟨hpending, hother⟩ := hrest _ hmem
    refine (h.fresh w v hpending).imp_right fun ⟨hv, hpos, hold⟩ => ⟨hv, hpos, ?_⟩
    refine forall_mem_cons.2 ⟨fun heq => ⟨rfl, ?_⟩, hold⟩
    have hbound := h.bound
    rcases hother with hother | hother
    · simp only at heq
      omega
    · exact hother.symm

lemma MemoryOk.effect {effect : Effect} {rest : List Effect}
    (hpending : m.pending = effect :: rest) :
    MemoryOk (Machine.tick { m.applyEffect effect with pending := rest }) := by
  have hnodup := h.nodup
  have hfresh := h.fresh
  rw [hpending] at hnodup hfresh
  cases effect with
  | store word value =>
    rw [storesOf_store, map_cons, nodup_cons] at hnodup
    refine h.storeWord (hfresh word value mem_cons_self) hnodup.2 fun p hp => ?_
    refine ⟨hpending ▸ mem_cons_of_mem _ hp, .inr fun heq => hnodup.1 ?_⟩
    exact mem_map.2 ⟨p, hp, heq⟩
  | _ =>
    exact ⟨h.own, h.bound, h.words, fun x hx => (h.past x hx).trans (le_succ _), h.values,
      h.unique, hnodup, hfresh⟩

end

/-! ## The history grows -/

/-- A later machine of a run, as far as the history goes. -/
structure Extends (m m' : Machine κ β) : Prop where
  clock : m.clock ≤ m'.clock
  stores : ∀ x ∈ m.stores, x ∈ m'.stores
  newer : ∀ x ∈ m'.stores, x ∈ m.stores ∨ m.clock < x.time
  checks : ∀ check ∈ m.checks, check ∈ m'.checks
  codeAt : ∀ t ≤ m.clock, m'.codeAt t = m.codeAt t

lemma extends_tick (hclock : m₁.clock = m.clock) (hcodeAt : m₁.codeAt = m.codeAt)
    (hstores : ∀ x ∈ m.stores, x ∈ m₁.stores)
    (hnewer : ∀ x ∈ m₁.stores, x ∈ m.stores ∨ m.clock < x.time)
    (hchecks : ∀ check ∈ m.checks, check ∈ m₁.checks) : Extends m m₁.tick := by
  refine ⟨hclock ▸ le_succ _, hstores, hnewer, hchecks, fun t ht => ?_⟩
  rw [← hcodeAt]
  exact update_of_ne (by rw [now]; omega) ..

lemma extends_of_same (hclock : m₁.clock = m.clock) (hcodeAt : m₁.codeAt = m.codeAt)
    (hstores : m₁.stores = m.stores) (hchecks : m₁.checks = m.checks) : Extends m m₁.tick :=
  extends_tick hclock hcodeAt (fun _ => hstores ▸ id) (fun _ hx => .inl (hstores ▸ hx))
    fun _ => hchecks ▸ id

lemma extends_storeWord (m : Machine κ β) (word value : Nat) (rest : List Effect) :
    Extends m (Machine.tick { m.storeWord word value with pending := rest }) := by
  refine extends_tick rfl rfl (fun _ => mem_cons_of_mem _) ?_ fun _ => id
  exact forall_mem_cons.2 ⟨.inr (lt_succ_self _), fun _ => .inl⟩

lemma extends_applyEffect (m : Machine κ β) (effect : Effect) (rest : List Effect) :
    Extends m (Machine.tick { m.applyEffect effect with pending := rest }) := by
  cases effect with
  | store word value => exact extends_storeWord m word value rest
  | _ => exact extends_of_same rfl rfl rfl rfl

lemma extends_setCore [DecidableEq κ] (m : Machine κ β) (c : κ) (phase : Phase β) :
    Extends m (m.setCore c phase).tick :=
  extends_of_same rfl rfl rfl rfl

/-! ## What the cores know -/

/-- The generation that a verification loaded at some time. -/
def Loaded (blocks : Blocks β) (m : Machine κ β) (b : β) (gen start : Nat) : Prop :=
  gen = kVerifyAlways ∨ ∃ x ∈ m.stores, x.word = blocks.word b ∧ x.value = gen ∧ x.time < start

/-- The first `k` words of a block were read as expected during an interval. -/
def Compared (blocks : Blocks β) (codeAt : Nat → β → Nat → Option Nat) (b : β)
    (start finish k : Nat) : Prop :=
  ∀ j < k, ∃ t, start < t ∧ t ≤ finish ∧ codeAt t b j = (blocks.expected b)[j]?

/-- What is known of a verification that passed. -/
structure CheckOk (blocks : Blocks β) (m : Machine κ β) (check : Check β) : Prop where
  past : check.finish ≤ m.clock
  loaded : Loaded blocks m check.block check.gen check.start
  compared : Compared blocks m.codeAt check.block check.start check.finish
    (blocks.expected check.block).length

/-- A value of the seen word of a block, loaded at time `t`. -/
def SeenOk (m : Machine κ β) (b : β) (value t : Nat) : Prop :=
  value = 0 ∨ value ≠ kVerifyAlways ∧
    ∃ check ∈ m.checks, check.block = b ∧ check.gen = value ∧ check.finish < t

/-- A value of the generation word of a block, loaded at time `t`: the last store
before then. -/
def WordOk (blocks : Blocks β) (m : Machine κ β) (b : β) (value t : Nat) : Prop :=
  t ≤ m.clock ∧ (value = kVerifyAlways ∨
    ∃ x ∈ m.stores, x.word = blocks.word b ∧ x.value = value ∧ x.time < t ∧
      ∀ y ∈ m.stores, y.word = blocks.word b → y.time < t → y.time ≤ x.time)

/-- Some verification of a block, over before one time, started after all stores to its
generation word before another. -/
def Verified (blocks : Blocks β) (m : Machine κ β) (b : β) (seenAt wordAt : Nat) : Prop :=
  ∃ check ∈ m.checks, check.block = b ∧ check.finish < seenAt ∧
    Compared blocks m.codeAt b check.start check.finish (blocks.expected b).length ∧
    ∀ x ∈ m.stores, x.word = blocks.word b → x.time < wordAt → x.time < check.start

def PhaseOk (blocks : Blocks β) (m : Machine κ β) : Phase β → Prop
  | .guard b seen word =>
    (∀ r ∈ seen, SeenOk m b r.1 r.2) ∧ ∀ r ∈ word, WordOk blocks m b r.1 r.2
  | .codeGuard b gen start k _ =>
    start ≤ m.clock ∧ Loaded blocks m b gen start ∧ Compared blocks m.codeAt b start m.clock k
  | .codeGuardGen b gen _ => ∃ check ∈ m.checks, check.block = b ∧ check.gen = gen
  | .body b (some (seenAt, wordAt)) => wordAt ≤ m.clock ∧ Verified blocks m b seenAt wordAt
  | _ => True

variable {phase : Phase β}

section
variable (hext : Extends m m')
include hext

lemma Loaded.mono {b : β} {start : Nat} (h : Loaded blocks m b gen start) :
    Loaded blocks m' b gen start :=
  h.imp_right fun ⟨x, hx, hload⟩ => ⟨x, hext.stores x hx, hload⟩

lemma Compared.mono {b : β} {start finish finish' : Nat}
    (h : Compared blocks m.codeAt b start finish k) (hpast : finish ≤ m.clock)
    (hfinish : finish ≤ finish') : Compared blocks m'.codeAt b start finish' k := by
  intro j hj
  obtain ⟨t, hstart, ht, hread⟩ := h j hj
  exact ⟨t, hstart, ht.trans hfinish, by rw [hext.codeAt t (ht.trans hpast), hread]⟩

lemma CheckOk.mono {check : Check β} (h : CheckOk blocks m check) : CheckOk blocks m' check :=
  ⟨h.past.trans hext.clock, h.loaded.mono hext, h.compared.mono hext h.past le_rfl⟩

lemma SeenOk.mono {b : β} {t' : Nat} (h : SeenOk m b value t) (ht : t ≤ t') :
    SeenOk m' b value t' :=
  h.imp_right fun ⟨hvalue, check, hcheck, hb, hgen, hfinish⟩ =>
    ⟨hvalue, check, hext.checks check hcheck, hb, hgen, hfinish.trans_le ht⟩

lemma Extends.mem_of_lt {x : Store} (hx : x ∈ m'.stores) (hlt : x.time < t)
    (ht : t ≤ m.clock) : x ∈ m.stores :=
  (hext.newer x hx).resolve_right (by omega)

lemma WordOk.mono {b : β} (h : WordOk blocks m b value t) : WordOk blocks m' b value t := by
  obtain ⟨ht, hvalue⟩ := h
  refine ⟨ht.trans hext.clock, hvalue.imp_right ?_⟩
  rintro ⟨x, hx, hword, hxv, hlt, hlast⟩
  refine ⟨x, hext.stores x hx, hword, hxv, hlt, fun y hy hyword hylt => ?_⟩
  exact hlast y (hext.mem_of_lt hy hylt ht) hyword hylt

lemma Verified.mono {b : β} (h : Verified blocks m b seenAt wordAt)
    (hchecks : ∀ check ∈ m.checks, CheckOk blocks m check) (ht : wordAt ≤ m.clock) :
    Verified blocks m' b seenAt wordAt := by
  obtain ⟨check, hcheck, hb, hfinish, hcompared, hlast⟩ := h
  refine ⟨check, hext.checks check hcheck, hb, hfinish,
    hcompared.mono hext (hchecks check hcheck).past le_rfl, fun x hx hword hlt => ?_⟩
  exact hlast x (hext.mem_of_lt hx hlt ht) hword hlt

lemma PhaseOk.mono (h : PhaseOk blocks m phase)
    (hchecks : ∀ check ∈ m.checks, CheckOk blocks m check) : PhaseOk blocks m' phase := by
  cases phase with
  | outside | miss b => trivial
  | guard b seen word =>
    exact ⟨fun r hr => (h.1 r hr).mono hext le_rfl, fun r hr => (h.2 r hr).mono hext⟩
  | codeGuard b gen start k fast =>
    exact ⟨h.1.trans hext.clock, h.2.1.mono hext, h.2.2.mono hext le_rfl hext.clock⟩
  | codeGuardGen b gen start =>
    obtain ⟨check, hcheck, hb, hgen⟩ := h
    exact ⟨check, hext.checks check hcheck, hb, hgen⟩
  | body b skipped =>
    cases skipped with
    | none => trivial
    | some times => exact ⟨h.1.trans hext.clock, h.2.mono hext hchecks h.1⟩

end

/-! ## The invariant -/

structure Invariant (blocks : Blocks β) (m : Machine κ β) : Prop where
  memory : MemoryOk m
  checks : ∀ check ∈ m.checks, CheckOk blocks m check
  seen : ∀ b, SeenOk m b (m.seen b) m.now
  cores : ∀ c, PhaseOk blocks m (m.core c)

lemma Invariant.step (h : Invariant blocks m) (hmemory : MemoryOk m₁.tick)
    (hext : Extends m m₁.tick)
    (hchecks : ∀ check ∈ m₁.checks, check ∈ m.checks ∨ CheckOk blocks m₁.tick check)
    (hseen : ∀ b, m₁.seen b = m.seen b ∨ SeenOk m₁.tick b (m₁.seen b) m₁.tick.now)
    (hcores : ∀ c, m₁.core c = m.core c ∨ PhaseOk blocks m₁.tick (m₁.core c)) :
    Invariant blocks m₁.tick := by
  refine ⟨hmemory, fun check hcheck => ?_, fun b => ?_, fun c => ?_⟩
  · exact (hchecks check hcheck).elim (fun hold => (h.checks check hold).mono hext) id
  · refine (hseen b).elim (fun hsame => ?_) id
    show SeenOk m₁.tick b (m₁.seen b) _
    rw [hsame]
    exact (h.seen b).mono hext (succ_le_succ hext.clock)
  · refine (hcores c).elim (fun hsame => ?_) id
    show PhaseOk blocks m₁.tick (m₁.core c)
    rw [hsame]
    exact (h.cores c).mono hext h.checks

section
variable (hmemory : MemoryOk m)
include hmemory

/-- A body may skip the comparison when the two loaded words are equal: the verification
that recorded the seen word had loaded the generation after its only store. -/
lemma verified_of_equal (hchecks : ∀ check ∈ m.checks, CheckOk blocks m check) {b : β}
    (hseen : SeenOk m b value seenAt) (hword : WordOk blocks m b value wordAt) :
    Verified blocks m b seenAt wordAt := by
  have hpos : ∀ x ∈ m.stores, x.value ≠ 0 := by
    intro x hx hzero
    rcases hmemory.values x hx with hv | hv
    · exact absurd (hzero.symm.trans hv) (by decide)
    · omega
  obtain ⟨-, rfl | ⟨x, hx, hxword, rfl, hxlt, hlast⟩⟩ := hword
  · rcases hseen with hzero | ⟨hne, -⟩
    · exact absurd hzero (by decide)
    · exact absurd rfl hne
  obtain ⟨hne, check, hcheck, rfl, hgen, hfinish⟩ := hseen.resolve_left (hpos x hx)
  have hok := hchecks check hcheck
  refine ⟨check, hcheck, rfl, hfinish, hok.compared, fun y hy hyword hylt => ?_⟩
  -- the store that the verification saw is the last one before the load
  obtain ⟨x', hx', hxword', hxvalue', hxlt'⟩ := hok.loaded.resolve_left (hgen ▸ hne)
  obtain rfl : x = x' :=
    (hmemory.unique x hx x' hx' (hgen.symm.trans hxvalue'.symm) hne).2 (hxword.trans hxword'.symm)
  exact (hlast y hy hyword hylt).trans_lt hxlt'

lemma loaded_words (b : β) : Loaded blocks m b (m.words (blocks.word b)) m.now :=
  (hmemory.words (blocks.word b)).imp_right fun ⟨x, hx, hword, hvalue, _⟩ =>
    ⟨x, hx, hword, hvalue, lt_succ_of_le (hmemory.past x hx)⟩

lemma wordOk_words (b : β) : WordOk blocks m.tick b (m.words (blocks.word b)) m.now :=
  ⟨le_rfl, (hmemory.words (blocks.word b)).imp_right fun ⟨x, hx, hword, hvalue, hlast⟩ =>
    ⟨x, hx, hword, hvalue, lt_succ_of_le (hmemory.past x hx), fun y hy hyw _ => hlast y hy hyw⟩⟩

end

/-! ## Freshness -/

/-- Freshness: a body that skipped the comparison follows a verification that started
after the last store to the generation word before the block loaded it;
`kVerifyAlways` is never recorded; different calls store different generations, and
no call stores a generation twice into one word; and a block is verified again as long
as every verification of it began before some store to its generation word. -/
structure Fresh (blocks : Blocks β) (m : Machine κ β) : Prop where
  skipped : ∀ c b seenAt wordAt, m.core c = .body b (some (seenAt, wordAt)) →
    Verified blocks m b seenAt wordAt
  recorded : ∀ b, m.seen b ≠ kVerifyAlways
  unique : ∀ x ∈ m.stores, ∀ y ∈ m.stores, x.value = y.value → x.value ≠ kVerifyAlways →
    x.call = y.call ∧ (x.word = y.word → x = y)
  again : ∀ b, (∀ check ∈ m.checks, check.block = b →
      ∃ x ∈ m.stores, x.word = blocks.word b ∧ check.start ≤ x.time) →
    m.seen b ≠ m.words (blocks.word b)

lemma Invariant.fresh (h : Invariant blocks m) : Fresh blocks m := by
  refine ⟨fun c b seenAt wordAt hcore => ?_, fun b hseen => ?_, h.memory.unique,
    fun b hraced hequal => ?_⟩
  · have hphase := h.cores c
    rw [hcore] at hphase
    exact hphase.2
  · rcases h.seen b with hzero | ⟨hne, -⟩
    · exact absurd (hzero.symm.trans hseen) (by decide)
    · exact hne hseen
  have hseen := (h.seen b).mono (extends_of_same rfl rfl rfl rfl) le_rfl
  have hmemory : MemoryOk m.tick := h.memory.tick rfl rfl rfl rfl rfl rfl
  have hchecks : ∀ check ∈ m.tick.checks, CheckOk blocks m.tick check := fun check hcheck =>
    (h.checks check hcheck).mono (extends_of_same rfl rfl rfl rfl)
  rw [hequal] at hseen
  obtain ⟨check, hcheck, hb, -, -, hlast⟩ :=
    verified_of_equal hmemory hchecks hseen (wordOk_words h.memory b)
  obtain ⟨x, hx, hword, hstart⟩ := hraced check hcheck hb
  have hlt := hlast x hx hword (lt_succ_of_le (h.memory.past x hx))
  omega

/-! ## Steps -/

/-- A step of the host, or of a module on its own word, leaves the cores alone. -/
lemma Invariant.hostStep (h : Invariant blocks m) (hmemory : MemoryOk m₁.tick)
    (hext : Extends m m₁.tick) (hchecks : m₁.checks = m.checks) (hseen : m₁.seen = m.seen)
    (hcore : m₁.core = m.core) : Invariant blocks m₁.tick :=
  h.step hmemory hext (fun _ hcheck => .inl (hchecks ▸ hcheck)) (fun b => .inl (by rw [hseen]))
    fun c => .inl (by rw [hcore])

variable [DecidableEq κ] {c : κ} {b : β}

lemma PhaseOk.setCore (hphase : PhaseOk blocks m₁ phase) (c' : κ) :
    (m.setCore c phase).core c' = m.core c' ∨ PhaseOk blocks m₁ ((m.setCore c phase).core c') := by
  by_cases hc : c' = c
  · subst hc
    simp only [Machine.setCore, update_self]
    exact .inr hphase
  · exact .inl (update_of_ne hc ..)

section
variable (h : Invariant blocks m)
include h

omit [DecidableEq κ] in
lemma Invariant.phaseOk (hcore : m.core c = phase) : PhaseOk blocks m phase :=
  hcore ▸ h.cores c

lemma Invariant.setCore (hphase : PhaseOk blocks (m.setCore c phase).tick phase) :
    Invariant blocks (m.setCore c phase).tick :=
  h.step (h.memory.tick rfl rfl rfl rfl rfl rfl) (extends_setCore m c _) (fun _ => .inl)
    (fun _ => .inl rfl) hphase.setCore

lemma Invariant.loadSeen {word : Option (Nat × Nat)} (hcore : m.core c = .guard b none word) :
    Invariant blocks (m.setCore c (.guard b (some (m.seen b, m.now)) word)).tick := by
  have hphase := h.phaseOk hcore
  refine h.setCore ⟨?_, fun r hr => (hphase.2 r hr).mono (extends_setCore m c _)⟩
  rintro r ⟨⟩
  exact (h.seen b).mono (extends_setCore m c _) le_rfl

lemma Invariant.loadWord {seen : Option (Nat × Nat)} (hcore : m.core c = .guard b seen none) :
    Invariant blocks
      (m.setCore c (.guard b seen (some (m.words (blocks.word b), m.now)))).tick := by
  have hphase := h.phaseOk hcore
  refine h.setCore ⟨fun r hr => (hphase.1 r hr).mono (extends_setCore m c _) le_rfl, ?_⟩
  rintro r ⟨⟩
  exact wordOk_words h.memory b

lemma Invariant.compare {seen word : Nat}
    (hcore : m.core c = .guard b (some (seen, seenAt)) (some (word, wordAt))) :
    Invariant blocks (m.setCore c
      (if seen = word then .body b (some (seenAt, wordAt)) else .miss b)).tick := by
  have hphase := h.phaseOk hcore
  refine h.setCore ?_
  split <;> rename_i heq
  · subst heq
    have hword := hphase.2 _ rfl
    refine ⟨hword.1.trans (le_succ _), ?_⟩
    exact (verified_of_equal h.memory h.checks (hphase.1 _ rfl) hword).mono
      (extends_setCore m c _) h.checks hword.1
  · trivial

lemma Invariant.loadGen (fast : Bool) :
    Invariant blocks (m.setCore c (.codeGuard b (m.words (blocks.word b)) m.now 0 fast)).tick :=
  h.setCore ⟨le_rfl, (loaded_words h.memory b).mono (extends_setCore m c _), nofun⟩

variable {fast : Bool} {start : Nat}

lemma Invariant.compareWord (hcore : m.core c = .codeGuard b gen start k fast)
    (hcompare : Machine.compareWord blocks m b gen start k fast = some phase) :
    Invariant blocks (m.setCore c phase).tick := by
  obtain ⟨hstart, hloaded, hcompared⟩ := h.phaseOk hcore
  have hext := extends_setCore m c
  simp only [Machine.compareWord] at hcompare
  split at hcompare
  · cases hcompare
  rename_i word hword
  split at hcompare
  · rename_i hread
    obtain rfl := some.inj hcompare
    refine h.setCore ⟨hstart.trans (hext _).clock, hloaded.mono (hext _), fun j hj => ?_⟩
    rcases Nat.lt_succ_iff_lt_or_eq.1 hj with hj | rfl
    · exact hcompared.mono (hext _) le_rfl (hext _).clock j hj
    · -- the word is read at this very step
      refine ⟨m.now, lt_succ_of_le hstart, le_rfl, ?_⟩
      show update m.codeAt m.now m.code m.now b j = _
      rw [update_self, hread, hword]
  · split at hcompare
    · obtain rfl := some.inj hcompare
      exact h.setCore ⟨hstart.trans (hext _).clock, hloaded.mono (hext _), nofun⟩
    · obtain rfl := some.inj hcompare
      exact h.setCore trivial

lemma Invariant.fallBack (hcore : m.core c = .codeGuard b gen start k fast) :
    Invariant blocks (m.setCore c (.codeGuard b gen start 0 false)).tick := by
  have hphase := h.phaseOk hcore
  have hext := extends_setCore m c (.codeGuard b gen start 0 false)
  exact h.setCore ⟨hphase.1.trans hext.clock, hphase.2.1.mono hext, nofun⟩

lemma Invariant.pass (hcore : m.core c = .codeGuard b gen start (blocks.expected b).length fast) :
    Invariant blocks (Machine.tick { m.setCore c (.codeGuardGen b gen start) with
      checks := ⟨b, gen, start, m.now⟩ :: m.checks }) := by
  obtain ⟨hstart, hloaded, hcompared⟩ := h.phaseOk hcore
  have hext : Extends m (Machine.tick { m.setCore c (.codeGuardGen b gen start) with
      checks := ⟨b, gen, start, m.now⟩ :: m.checks }) :=
    extends_tick rfl rfl (fun _ => id) (fun _ => .inl) fun _ => mem_cons_of_mem _
  refine h.step (h.memory.tick rfl rfl rfl rfl rfl rfl) hext ?_ (fun _ => .inl rfl)
    (PhaseOk.setCore ⟨_, mem_cons_self, rfl, rfl⟩)
  refine forall_mem_cons.2 ⟨.inr ?_, fun _ => .inl⟩
  exact ⟨le_rfl, hloaded.mono hext, hcompared.mono hext le_rfl (le_succ _)⟩

variable [DecidableEq β]

lemma Invariant.publish (hcore : m.core c = .codeGuardGen b gen start) :
    Invariant blocks (Machine.tick { m.setCore c (.body b none) with
      seen := if gen = kVerifyAlways then m.seen else update m.seen b gen }) := by
  obtain ⟨check, hcheck, rfl, rfl⟩ := h.phaseOk hcore
  refine h.step (h.memory.tick rfl rfl rfl rfl rfl rfl) (extends_of_same rfl rfl rfl rfl)
    (fun _ => .inl) (fun b' => ?_) (PhaseOk.setCore trivial)
  dsimp only
  split <;> rename_i hgen
  · exact .inl rfl
  by_cases hb : b' = check.block
  · subst hb
    rw [update_self]
    refine .inr (.inr ⟨hgen, check, hcheck, rfl, rfl, ?_⟩)
    exact lt_succ_of_le ((h.checks check hcheck).past.trans (le_succ _))
  · exact .inl (update_of_ne hb ..)

lemma Invariant.act {action : Action κ β} (hown : action.OwnWords)
    (hact : m.act blocks action = some m') : Invariant blocks m' := by
  cases action with
  | call base hostCall =>
    rw [Machine.act] at hact
    split at hact <;> cases hact
    exact h.hostStep (h.memory.call base hown) (extends_of_same rfl rfl rfl rfl) rfl rfl rfl
  | effect =>
    rw [Machine.act] at hact
    split at hact <;> cases hact
    rename_i effect rest hpending
    refine h.hostStep (h.memory.effect hpending) (extends_applyEffect m effect rest) ?_ ?_ ?_
    all_goals cases effect <;> rfl
  | resetWord word =>
    cases hact
    refine h.hostStep ?_ (extends_storeWord m word kVerifyAlways m.pending) rfl rfl rfl
    exact h.memory.storeWord (.inl rfl) h.memory.nodup fun p hp => ⟨hp, .inl rfl⟩
  | writeCode code =>
    cases hact
    exact h.hostStep (h.memory.tick rfl rfl rfl rfl rfl rfl)
      (extends_of_same rfl rfl rfl rfl) rfl rfl rfl
  | enter c b =>
    rw [Machine.act] at hact
    split at hact <;> cases hact
    exact h.setCore ⟨nofun, nofun⟩
  | loadSeen c =>
    rw [Machine.act] at hact
    split at hact <;> cases hact
    exact h.loadSeen ‹_›
  | loadWord c =>
    rw [Machine.act] at hact
    split at hact <;> cases hact
    exact h.loadWord ‹_›
  | compare c =>
    rw [Machine.act] at hact
    split at hact <;> cases hact
    exact h.compare ‹_›
  | loadGen c fast =>
    rw [Machine.act] at hact
    split at hact <;> cases hact
    exact h.loadGen fast
  | compareWord c =>
    rw [Machine.act] at hact
    split at hact
    · obtain ⟨phase, hphase, rfl⟩ := map_eq_some_iff.1 hact
      exact h.compareWord ‹_› hphase
    · cases hact
  | fallBack c =>
    rw [Machine.act] at hact
    split at hact <;> cases hact
    exact h.fallBack ‹_›
  | pass c =>
    rw [Machine.act] at hact
    split at hact <;> [split at hact; skip] <;> cases hact
    rename_i hcore hlength
    exact h.pass (hlength ▸ hcore)
  | publish c =>
    rw [Machine.act] at hact
    split at hact <;> cases hact
    exact h.publish ‹_›
  | leave c =>
    cases hact
    exact h.setCore trivial

end

variable [DecidableEq β]

lemma runs_invariant (h : (runs κ blocks).Reachable m) : Invariant blocks m := by
  refine h.invariant (P := Invariant blocks) ?_ ?_
  · rintro _ ⟨code, rfl⟩
    refine ⟨⟨nodup_nil, (by decide : 0 < kVerifyAlways), fun _ => .inl rfl, nofun, nofun,
      nofun, nodup_nil, nofun⟩, nofun, fun _ => .inl rfl, fun _ => trivial⟩
  · rintro m m' - hm ⟨action, hown, hact⟩
    exact hm.act hown hact

/-- Every interleaving is fresh. -/
theorem runs_fresh (h : (runs κ blocks).Reachable m) : Fresh blocks m :=
  (runs_invariant h).fresh

/-! ## A bump during an entry -/

/-- Several steps. -/
def acts (blocks : Blocks β) (m : Machine κ β) : List (Action κ β) → Option (Machine κ β)
  | [] => some m
  | action :: rest => (m.act blocks action).bind fun m' => acts blocks m' rest

lemma reachable_acts {actions : List (Action κ β)} (h : (runs κ blocks).Reachable m)
    (hown : ∀ action ∈ actions, action.OwnWords) (hacts : acts blocks m actions = some m') :
    (runs κ blocks).Reachable m' := by
  induction actions generalizing m with
  | nil =>
    obtain rfl := some.inj hacts
    exact h
  | cons action rest ih =>
    obtain ⟨m₁, hact, hrest⟩ := bind_eq_some_iff.1 hacts
    obtain ⟨hfirst, hown⟩ := forall_mem_cons.1 hown
    exact ih (.next h ⟨action, hfirst, hact⟩) hown hrest

/-- One block of one word in the module `GuardRun.codeModule`. -/
def oneBlock : Blocks Unit where
  word _ := codeModule.word
  expected _ := [7]

def hostCall (call : GuardCall) (effects : Nat) : List (Action Bool Unit) :=
  .call codeBase call :: List.replicate effects .effect

/-- The module is activated, one core verifies the block, and another core enters it and
loads the two words. -/
def secondEntry : List (Action Bool Unit) :=
  hostCall (.setModules [codeModule] true) 1 ++ hostCall (.onPageTableSwap 1) 1 ++
    hostCall (.onMap 1 0x1000 0x2000 0x80000000 false) 0 ++ hostCall (.activate 1 1) 2 ++
    [.enter false (), .loadSeen false, .loadWord false, .compare false, .loadGen false true,
      .compareWord false, .pass false, .publish false, .leave false,
      .enter true (), .loadSeen true, .loadWord true]

lemma ownWords_secondEntry : ∀ action ∈ secondEntry, action.OwnWords := by
  simp [secondEntry, hostCall, Action.OwnWords, GuardCall.OwnWords]

/-- The second entry skips the comparison. -/
theorem runs_fresh_second_entry :
    ∃ m, acts oneBlock (start fun _ _ => some 7) (secondEntry ++ [.compare true]) = some m ∧
      m.core true = .body () (some (19, 20)) ∧ Fresh oneBlock m := by
  have hown : ∀ action ∈ secondEntry ++ [.compare true], action.OwnWords :=
    forall_mem_append.2 ⟨ownWords_secondEntry, by simp [Action.OwnWords]⟩
  have hrun : (acts oneBlock (start fun _ _ => some 7) (secondEntry ++ [.compare true])).map
      (fun m => m.core true) = some (.body () (some (19, 20))) := rfl
  obtain ⟨m, hm, hcore⟩ := map_eq_some_iff.1 hrun
  exact ⟨m, hm, hcore, runs_fresh (reachable_acts (.start ⟨_, rfl⟩) hown hm)⟩

/-- The code changes and the generation moves after an entry has loaded the two words. -/
def bumpDuringEntry : List (Action Bool Unit) :=
  secondEntry ++ ([.writeCode fun _ _ => some 8] ++ hostCall .onInvalidateAll 1 ++ [.compare true])

/-- The body of that entry runs, and no verification has started since the bump. -/
theorem bump_during_entry :
    ∃ m, (runs Bool oneBlock).Reachable m ∧ m.core true = .body () (some (19, 20)) ∧
      m.code () 0 ≠ (oneBlock.expected ())[0]? ∧
      ∃ x ∈ m.stores, x.word = oneBlock.word () ∧ ∀ check ∈ m.checks, check.finish < x.time := by
  have hown : ∀ action ∈ bumpDuringEntry, action.OwnWords :=
    forall_mem_append.2
      ⟨ownWords_secondEntry, by simp [hostCall, Action.OwnWords, GuardCall.OwnWords]⟩
  have hrun : (acts oneBlock (start fun _ _ => some 7) bumpDuringEntry).map
      (fun m => (m.core true, m.code () 0, m.stores.head?, m.checks)) =
        some (.body () (some (19, 20)), some 8, some ⟨0, 3, 23, 5⟩, [⟨(), 2, 13, 15⟩]) := rfl
  obtain ⟨m, hm, hmachine⟩ := map_eq_some_iff.1 hrun
  simp only [Prod.mk.injEq] at hmachine
  obtain ⟨hcore, hcode, hstores, hchecks⟩ := hmachine
  refine ⟨m, reachable_acts (.start ⟨_, rfl⟩) hown hm, hcore, by rw [hcode]; decide,
    _, List.mem_of_head? hstores, rfl, ?_⟩
  rw [hchecks]
  decide

end Machine
end Drippu.RecompGuardGen
