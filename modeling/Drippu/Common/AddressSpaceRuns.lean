import Drippu.Common.AddressSpaceUnmap

/-!
# Common - Address spaces over time

An address space starts with one unmapped block and is edited by maps and unmaps.  Every
range that is neither empty nor at address zero and does not wrap around keeps its blocks
well-formed, also when an unmap is not right.  From every address space that such calls
lead to, a map is pointwise correct, and an unmap is exactly when its range is unmappable.

Main results:

- Theorem `mapLocked_pointwise`: maps are pointwise correct.
- Theorem `unmapLocked_pointwise_iff`: when unmaps are.
- Theorem `maps_pointwise`: runs of maps.
-/

namespace Drippu.Common.AddressSpace

open Library

variable {π χ : Type}

/-- No assertion against the end of the address space fires inside of it. -/
lemma finish_assertions {s : AddressSpace π χ} {virt size virtEnd : Nat}
    (h : virtEnd ≤ s.vaLimit) (edit : Edit π χ) :
    (s.finish virt size virtEnd edit).assertions = edit.2 := by
  rw [finish, limitAssertions, if_neg (not_lt.2 h), List.nil_append]

/-! ## Calls -/

inductive Call (π χ : Type) where
  | map (virt : Nat) (phys : π) (size : Nat) (extraInfo : χ)
  | unmap (virt size : Nat)
  deriving DecidableEq, Repr

def Call.virt : Call π χ → Nat
  | .map virt _ _ _ => virt
  | .unmap virt _ => virt

def Call.size : Call π χ → Nat
  | .map _ _ size _ => size
  | .unmap _ size => size

variable [DecidableEq π] (P : PaSpec π) (noExtra : χ)

def Call.run (s : AddressSpace π χ) : Call π χ → Option (MapOutcome π χ)
  | .map virt phys size extraInfo => mapLocked P noExtra s virt phys size extraInfo
  | .unmap virt size => unmapLocked P noExtra s virt size

/-- One call.  Its assertions do not stop it. -/
def call (s : AddressSpace π χ) (c : Call π χ) : Option (AddressSpace π χ) :=
  (c.run P noExtra s).map fun o => { s with blocks := o.blocks }

/-- A new address space and the calls with a range that does not wrap around. -/
def system : TransitionSystem (AddressSpace π χ) where
  init s := s.blocks = initialBlocks P noExtra
  step s s' := ∃ c : Call π χ, 0 < c.virt ∧ 0 < c.size ∧ c.virt + c.size < 2 ^ s.vaBits ∧
    call P noExtra s c = some s'

variable {P} {s s' : AddressSpace π χ}

lemma initialBlocks_wellFormed : WellFormed P (initialBlocks P noExtra) where
  sorted := List.pairwise_singleton _ _
  first := ⟨_, rfl, rfl, isUnmapped_iff.2 rfl⟩
  terminated := ⟨_, rfl, isUnmapped_iff.2 rfl⟩

section
variable (hwf : WellFormed P s.blocks) {virt size : Nat} (hvirt : 0 < virt) (hsize : 0 < size)
  (hwrap : virt + size < 2 ^ s.vaBits)
include hwf hvirt hsize hwrap

lemma mapLocked_spec (phys : π) (extraInfo : χ) :
    ∃ after, mapLocked P noExtra s virt phys size extraInfo =
        some (s.finish virt size (virt + size) (after, [])) ∧ WellFormed P after ∧
      (∀ b ∈ after, b ∈ s.blocks ∨ virt ≤ b.virt ∧ b.virt ≤ virt + size) ∧
      ∀ x, translate P after x =
        if virt ≤ x ∧ x < virt + size then valueOf P ⟨virt, phys, extraInfo⟩ x
        else translate P s.blocks x := by
  obtain ⟨after, heq, hafter⟩ := mapBlocks_spec noExtra hwf ⟨virt, phys, extraInfo⟩ hvirt
    (Nat.lt_add_of_pos_right hsize)
  refine ⟨after, ?_, hafter⟩
  rw [mapLocked, addVa, Nat.mod_eq_of_lt hwrap, heq]
  rfl

lemma unmapLocked_spec :
    ∃ after assertions, unmapLocked P noExtra s virt size =
        some (s.finish virt size (virt + size) (after, assertions)) ∧ WellFormed P after ∧
      (∀ b ∈ after, b ∈ s.blocks ∨ virt ≤ b.virt ∧ b.virt ≤ virt + size) ∧
      (∀ x, ¬ (virt ≤ x ∧ x < virt + size) → translate P after x = translate P s.blocks x) ∧
      ((assertions = [] ∧ ∀ x, virt ≤ x → x < virt + size → translate P after x = none) ↔
        unmappable P s.blocks virt (virt + size) = true) := by
  obtain ⟨after, assertions, heq, hafter⟩ :=
    unmapBlocks_spec noExtra hwf hvirt (Nat.lt_add_of_pos_right hsize)
  refine ⟨after, assertions, ?_, hafter⟩
  rw [unmapLocked, addVa, Nat.mod_eq_of_lt hwrap, heq]
  rfl

end

variable {noExtra}

lemma call_wellFormed (hwf : WellFormed P s.blocks) {c : Call π χ} (hvirt : 0 < c.virt)
    (hsize : 0 < c.size) (hwrap : c.virt + c.size < 2 ^ s.vaBits)
    (hcall : call P noExtra s c = some s') : WellFormed P s'.blocks := by
  cases c with
  | map virt phys size extraInfo =>
    simp only [Call.virt, Call.size] at hvirt hsize hwrap
    obtain ⟨after, heq, hafter, -⟩ := mapLocked_spec noExtra hwf hvirt hsize hwrap phys extraInfo
    rw [call, Call.run, heq] at hcall
    cases hcall
    exact hafter
  | unmap virt size =>
    simp only [Call.virt, Call.size] at hvirt hsize hwrap
    obtain ⟨after, assertions, heq, hafter, -⟩ := unmapLocked_spec noExtra hwf hvirt hsize hwrap
    rw [call, Call.run, heq] at hcall
    cases hcall
    exact hafter

lemma reachable_wellFormed (h : (system P noExtra).Reachable s) : WellFormed P s.blocks := by
  refine h.invariant (P := fun s => WellFormed P s.blocks) (fun s hinit => ?_)
    fun s s' _ hwf hstep => ?_
  · rw [show s.blocks = initialBlocks P noExtra from hinit]
    exact initialBlocks_wellFormed noExtra
  · obtain ⟨c, hvirt, hsize, hwrap, hcall⟩ := hstep
    exact call_wellFormed hwf hvirt hsize hwrap hcall

/-! ## Pointwise correctness -/

/-- A map of a range inside the address space translates its addresses to the physical range
and keeps every other translation. -/
theorem mapLocked_pointwise (hreach : (system P noExtra).Reachable s) {virt size : Nat}
    (hvirt : 0 < virt) (hsize : 0 < size) (hlimit : virt + size ≤ s.vaLimit) (phys : π)
    (extraInfo : χ) :
    ∃ o, mapLocked P noExtra s virt phys size extraInfo = some o ∧ o.assertions = [] ∧
      (∀ i < size, translate P o.blocks (virt + i) =
        if phys = P.unmappedPa then none else some (advance P phys i, extraInfo)) ∧
      (∀ x, x < virt ∨ virt + size ≤ x → translate P o.blocks x = translate P s.blocks x) ∧
      (o.blocks.Pairwise fun a b => a.virt < b.virt) ∧
      ∃ b, o.blocks.getLast? = some b ∧ isUnmapped P b = true := by
  obtain ⟨after, heq, hafter, -, htranslate⟩ := mapLocked_spec noExtra
    (reachable_wellFormed hreach) hvirt hsize (hlimit.trans_lt s.limit_lt) phys extraInfo
  refine ⟨_, heq, finish_assertions hlimit _, fun i hi => ?_, fun x hx => ?_, hafter.sorted,
    hafter.terminated⟩
  · rw [finish, htranslate, if_pos ⟨by omega, by omega⟩]
    simp [valueOf, isUnmapped, physAt]
  · rw [finish, htranslate, if_neg (by omega)]

/-- An unmap of a range inside the address space is pointwise correct and asserts nothing
exactly when the range is unmappable. -/
theorem unmapLocked_pointwise_iff (hreach : (system P noExtra).Reachable s) {virt size : Nat}
    (hvirt : 0 < virt) (hsize : 0 < size) (hlimit : virt + size ≤ s.vaLimit) :
    (∃ o, unmapLocked P noExtra s virt size = some o ∧ o.assertions = [] ∧
      (∀ x, virt ≤ x → x < virt + size → translate P o.blocks x = none) ∧
      (∀ x, x < virt ∨ virt + size ≤ x → translate P o.blocks x = translate P s.blocks x) ∧
      (o.blocks.Pairwise fun a b => a.virt < b.virt) ∧
      ∃ b, o.blocks.getLast? = some b ∧ isUnmapped P b = true) ↔
    unmappable P s.blocks virt (virt + size) = true := by
  obtain ⟨after, assertions, heq, hafter, -, houtside, hright⟩ := unmapLocked_spec noExtra
    (reachable_wellFormed hreach) hvirt hsize (hlimit.trans_lt s.limit_lt)
  have hassert : (s.finish virt size (virt + size) (after, assertions)).assertions =
      assertions := finish_assertions hlimit _
  rw [← hright]
  constructor
  · rintro ⟨o, ho, hnone, hinside, -⟩
    obtain rfl : _ = o := Option.some.inj (heq.symm.trans ho)
    exact ⟨hassert ▸ hnone, hinside⟩
  · rintro ⟨hnone, hinside⟩
    exact ⟨_, heq, hassert.trans hnone, hinside, fun x hx => houtside x (by omega),
      hafter.sorted, hafter.terminated⟩

/-! ## Runs of maps -/

/-- What the last of some maps says about an address; a map is a block and its size. -/
def lastMap (P : PaSpec π) (maps : List (MapBlock π χ × Nat)) (x : Nat) : Option (π × χ) :=
  (maps.reverse.find? fun c => c.1.virt ≤ x ∧ x < c.1.virt + c.2).bind fun c => valueOf P c.1 x

/-- After every run of maps an address is translated by the last map over it. -/
theorem maps_pointwise (hnew : s.blocks = initialBlocks P noExtra)
    {maps : List (MapBlock π χ × Nat)}
    (h : ∀ c ∈ maps, 0 < c.1.virt ∧ 0 < c.2 ∧ c.1.virt + c.2 < 2 ^ s.vaBits) :
    ∃ after, maps.foldlM (fun s c => call P noExtra s
        (.map c.1.virt c.1.phys c.2 c.1.extraInfo)) s = some { s with blocks := after } ∧
      WellFormed P after ∧ ∀ x, translate P after x = lastMap P maps x := by
  induction maps using List.reverseRecOn with
  | nil =>
    refine ⟨_, rfl, hnew ▸ initialBlocks_wellFormed noExtra, fun x => ?_⟩
    simp [hnew, translate, initialBlocks, floor_cons, valueOf, isUnmapped, lastMap]
  | append_singleton maps c ih =>
    obtain ⟨before, hrun, hwf, hbefore⟩ := ih fun d hd => h d (List.mem_append_left _ hd)
    obtain ⟨hvirt, hsize, hwrap⟩ := h c (by simp)
    obtain ⟨after, heq, hafter, -, htranslate⟩ := mapLocked_spec noExtra
      (s := { s with blocks := before }) hwf hvirt hsize hwrap c.1.phys c.1.extraInfo
    refine ⟨after, ?_, hafter, fun x => ?_⟩
    · rw [List.foldlM_append, hrun]
      simp only [Option.bind_eq_bind, Option.bind_some, List.foldlM_cons, call, Call.run, heq]
      rfl
    · rw [htranslate, hbefore, lastMap, lastMap, List.reverse_concat, List.find?_cons]
      by_cases hx : c.1.virt ≤ x ∧ x < c.1.virt + c.2 <;> simp [hx]

/-! ## Two neighbouring mappings -/

/-- The physical side of an address space that only tells whether an address is mapped. -/
def mappedFlag : PaSpec Bool where
  unmappedPa := false
  paContigSplit := false
  add p _ := p
  add_add _ _ _ := rfl
  add_ne _ _ h := h

/-- Two mappings next to each other. -/
def neighbours : AddressSpace Bool Unit where
  blocks := [⟨0, false, ()⟩, ⟨10, true, ()⟩, ⟨20, true, ()⟩, ⟨30, false, ()⟩]
  vaLimit := 100
  vaBits := 32
  hasUnmapCallback := false
  limit_lt := by decide

lemma neighbours_reachable : (system mappedFlag ()).Reachable neighbours := by
  let start : AddressSpace Bool Unit := { neighbours with blocks := initialBlocks mappedFlag () }
  let one : AddressSpace Bool Unit :=
    { neighbours with blocks := [⟨0, false, ()⟩, ⟨20, true, ()⟩, ⟨30, false, ()⟩] }
  have hstart : (system mappedFlag ()).Reachable start := .start rfl
  have hone : (system mappedFlag ()).Reachable one :=
    .next hstart ⟨.map 20 true 10 (), by decide, by decide, by decide, rfl⟩
  exact .next hone ⟨.map 10 true 10 (), by decide, by decide, by decide, rfl⟩

/-- An unmap of the first of two neighbouring mappings leaves it mapped. -/
theorem unmap_leaves_mapping :
    (system mappedFlag ()).Reachable neighbours ∧
      (unmapLocked mappedFlag () neighbours 10 10).map (fun o =>
        (o.blocks, translate mappedFlag o.blocks 15)) =
        some (neighbours.blocks, some (true, ())) :=
  ⟨neighbours_reachable, rfl⟩

/-- The second of two neighbouring mappings can be unmapped. -/
theorem unmap_second :
    ∃ o, unmapLocked mappedFlag () neighbours 20 10 = some o ∧ o.assertions = [] := by
  obtain ⟨o, ho, hassert, -⟩ :=
    (unmapLocked_pointwise_iff neighbours_reachable (by decide : 0 < 20) (by decide : 0 < 10)
      (by decide)).2 rfl
  exact ⟨o, ho, hassert⟩

theorem map_over_both :
    ∃ o, mapLocked mappedFlag () neighbours 15 true 10 () = some o ∧
      ∀ i < 10, translate mappedFlag o.blocks (15 + i) = some (true, ()) := by
  obtain ⟨o, ho, -, hinside, -⟩ :=
    mapLocked_pointwise neighbours_reachable (by decide : 0 < 15) (by decide : 0 < 10) (by decide)
      true ()
  exact ⟨o, ho, hinside⟩

/-- The second of two maps takes the end of the first. -/
theorem maps_pointwise_overlap :
    ∃ after, WellFormed mappedFlag after ∧ ∀ x, translate mappedFlag after x =
      lastMap mappedFlag [(⟨10, true, ()⟩, 20), (⟨20, false, ()⟩, 20)] x :=
  (maps_pointwise (s := { neighbours with blocks := initialBlocks mappedFlag () }) rfl
    (by decide)).imp fun _ h => h.2

end Drippu.Common.AddressSpace
