import Mathlib.Tactic

/-!
# Library - Inheritance along owners

Every node has a base value and may wait for an owner.  Its value should be the least
of its base value and of the values of the nodes that wait for it.  When nodes start or
stop waiting, or a base value changes, at most one node is wrong; correcting it can only
make its owner wrong, so that walking up the owners restores all values, if the walk
ends.
-/

namespace Drippu.Library

open Finset

variable {α β : Type}

/-! ## Values -/

section
variable [LinearOrder β] {owner owner' : α → Option α} {base base' value value' : α → β}
  {t x : α}

/-- The value is the least of the base value and the values of the waiting nodes. -/
def Inherits (owner : α → Option α) (base value : α → β) (t : α) : Prop :=
  IsLeast (insert (base t) {v | ∃ x, owner x = some t ∧ value x = v}) (value t)

lemma inherits_iff :
    Inherits owner base value t ↔
      (value t = base t ∨ ∃ x, owner x = some t ∧ value x = value t) ∧
        value t ≤ base t ∧ ∀ x, owner x = some t → value t ≤ value x := by
  constructor
  · rintro ⟨hmem, hle⟩
    exact ⟨hmem, hle (.inl rfl), fun x hx => hle (.inr ⟨x, hx, rfl⟩)⟩
  · rintro ⟨hmem, hbase, hwaiters⟩
    refine ⟨hmem, fun v hv => ?_⟩
    rcases hv with rfl | ⟨x, hx, rfl⟩
    · exact hbase
    · exact hwaiters x hx

variable (h : Inherits owner base value t)
include h

lemma Inherits.congr (howner : ∀ x, owner' x = some t ↔ owner x = some t) (hbase : base' t = base t)
    (hself : value' t = value t) (hvalue : ∀ x, owner x = some t → value' x = value x) :
    Inherits owner' base' value' t := by
  rw [inherits_iff] at h ⊢
  obtain ⟨hmem, hle, hwaiters⟩ := h
  rw [hself, hbase]
  refine ⟨?_, hle, fun x hx => ?_⟩
  · rcases hmem with heq | ⟨x, hx, heq⟩
    · exact .inl heq
    · exact .inr ⟨x, (howner x).2 hx, (hvalue x hx).trans heq⟩
  · have hx := (howner x).1 hx
    rw [hvalue x hx]
    exact hwaiters x hx

lemma Inherits.add (hold : ∀ x, owner x = some t → owner' x = some t)
    (hnew : ∀ x, owner' x = some t → owner x = some t ∨ value t ≤ value x) :
    Inherits owner' base value t := by
  rw [inherits_iff] at h ⊢
  obtain ⟨hmem, hle, hwaiters⟩ := h
  refine ⟨?_, hle, fun x hx => ?_⟩
  · rcases hmem with heq | ⟨x, hx, heq⟩
    · exact .inl heq
    · exact .inr ⟨x, hold x hx, heq⟩
  · rcases hnew x hx with hx | hx
    · exact hwaiters x hx
    · exact hx

/-- Nodes stop waiting, and the value is the base value or lower than theirs. -/
lemma Inherits.drop (hsub : ∀ x, owner' x = some t → owner x = some t)
    (hgone : value t = base t ∨ ∀ x, owner x = some t → owner' x = some t ∨ value t < value x) :
    Inherits owner' base value t := by
  rw [inherits_iff] at h ⊢
  obtain ⟨hmem, hle, hwaiters⟩ := h
  refine ⟨?_, hle, fun x hx => hwaiters x (hsub x hx)⟩
  rcases hgone with heq | hgone
  · exact .inl heq
  rcases hmem with heq | ⟨x, hx, heq⟩
  · exact .inl heq
  · rcases hgone x hx with hx | hlt
    · exact .inr ⟨x, hx, heq⟩
    · exact absurd heq hlt.ne'

end

/-! ## Walking up the owners -/

/-- No node waits for itself, directly or through others. -/
def Acyclic (owner : α → Option α) : Prop :=
  ∀ t, ¬ Relation.TransGen (fun x y => owner x = some y) t t

/-- The walk up the owners ends within the given number of nodes. -/
def EndsIn (owner : α → Option α) : Nat → Option α → Prop
  | _, none => True
  | 0, some _ => False
  | n + 1, some t => EndsIn owner n (owner t)

section
variable {owner owner' : α → Option α}

@[simp]
lemma endsIn_none (n : Nat) : EndsIn owner n none := by
  cases n <;> trivial

variable (h : Acyclic owner)
include h

/-- A new edge that leads to a node without owner is on no cycle. -/
lemma Acyclic.mono (hedge : ∀ x y, owner' x = some y → owner x = some y ∨ owner' y = none) :
    Acyclic owner' := by
  have hold : ∀ a b, Relation.TransGen (fun x y => owner' x = some y) a b → owner' b ≠ none →
      Relation.TransGen (fun x y => owner x = some y) a b := by
    intro a b hab
    induction hab with
    | single hstep =>
      intro hb
      exact .single ((hedge _ _ hstep).resolve_right hb)
    | tail _ hstep ih =>
      intro hc
      refine .tail (ih ?_) ((hedge _ _ hstep).resolve_right hc)
      rw [hstep]
      exact Option.some_ne_none _
  intro t hcycle
  refine h t (hold t t hcycle ?_)
  -- the first step of the cycle leaves the node
  obtain ⟨y, hy, -⟩ := Relation.TransGen.head'_iff.1 hcycle
  rw [hy]
  exact Option.some_ne_none _

lemma Acyclic.ne {t u : α} (htu : owner t = some u) : t ≠ u := by
  rintro rfl
  exact h t (.single htu)

variable [Fintype α] [DecidableEq α]

/-- The nodes that were left behind lead to the current one, which is not among them. -/
lemma Acyclic.endsIn_of_visited (n : Nat) :
    ∀ (visited : Finset α) (t : α), Fintype.card α ≤ visited.card + n →
      (∀ v ∈ visited, Relation.TransGen (fun x y => owner x = some y) v t) →
      EndsIn owner n (some t) := by
  induction n with
  | zero =>
    intro visited t hcard hvisited
    have hall : visited = univ :=
      eq_univ_of_card visited (le_antisymm (card_le_univ visited) hcard)
    exact h t (hvisited t (hall ▸ mem_univ t))
  | succ n ih =>
    intro visited t hcard hvisited
    have hnew : t ∉ visited := fun ht => h t (hvisited t ht)
    rw [EndsIn]
    cases howner : owner t with
    | none => exact endsIn_none n
    | some u =>
      refine ih (insert t visited) u ?_ fun v hv => ?_
      · rw [card_insert_of_notMem hnew]
        omega
      · rcases mem_insert.1 hv with rfl | hv
        · exact .single howner
        · exact .tail (hvisited v hv) howner

/-- As many steps as there are nodes are enough. -/
lemma Acyclic.endsIn (t : α) : EndsIn owner (Fintype.card α) (some t) :=
  h.endsIn_of_visited _ ∅ t (by simp) (by simp)

end
end Drippu.Library
