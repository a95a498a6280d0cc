import Mathlib.Tactic

/-!
# Library - Transition systems and faults

A component that is called again and again is a transition system: its initial
states and what one call can do.  An invariant of the component is a property of
the initial states that every step keeps; `Reachable.invariant` is the
induction behind it.  Code with assertions runs in `Except`: a proof follows a
successful run through its steps or bounds the faults it can end in.
-/

namespace Drippu.Library

/-- Initial states and steps over a type of states. -/
structure TransitionSystem (σ : Type) where
  init : σ → Prop
  step : σ → σ → Prop

namespace TransitionSystem

variable {σ : Type}

/-- The states at the ends of the runs of a transition system. -/
inductive Reachable (T : TransitionSystem σ) : σ → Prop
  | start {s : σ} (hinit : T.init s) : Reachable T s
  | next {s s' : σ} (hreach : Reachable T s) (hstep : T.step s s') : Reachable T s'

/-- The invariant rule.  The step may assume that its source is reachable. -/
lemma Reachable.invariant {T : TransitionSystem σ} {P : σ → Prop} (hinit : ∀ s, T.init s → P s)
    (hstep : ∀ s s', T.Reachable s → P s → T.step s s' → P s') {s : σ}
    (h : T.Reachable s) : P s := by
  induction h with
  | start h => exact hinit _ h
  | next hreach h ih => exact hstep _ _ hreach ih h

end TransitionSystem

/-! ## Computations that can fault -/

section
variable {ε α β : Type}

/-- A successful run of a sequence is a successful run of each step. -/
lemma bind_eq_ok {x : Except ε α} {f : α → Except ε β} {r : β} :
    (x >>= f) = .ok r ↔ ∃ a, x = .ok a ∧ f a = .ok r := by
  cases x with
  | error e | ok a => simp [bind, Except.bind]

lemma map_eq_ok {x : Except ε α} {f : α → β} {r : β} :
    x.map f = .ok r ↔ ∃ a, x = .ok a ∧ f a = r := by
  cases x <;> simp [Except.map]

/-- Every fault of the computation satisfies the predicate. -/
def FailsOnly (P : ε → Prop) (x : Except ε α) : Prop :=
  ∀ e, x = .error e → P e

variable {P : ε → Prop}

lemma failsOnly_ok (a : α) : FailsOnly P (.ok a : Except ε α) := by
  rintro e ⟨⟩

lemma failsOnly_error {e : ε} (h : P e) : FailsOnly P (.error e : Except ε α) := by
  rintro _ ⟨⟩
  exact h

lemma FailsOnly.ite {x y : Except ε α} {p : Prop} [Decidable p] (hx : FailsOnly P x)
    (hy : FailsOnly P y) : FailsOnly P (if p then x else y) := by
  split
  · exact hx
  · exact hy

lemma FailsOnly.bind {x : Except ε α} {f : α → Except ε β} (hx : FailsOnly P x)
    (hf : ∀ a, FailsOnly P (f a)) : FailsOnly P (x >>= f) := by
  cases x with
  | error e =>
    rintro _ ⟨⟩
    exact hx e rfl
  | ok a => exact hf a

end
end Drippu.Library
