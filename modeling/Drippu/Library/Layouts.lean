import Drippu.Library.ByteStrings

/-!
# Library - Layouts

Two layouts of the same data are related by a function from places to places.  Mixed-radix numbers
give such functions, and a sequence of block moves brings the data from one layout to the other.
-/

namespace Drippu.Library

open List Nat

/-! ## Mixed radix -/

lemma radix_lt {a b m n : Nat} (ha : a < m) (hb : b < n) : a * n + b < m * n := by
  have hmul := mul_le_mul_right n (succ_le_of_lt ha)
  rw [succ_mul] at hmul
  omega

lemma radix_div {a b n : Nat} (hb : b < n) : (a * n + b) / n = a := by
  rw [mul_comm, mul_add_div (by omega), div_eq_of_lt hb, add_zero]

lemma radix_inj {a b a' b' n : Nat} (hb : b < n) (hb' : b' < n)
    (h : a * n + b = a' * n + b') : a = a' ∧ b = b' := by
  have hdiv := congrArg (· / n) h
  have hmod := congrArg (· % n) h
  simp only [radix_div hb, radix_div hb', mul_add_mod_of_lt hb, mul_add_mod_of_lt hb'] at hdiv hmod
  exact ⟨hdiv, hmod⟩

/-- What starts at a multiple of its size does not cross a border of larger pieces. -/
lemma mod_add_lt {m n x j : Nat} (hm : m ∣ n) (hn : 0 < n) (hx : m ∣ x) (hj : j < m) :
    x % n + j < n := by
  obtain ⟨q, rfl⟩ := hm
  obtain ⟨r, rfl⟩ := hx
  rw [mul_mod_mul_left, mul_comm, mul_comm m q]
  exact radix_lt (Nat.mod_lt r (Nat.pos_of_mul_pos_left hn)) hj

/-! ## Moves -/

/-- A block of `len` elements to copy. -/
structure Move where
  dst : Nat
  src : Nat
  len : Nat

variable {α : Type}

namespace Move

/-- The copy, if both ends are inside their strings. -/
def apply (input output : List α) (m : Move) : Option (List α) :=
  if m.dst + m.len ≤ output.length ∧ m.src + m.len ≤ input.length then
    some (splice output m.dst ((input.drop m.src).take m.len))
  else none

/-- The place is written. -/
def Covers (m : Move) (i : Nat) : Prop := m.dst ≤ i ∧ i < m.dst + m.len

lemma apply_spec {input output : List α} {m : Move} (hdst : m.dst + m.len ≤ output.length)
    (hsrc : m.src + m.len ≤ input.length) :
    ∃ output', m.apply input output = some output' ∧ output'.length = output.length ∧
      (∀ j, j < m.len → output'[m.dst + j]? = input[m.src + j]?) ∧
      ∀ i, ¬ m.Covers i → output'[i]? = output[i]? := by
  have hlen : ((input.drop m.src).take m.len).length = m.len := by
    rw [length_take, length_drop]
    omega
  refine ⟨splice output m.dst ((input.drop m.src).take m.len), if_pos ⟨hdst, hsrc⟩,
    length_splice (by omega), fun j hj => ?_, fun i hi => ?_⟩
  · rw [getElem?_splice (by omega), if_pos (by omega), Nat.add_sub_cancel_left,
      List.getElem?_take_of_lt hj, List.getElem?_drop]
  · rw [getElem?_splice (by omega), hlen]
    exact if_neg hi

end Move

/-- Copies one after the other. -/
def applyAll (input : List α) (ms : List Move) (output : List α) : Option (List α) :=
  ms.foldlM (fun output m => m.apply input output) output

lemma applyAll_append (input : List α) (ms ms' : List Move) (output : List α) :
    applyAll input (ms ++ ms') output = (applyAll input ms output).bind (applyAll input ms') := by
  rw [applyAll, foldlM_append]
  rfl

/-- A loop of which every round makes some moves. -/
lemma applyAll_loop (loop : Nat → Nat → List α → Option (List α)) (moves : Nat → List Move)
    {input : List α} {bound : Nat} (hzero : ∀ i, loop 0 i = some)
    (hsucc : ∀ n, ∀ i < bound, ∀ output,
      loop (n + 1) i output = (applyAll input (moves i) output).bind (loop n (i + 1)))
    (output : List α) :
    loop bound 0 output = applyAll input ((List.range bound).flatMap moves) output := by
  have hfrom : ∀ n i output, i + n ≤ bound →
      loop n i output = applyAll input ((List.range' i n).flatMap moves) output := by
    intro n
    induction n with
    | zero =>
      intro i output _
      rw [hzero]
      rfl
    | succ n ih =>
      intro i output hi
      rw [hsucc n i (by omega), range'_succ, flatMap_cons, applyAll_append]
      exact congrArg _ (funext fun output => ih (i + 1) output (by omega))
  rw [range_eq_range']
  exact hfrom bound 0 output (by omega)

/-- Moves bring every piece to its place if a function `g` says where each written place comes
from. -/
lemma applyAll_spec {input output : List α} {ms : List Move} {g : Nat → Nat}
    (hfits : ∀ m ∈ ms, m.dst + m.len ≤ output.length ∧ m.src + m.len ≤ input.length)
    (hg : ∀ m ∈ ms, ∀ j, j < m.len → g (m.dst + j) = m.src + j) :
    ∃ output', applyAll input ms output = some output' ∧ output'.length = output.length ∧
      (∀ m ∈ ms, ∀ j, j < m.len → output'[m.dst + j]? = input[m.src + j]?) ∧
      ∀ i, (∀ m ∈ ms, ¬ m.Covers i) → output'[i]? = output[i]? := by
  induction ms generalizing output with
  | nil => exact ⟨output, rfl, rfl, by simp, fun _ _ => rfl⟩
  | cons m ms ih =>
    obtain ⟨hdst, hsrc⟩ := hfits m mem_cons_self
    obtain ⟨mid, happly, hlen, hput, hkeep⟩ := Move.apply_spec hdst hsrc
    have hfits' : ∀ m' ∈ ms, m'.dst + m'.len ≤ mid.length ∧ m'.src + m'.len ≤ input.length :=
      fun m' hm' => hlen ▸ hfits m' (mem_cons_of_mem _ hm')
    obtain ⟨out, hall, hlen', hputs, hkeeps⟩ :=
      ih hfits' fun m' hm' => hg m' (mem_cons_of_mem _ hm')
    refine ⟨out, ?_, hlen'.trans hlen, ?_, fun i hi => ?_⟩
    · exact (congrArg (Option.bind · (applyAll input ms)) happly).trans hall
    · rintro m' hm' j hj
      obtain rfl | hm' := mem_cons.mp hm'
      · -- A later move may write the place again, but with the same element.
        by_cases hagain : ∃ m'' ∈ ms, m''.Covers (m'.dst + j)
        · obtain ⟨m'', hm'', hlow, hhigh⟩ := hagain
          have hj'' := hputs m'' hm'' (m'.dst + j - m''.dst) (by omega)
          have hfrom := hg m'' (mem_cons_of_mem _ hm'') (m'.dst + j - m''.dst) (by omega)
          rw [Nat.add_sub_cancel' hlow] at hj'' hfrom
          rw [hj'', ← hfrom, hg m' mem_cons_self j hj]
        · rw [hkeeps _ fun m'' hm'' hcov => hagain ⟨m'', hm'', hcov⟩]
          exact hput j hj
      · exact hputs m' hm' j hj
    · rw [hkeeps i fun m' hm' => hi m' (mem_cons_of_mem _ hm')]
      exact hkeep i (hi m mem_cons_self)

/-- The elements at the places `src p` were copied to the places `dst p`, and nothing else was
changed. -/
structure Copied (n : Nat) (dst src : Nat → Nat) (input output result : List α) : Prop where
  length_eq : result.length = output.length
  put : ∀ p < n, result[dst p]? = input[src p]?
  keep : ∀ i, (∀ p < n, dst p ≠ i) → result[i]? = output[i]?

section
variable {n : Nat} {dst src : Nat → Nat} {input output result result' : List α}

lemma Copied.unique (h : Copied n dst src input output result)
    (h' : Copied n dst src input output result') : result = result' := by
  refine ext_getElem? fun i => ?_
  by_cases hi : ∀ p < n, dst p ≠ i
  · rw [h.keep i hi, h'.keep i hi]
  · push Not at hi
    obtain ⟨p, hp, rfl⟩ := hi
    rw [h.put p hp, h'.put p hp]

lemma applyAll_copied {ms : List Move} (hinj : Set.InjOn dst {p | p < n})
    (hfits : ∀ m ∈ ms, m.dst + m.len ≤ output.length ∧ m.src + m.len ≤ input.length)
    (hmoves : ∀ m ∈ ms, ∀ j < m.len, ∃ p < n, dst p = m.dst + j ∧ src p = m.src + j)
    (hall : ∀ p < n, ∃ m ∈ ms, ∃ j < m.len, dst p = m.dst + j ∧ src p = m.src + j) :
    ∃ result, applyAll input ms output = some result ∧ Copied n dst src input output result := by
  -- Places of different elements are different, so that each comes from one place.
  have hinv := hinj.leftInvOn_invFunOn
  obtain ⟨result, hrun, hlen, hput, hkeep⟩ := applyAll_spec
    (g := fun i => src (Function.invFunOn dst {p | p < n} i)) hfits fun m hm j hj => by
      obtain ⟨p, hp, hdst, hsrc⟩ := hmoves m hm j hj
      rw [← hdst, hinv hp, hsrc]
  refine ⟨result, hrun, hlen, fun p hp => ?_, fun i hi => hkeep i ?_⟩
  · obtain ⟨m, hm, j, hj, hdst, hsrc⟩ := hall p hp
    rw [hdst, hsrc]
    exact hput m hm j hj
  · rintro m hm ⟨hlow, hhigh⟩
    obtain ⟨p, hp, hdst, -⟩ := hmoves m hm (i - m.dst) (by omega)
    exact hi p hp (by omega)

end
end Drippu.Library
