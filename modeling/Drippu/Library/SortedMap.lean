import Mathlib.Tactic

/-!
# Library - Sorted maps

A `std::map` as the list of its entries in the order of their keys.  Code that copies
one map into another inserts the keys in ascending order, at the end.
-/

namespace Drippu.Library

open List

variable {κ α : Type} [LinearOrder κ]

/-- The entries of a map, in the order of their keys. -/
structure SortedMap (κ α : Type) [LinearOrder κ] where
  entries : List (κ × α)
  sorted : entries.Pairwise fun a b => a.1 < b.1

namespace SortedMap

/-- The map without entries. -/
def empty : SortedMap κ α := ⟨[], List.Pairwise.nil⟩

def size (m : SortedMap κ α) : Nat := m.entries.length

def find? (m : SortedMap κ α) (key : κ) : Option α :=
  (m.entries.find? fun e => e.1 = key).map Prod.snd

def contains (m : SortedMap κ α) (key : κ) : Bool :=
  m.entries.any fun e => e.1 = key

/-- An entry is put in its place, unless its key is there. -/
def insertEntry (key : κ) (value : α) : List (κ × α) → List (κ × α)
  | [] => [(key, value)]
  | e :: l =>
    if key < e.1 then (key, value) :: e :: l
    else if key = e.1 then e :: l
    else e :: insertEntry key value l

lemma mem_insertEntry {key : κ} {value : α} {l : List (κ × α)} {e : κ × α}
    (he : e ∈ insertEntry key value l) : e = (key, value) ∨ e ∈ l := by
  induction l with
  | nil => exact .inl (mem_singleton.1 he)
  | cons a l ih =>
    rw [insertEntry] at he
    split at he
    · exact mem_cons.1 he
    split at he
    · exact .inr he
    · rcases mem_cons.1 he with rfl | he
      · exact .inr mem_cons_self
      · exact (ih he).imp_right (mem_cons_of_mem a)

lemma insertEntry_sorted (key : κ) (value : α) {l : List (κ × α)}
    (h : l.Pairwise fun a b => a.1 < b.1) :
    (insertEntry key value l).Pairwise fun a b => a.1 < b.1 := by
  induction l with
  | nil => exact pairwise_singleton _ _
  | cons a l ih =>
    obtain ⟨ha, hl⟩ := pairwise_cons.1 h
    rw [insertEntry]
    split
    · rename_i hlt
      refine pairwise_cons.2 ⟨forall_mem_cons.2 ⟨hlt, fun b hb => ?_⟩, h⟩
      exact hlt.trans (ha b hb)
    split
    · exact h
    rename_i hle hne
    refine pairwise_cons.2 ⟨fun b hb => ?_, ih hl⟩
    rcases mem_insertEntry hb with rfl | hb
    · exact lt_of_le_of_ne (not_lt.1 hle) (Ne.symm hne)
    · exact ha b hb

/-- `std::map::emplace` keeps the value of a key that is there. -/
def emplace (m : SortedMap κ α) (key : κ) (value : α) : SortedMap κ α :=
  ⟨insertEntry key value m.entries, insertEntry_sorted key value m.sorted⟩

/-- The value of a key is changed. -/
def modify (m : SortedMap κ α) (key : κ) (f : α → α) : SortedMap κ α where
  entries := m.entries.map fun e => if e.1 = key then (e.1, f e.2) else e
  sorted := by
    refine pairwise_map.2 (m.sorted.imp fun hlt => ?_)
    split <;> split <;> exact hlt

/-! ## Copies -/

variable {m : SortedMap κ α} {key : κ}

lemma insertEntry_of_lt (value : α) {l : List (κ × α)} (h : ∀ e ∈ l, e.1 < key) :
    insertEntry key value l = l ++ [(key, value)] := by
  induction l with
  | nil => rfl
  | cons a l ih =>
    obtain ⟨ha, hl⟩ := forall_mem_cons.1 h
    rw [insertEntry, if_neg (not_lt.2 ha.le), if_neg ha.ne', ih hl]
    rfl

/-- A key above all others is inserted at the end. -/
lemma emplace_of_lt (value : α) (h : ∀ e ∈ m.entries, e.1 < key) :
    (m.emplace key value).entries = m.entries ++ [(key, value)] :=
  insertEntry_of_lt value h

lemma contains_eq_false (h : ∀ e ∈ m.entries, e.1 < key) : m.contains key = false := by
  rw [contains, any_eq_false]
  intro e he
  simpa using (h e he).ne

@[ext]
lemma ext {m m' : SortedMap κ α} (h : m.entries = m'.entries) : m = m' := by
  cases m
  cases h
  rfl

/-- A loop that inserts the entries of a map one by one, as long as their keys are new, copies
the map. -/
lemma foldlM_emplace {ε β : Type} {step : SortedMap κ α → β → Except ε (SortedMap κ α)}
    {item : κ × α → β} (m : SortedMap κ α)
    (hstep : ∀ acc, ∀ e ∈ m.entries, acc.contains e.1 = false →
      step acc (item e) = .ok (acc.emplace e.1 e.2)) :
    (m.entries.map item).foldlM step empty = .ok m := by
  have hloop : ∀ l, ∀ acc : SortedMap κ α, acc.entries ++ l = m.entries →
      (l.map item).foldlM step acc = .ok m := by
    intro l
    induction l with
    | nil =>
      intro acc hacc
      rw [append_nil] at hacc
      rw [ext hacc]
      rfl
    | cons e l ih =>
      intro acc hacc
      have hsorted := m.sorted
      rw [← hacc] at hsorted
      -- the keys before an entry are smaller
      have hlt : ∀ a ∈ acc.entries, a.1 < e.1 := fun a ha =>
        (pairwise_append.1 hsorted).2.2 a ha e mem_cons_self
      rw [map_cons, foldlM_cons, hstep acc e (by simp [← hacc]) (contains_eq_false hlt)]
      refine ih _ ?_
      rw [emplace_of_lt _ hlt, append_assoc]
      exact hacc
  exact hloop m.entries empty rfl

lemma size_emplace_le (m : SortedMap κ α) (key : κ) (value : α) :
    (m.emplace key value).size ≤ m.size + 1 := by
  have hlength : ∀ l : List (κ × α), (insertEntry key value l).length ≤ l.length + 1 := by
    intro l
    induction l with
    | nil => exact le_refl _
    | cons a l ih =>
      rw [insertEntry]
      split
      · exact le_refl _
      · split
        · exact Nat.le_succ _
        · exact Nat.succ_le_succ ih
  exact hlength m.entries

end SortedMap
end Drippu.Library
