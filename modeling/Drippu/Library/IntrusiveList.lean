import Mathlib.Tactic

/-!
# Library - Linked lists

An intrusive list keeps the links of its elements in the elements themselves.  The
links of a list are a table indexed by `Option α`: `none` is the root, whose
`next` is the first and whose `prev` is the last element, and a missing
neighbour is written `none` as well, so that the list is a cycle through the root.

Several lists can share one link per element, as long as no element is in two of
them; `Shared` is that situation.
-/

namespace Drippu.Library

open Function List

namespace IntrusiveList

/-- The two links of a list element. -/
structure Link (α : Type) where
  prev : Option α
  next : Option α
  deriving DecidableEq, Repr

/-- The links of a root and of all elements. -/
abbrev Links (α : Type) := Option α → Link α

variable {α : Type}

/-! ## What the links represent -/

/-- From a node the links lead through the given elements back to the root. -/
def Path (links : Links α) : Option α → List α → Prop
  | a, [] => (links a).next = none ∧ (links none).prev = a
  | a, x :: xs => (links a).next = some x ∧ (links (some x)).prev = a ∧ Path links (some x) xs

/-- The links represent the list of elements. -/
structure Represents (links : Links α) (l : List α) : Prop where
  path : Path links none l
  nodup : l.Nodup

variable {links links' : Links α} {l : List α} {a : Option α} {x y : α}

lemma Path.congr (h : Path links a l)
    (hnext : ∀ b, b = a ∨ (∃ y ∈ l, b = some y) → (links' b).next = (links b).next)
    (hprev : ∀ b, b = none ∨ (∃ y ∈ l, b = some y) → (links' b).prev = (links b).prev) :
    Path links' a l := by
  induction l generalizing a with
  | nil => exact ⟨(hnext a (.inl rfl)).trans h.1, (hprev none (.inl rfl)).trans h.2⟩
  | cons y l ih =>
    have hy : ∃ z ∈ y :: l, some y = some z := ⟨y, mem_cons_self, rfl⟩
    refine ⟨(hnext a (.inl rfl)).trans h.1, (hprev _ (.inr hy)).trans h.2.1, ih h.2.2 ?_ ?_⟩
    · rintro b (rfl | ⟨z, hz, rfl⟩)
      · exact hnext _ (.inr hy)
      · exact hnext _ (.inr ⟨z, mem_cons_of_mem _ hz, rfl⟩)
    · rintro b (rfl | ⟨z, hz, rfl⟩)
      · exact hprev _ (.inl rfl)
      · exact hprev _ (.inr ⟨z, mem_cons_of_mem _ hz, rfl⟩)

/-- The root is linked back to the node a path starts from or to one of its elements. -/
lemma Path.last (h : Path links a l) :
    l = [] ∧ (links none).prev = a ∨ ∃ z ∈ l, (links none).prev = some z := by
  induction l generalizing a with
  | nil => exact .inl ⟨rfl, h.2⟩
  | cons y l ih =>
    rcases ih h.2.2 with ⟨-, hy⟩ | ⟨z, hz, hlast⟩
    · exact .inr ⟨y, mem_cons_self, hy⟩
    · exact .inr ⟨z, mem_cons_of_mem _ hz, hlast⟩

lemma Path.prev_mem (h : Path links (some y) l) (hx : x ∈ l) :
    ∃ z ∈ y :: l, (links (some x)).prev = some z := by
  induction l generalizing y with
  | nil => simp at hx
  | cons w l ih =>
    rcases mem_cons.1 hx with rfl | hx
    · exact ⟨y, mem_cons_self, h.2.1⟩
    · obtain ⟨z, hz, hprev⟩ := ih h.2.2 hx
      exact ⟨z, mem_cons_of_mem _ hz, hprev⟩

lemma Path.next_mem (h : Path links a l) (hx : x ∈ l) :
    (links (some x)).next = none ∨ ∃ z ∈ l, (links (some x)).next = some z := by
  induction l generalizing a with
  | nil => simp at hx
  | cons w l ih =>
    rcases mem_cons.1 hx with rfl | hx
    · cases l with
      | nil => exact .inl h.2.2.1
      | cons z l => exact .inr ⟨z, by simp, h.2.2.1⟩
    · rcases ih h.2.2 hx with hnone | ⟨z, hz, hnext⟩
      · exact .inl hnone
      · exact .inr ⟨z, mem_cons_of_mem _ hz, hnext⟩

lemma Path.next_eq {pre post : List α} (h : Path links a (pre ++ x :: post)) :
    (links (some x)).next = post.head? := by
  induction pre generalizing a with
  | nil =>
    cases post with
    | nil | cons y post => exact h.2.2.1
  | cons y pre ih => exact ih h.2.2

lemma Represents.congr (h : Represents links l) (hroot : links' none = links none)
    (helem : ∀ y ∈ l, links' (some y) = links (some y)) : Represents links' l := by
  refine ⟨h.path.congr ?_ ?_, h.nodup⟩
  all_goals
    rintro b (rfl | ⟨y, hy, rfl⟩)
    · rw [hroot]
    · rw [helem y hy]

lemma Represents.head (h : Represents links l) : (links none).next = l.head? := by
  cases l with
  | nil | cons x l => exact h.path.1

lemma Represents.next_eq {pre post : List α} (h : Represents links (pre ++ x :: post)) :
    (links (some x)).next = post.head? :=
  h.path.next_eq

lemma Represents.next_isNone (h : Represents links l) : (links none).next.isNone = l.isEmpty := by
  rw [h.head]
  cases l <;> rfl

lemma Represents.prev_isNone (h : Represents links l) : (links none).prev.isNone = l.isEmpty := by
  rcases h.path.last with ⟨rfl, hlast⟩ | ⟨z, hz, hlast⟩
  · simp [hlast]
  · cases l with
    | nil => simp at hz
    | cons y l => simp [hlast]

/-! ## Lists that share their links -/

/-- The links of one list, from the links of the elements and its root. -/
def join (entry : α → Link α) (root : Link α) : Links α
  | none => root
  | some x => entry x

lemma join_links (links : Links α) : join (fun x => links (some x)) (links none) = links := by
  funext a
  cases a <;> rfl

variable {κ : Type} {entry : α → Link α} {root : κ → Link α} {lists : κ → List α} {k : κ}

/-- One link per element represents all the lists. -/
structure Shared (entry : α → Link α) (root : κ → Link α) (lists : κ → List α) : Prop where
  represents : ∀ k, Represents (join entry (root k)) (lists k)
  exclusive : ∀ x k k', x ∈ lists k → x ∈ lists k' → k = k'

lemma Shared.not_mem_of_ne (h : Shared entry root lists) {k' : κ} (hk : k' ≠ k) {y : α}
    (hy : y ∈ lists k') : y ∉ lists k :=
  fun hmem => hk (h.exclusive y k' k hy hmem)

/-- An operation on one list that touches no element of the others. -/
lemma Shared.store [DecidableEq κ] (h : Shared entry root lists) {links : Links α} {l : List α}
    (hl : Represents links l)
    (hframe : ∀ k', k' ≠ k → ∀ y ∈ lists k', y ∉ l ∧ links (some y) = entry y) :
    Shared (fun y => links (some y)) (update root k (links none)) (update lists k l) := by
  refine ⟨fun k' => ?_, fun y k₁ k₂ h1 h2 => ?_⟩
  · by_cases hk : k' = k
    · subst hk
      simp only [update_self]
      exact hl.congr rfl fun _ _ => rfl
    · simp only [update_of_ne hk]
      exact (h.represents k').congr rfl fun y hy => (hframe k' hk y hy).2
  · by_cases hk₁ : k₁ = k
    · by_cases hk₂ : k₂ = k
      · rw [hk₁, hk₂]
      · subst hk₁
        rw [update_self] at h1
        rw [update_of_ne hk₂] at h2
        exact absurd h1 (hframe k₂ hk₂ y h2).1
    · rw [update_of_ne hk₁] at h1
      by_cases hk₂ : k₂ = k
      · subst hk₂
        rw [update_self] at h2
        exact absurd h2 (hframe k₁ hk₁ y h1).1
      · rw [update_of_ne hk₂] at h2
        exact h.exclusive y k₁ k₂ h1 h2

/-! ## The pointer operations -/

variable [DecidableEq α]

def setPrev (links : Links α) (node value : Option α) : Links α :=
  update links node { links node with prev := value }

def setNext (links : Links α) (node value : Option α) : Links α :=
  update links node { links node with next := value }

@[simp]
lemma setPrev_prev (links : Links α) (node value a : Option α) :
    (setPrev links node value a).prev = if a = node then value else (links a).prev := by
  by_cases h : a = node
  · simp [setPrev, h]
  · simp [setPrev, h]

@[simp]
lemma setPrev_next (links : Links α) (node value a : Option α) :
    (setPrev links node value a).next = (links a).next := by
  by_cases h : a = node
  · simp [setPrev, h]
  · simp [setPrev, h]

@[simp]
lemma setNext_next (links : Links α) (node value a : Option α) :
    (setNext links node value a).next = if a = node then value else (links a).next := by
  by_cases h : a = node
  · simp [setNext, h]
  · simp [setNext, h]

@[simp]
lemma setNext_prev (links : Links α) (node value a : Option α) :
    (setNext links node value a).prev = (links a).prev := by
  by_cases h : a = node
  · simp [setNext, h]
  · simp [setNext, h]

lemma setPrev_of_ne (links : Links α) {node a : Option α} (value : Option α) (h : a ≠ node) :
    setPrev links node value a = links a :=
  update_of_ne h _ _

lemma setNext_of_ne (links : Links α) {node a : Option α} (value : Option α) (h : a ≠ node) :
    setNext links node value a = links a :=
  update_of_ne h _ _

/-- Links an element behind the last one. -/
def pushBack (links : Links α) (x : α) : Links α :=
  let tail := (links none).prev
  let links := setPrev links (some x) tail
  let links := setNext links (some x) none
  let links := setNext links tail (some x)
  setPrev links none (some x)

/-- Links an element in front of the first one. -/
def pushFront (links : Links α) (x : α) : Links α :=
  let head := (links none).next
  let links := setPrev links (some x) none
  let links := setNext links (some x) head
  let links := setPrev links head (some x)
  setNext links none (some x)

/-- Links the neighbours of an element to each other.  The element keeps its links. -/
def remove (links : Links α) (x : α) : Links α :=
  let prev := (links (some x)).prev
  let next := (links (some x)).next
  let links := setNext links prev next
  setPrev links next prev

lemma Path.pushBack (h : Path links a l) (hnodup : l.Nodup) (ha : ∀ y ∈ l, a ≠ some y)
    (hx : x ∉ l) (hax : a ≠ some x) : Path (pushBack links x) a (l ++ [x]) := by
  induction l generalizing a with
  | nil => simp [Path, IntrusiveList.pushBack, h.2, hax.symm]
  | cons y l ih =>
    simp only [nodup_cons] at hnodup
    simp only [mem_cons, not_or] at hx
    have hyx : some y ≠ some x := by simpa using Ne.symm hx.1
    -- the last element is not the node in front of the path
    have htail : a ≠ (links none).prev := by
      rcases h.last with ⟨hnil, -⟩ | ⟨z, hz, hlast⟩
      · cases hnil
      · rw [hlast]
        exact ha z hz
    refine ⟨?_, ?_, ih h.2.2 hnodup.2 (fun z hz => ?_) hx.2 hyx⟩
    · simp [IntrusiveList.pushBack, htail, hax, h.1]
    · simp [IntrusiveList.pushBack, Ne.symm hx.1, h.2.1]
    · rintro ⟨⟩
      exact hnodup.1 hz

section
variable (h : Represents links l)
include h

lemma Represents.pushBack (hx : x ∉ l) : Represents (pushBack links x) (l ++ [x]) := by
  refine ⟨h.path.pushBack h.nodup (by simp) hx (by simp), ?_⟩
  rw [nodup_append]
  refine ⟨h.nodup, nodup_singleton x, fun y hy z hz => ?_⟩
  rw [mem_singleton.1 hz]
  rintro rfl
  exact hx hy

lemma Represents.pushBack_of_not_mem (hy : y ∉ l) (hyx : y ≠ x) :
    IntrusiveList.pushBack links x (some y) = links (some y) := by
  have htail : some y ≠ (links none).prev := by
    rcases h.path.last with ⟨-, hlast⟩ | ⟨z, hz, hlast⟩
    · simp [hlast]
    · rw [hlast]
      rintro ⟨⟩
      exact hy hz
  have hne : some y ≠ some x := by simpa using hyx
  simp only [IntrusiveList.pushBack]
  rw [setPrev_of_ne _ _ (by simp), setNext_of_ne _ _ htail, setNext_of_ne _ _ hne,
    setPrev_of_ne _ _ hne]

lemma Represents.pushFront (hx : x ∉ l) : Represents (pushFront links x) (x :: l) := by
  refine ⟨⟨by simp [IntrusiveList.pushFront], ?_, ?_⟩, nodup_cons.2 ⟨hx, h.nodup⟩⟩
  · cases l with
    | nil => simp [IntrusiveList.pushFront, h.head]
    | cons y l =>
      have hxy : x ≠ y := by
        rintro rfl
        exact hx mem_cons_self
      simp [IntrusiveList.pushFront, h.head, hxy]
  · cases l with
    | nil => simp [Path, IntrusiveList.pushFront, h.head]
    | cons y l =>
      simp only [mem_cons, not_or] at hx
      have hy := (nodup_cons.1 h.nodup).1
      refine ⟨by simp [IntrusiveList.pushFront, h.head],
        by simp [IntrusiveList.pushFront, h.head], h.path.2.2.congr ?_ ?_⟩
      · rintro b (rfl | ⟨z, hz, rfl⟩)
        · simp [IntrusiveList.pushFront, Ne.symm hx.1]
        · have hzx : z ≠ x := fun hzx => hx.2 (hzx ▸ hz)
          simp [IntrusiveList.pushFront, hzx]
      · rintro b (rfl | ⟨z, hz, rfl⟩)
        · simp [IntrusiveList.pushFront, h.head]
        · have hzx : z ≠ x := fun hzx => hx.2 (hzx ▸ hz)
          have hzy : z ≠ y := fun hzy => hy (hzy ▸ hz)
          simp [IntrusiveList.pushFront, h.head, hzx, hzy]

lemma Represents.pushFront_of_not_mem (hy : y ∉ l) (hyx : y ≠ x) :
    IntrusiveList.pushFront links x (some y) = links (some y) := by
  have hhead : some y ≠ (links none).next := by
    rw [h.head]
    intro heq
    exact hy (List.mem_of_mem_head? heq.symm)
  have hne : some y ≠ some x := by simpa using hyx
  simp only [IntrusiveList.pushFront]
  rw [setNext_of_ne _ _ (by simp), setPrev_of_ne _ _ hhead, setNext_of_ne _ _ hne,
    setPrev_of_ne _ _ hne]

end

lemma Path.remove (h : Path links a l) (hnodup : l.Nodup) (ha : ∀ y ∈ l, a ≠ some y)
    (hx : x ∈ l) : Path (remove links x) a (l.erase x) := by
  induction l generalizing a with
  | nil => simp at hx
  | cons y l ih =>
    simp only [nodup_cons] at hnodup
    by_cases hyx : y = x
    · -- the element is the first one: its neighbours are the node in front and the rest
      subst hyx
      rw [erase_cons_head]
      cases l with
      | nil => simp [Path, IntrusiveList.remove, h.2.1, h.2.2.1]
      | cons z l =>
        have hz := (nodup_cons.1 hnodup.2).1
        refine ⟨by simp [IntrusiveList.remove, h.2.1, h.2.2.1],
          by simp [IntrusiveList.remove, h.2.1, h.2.2.1], h.2.2.2.2.congr ?_ ?_⟩
        · rintro b (rfl | ⟨w, hw, rfl⟩)
          · simp [IntrusiveList.remove, h.2.1, (ha z (by simp)).symm]
          · simp [IntrusiveList.remove, h.2.1, (ha w (by simp [hw])).symm]
        · rintro b (rfl | ⟨w, hw, rfl⟩)
          · simp [IntrusiveList.remove, h.2.2.1]
          · have hwz : w ≠ z := fun hwz => hz (hwz ▸ hw)
            simp [IntrusiveList.remove, h.2.2.1, hwz]
    · rw [erase_cons_tail (by simpa using hyx)]
      have hx : x ∈ l := (mem_cons.1 hx).resolve_left (Ne.symm hyx)
      obtain ⟨z, hz, hprev⟩ := h.2.2.prev_mem hx
      have hnext : some y ≠ (links (some x)).next := by
        rcases h.2.2.next_mem hx with hnone | ⟨w, hw, hnext⟩
        · simp [hnone]
        · rw [hnext]
          rintro ⟨⟩
          exact hnodup.1 hw
      refine ⟨?_, ?_, ih h.2.2 hnodup.2 (fun w hw => ?_) hx⟩
      · simp [IntrusiveList.remove, hprev, ha z hz, h.1]
      · simp [IntrusiveList.remove, hnext, h.2.1]
      · rintro ⟨⟩
        exact hnodup.1 hw

lemma Represents.remove (h : Represents links l) (hx : x ∈ l) :
    Represents (remove links x) (l.erase x) :=
  ⟨h.path.remove h.nodup (by simp) hx, h.nodup.erase x⟩

lemma Represents.remove_of_not_mem (h : Represents links l) (hx : x ∈ l) (hy : y ∉ l) :
    IntrusiveList.remove links x (some y) = links (some y) := by
  have hprev : some y ≠ (links (some x)).prev := by
    cases l with
    | nil => simp at hx
    | cons w l =>
      rcases mem_cons.1 hx with rfl | hx
      · simp [h.path.2.1]
      · obtain ⟨z, hz, hprev⟩ := h.path.2.2.prev_mem hx
        rw [hprev]
        rintro ⟨⟩
        exact hy hz
  have hnext : some y ≠ (links (some x)).next := by
    rcases h.path.next_mem hx with hnone | ⟨z, hz, hnext⟩
    · simp [hnone]
    · rw [hnext]
      rintro ⟨⟩
      exact hy hz
  simp only [IntrusiveList.remove]
  rw [setPrev_of_ne _ _ hnext, setNext_of_ne _ _ hprev]

section
variable [DecidableEq κ] (h : Shared entry root lists)
include h

lemma Shared.pushBack (hx : ∀ k', x ∉ lists k') :
    Shared (fun y => pushBack (join entry (root k)) x (some y))
      (update root k (pushBack (join entry (root k)) x none))
      (update lists k (lists k ++ [x])) := by
  refine h.store ((h.represents k).pushBack (hx k)) fun k' hk y hy => ?_
  have hyx : y ≠ x := fun hyx => hx k' (hyx ▸ hy)
  have hyl := h.not_mem_of_ne hk hy
  exact ⟨by simp [hyl, hyx], (h.represents k).pushBack_of_not_mem hyl hyx⟩

lemma Shared.pushFront (hx : ∀ k', x ∉ lists k') :
    Shared (fun y => pushFront (join entry (root k)) x (some y))
      (update root k (pushFront (join entry (root k)) x none))
      (update lists k (x :: lists k)) := by
  refine h.store ((h.represents k).pushFront (hx k)) fun k' hk y hy => ?_
  have hyx : y ≠ x := fun hyx => hx k' (hyx ▸ hy)
  have hyl := h.not_mem_of_ne hk hy
  exact ⟨by simp [hyl, hyx], (h.represents k).pushFront_of_not_mem hyl hyx⟩

variable (hx : x ∈ lists k)
include hx

lemma Shared.remove :
    Shared (fun y => remove (join entry (root k)) x (some y))
      (update root k (remove (join entry (root k)) x none))
      (update lists k ((lists k).erase x)) := by
  refine h.store ((h.represents k).remove hx) fun k' hk y hy => ?_
  have hyl := h.not_mem_of_ne hk hy
  exact ⟨fun hmem => hyl (mem_of_mem_erase hmem), (h.represents k).remove_of_not_mem hx hyl⟩

lemma Shared.not_mem_erase (k' : κ) : x ∉ update lists k ((lists k).erase x) k' := by
  by_cases hk : k' = k
  · subst hk
    rw [update_self]
    exact (h.represents k').nodup.not_mem_erase
  · rw [update_of_ne hk]
    exact fun hmem => hk (h.exclusive x k' k hmem hx)

lemma Shared.moveToFront :
    Shared
      (fun y => IntrusiveList.pushFront (IntrusiveList.remove (join entry (root k)) x) x (some y))
      (update root k
        (IntrusiveList.pushFront (IntrusiveList.remove (join entry (root k)) x) x none))
      (update lists k (x :: (lists k).erase x)) := by
  have hpushed := (h.remove hx).pushFront (k := k) (h.not_mem_erase hx)
  simpa only [update_self, update_idem, join_links] using hpushed

lemma Shared.moveToBack :
    Shared
      (fun y => IntrusiveList.pushBack (IntrusiveList.remove (join entry (root k)) x) x (some y))
      (update root k (IntrusiveList.pushBack (IntrusiveList.remove (join entry (root k)) x) x none))
      (update lists k ((lists k).erase x ++ [x])) := by
  have hpushed := (h.remove hx).pushBack (k := k) (h.not_mem_erase hx)
  simpa only [update_self, update_idem, join_links] using hpushed

end
end IntrusiveList

/-! ## Free lists in an array

The free slots of an array are linked by index: a head, and in every free slot the index of
the next one, with -1 at the end. -/

namespace FreeList

/-- The slots from a head to the end of the list. -/
def IsList (next : Nat → Int) : Int → List Nat → Prop
  | head, [] => head = -1
  | head, i :: rest => head = i ∧ IsList next (next i) rest

variable {next next' : Nat → Int} {head : Int} {i : Nat} {l : List Nat}

lemma IsList.congr (h : IsList next head l) (hnext : ∀ i ∈ l, next' i = next i) :
    IsList next' head l := by
  induction l generalizing head with
  | nil => exact h
  | cons i l ih =>
    obtain ⟨hnext, hrest⟩ := forall_mem_cons.1 hnext
    exact ⟨h.1, hnext.symm ▸ ih h.2 hrest⟩

lemma IsList.push (h : IsList next head l) (hi : i ∉ l) (hhead : next' i = head)
    (hnext : ∀ j, j ≠ i → next' j = next j) : IsList next' i (i :: l) := by
  refine ⟨rfl, ?_⟩
  rw [hhead]
  exact h.congr fun j hj => hnext j fun heq => hi (heq ▸ hj)

/-- Every slot points to the one in front of it. -/
lemma isList_descending {n : Nat} (hnext : ∀ i < n, next i = (i : Int) - 1) :
    IsList next ((n : Int) - 1) (List.range n).reverse := by
  induction n with
  | zero => rfl
  | succ n ih =>
    rw [range_succ, List.reverse_append, reverse_singleton, singleton_append]
    refine ⟨by simp, ?_⟩
    rw [hnext n n.lt_succ_self]
    exact ih fun i hi => hnext i (Nat.lt_succ_of_lt hi)

end FreeList
end Drippu.Library
