import Drippu.Library.Breakpoints

/-!
# Common - Range maps

A range map holds a value for every address.  It is kept as breakpoints in a
`std::map`: the value of an address is that of the last breakpoint at or below it.
Keys are signed; addresses that are negative as keys are clamped to zero or have no value.

The breakpoints stay canonical: neighbours have different values, and the last value is
the null value.  Then a map looks at nothing but the values on both sides of its range.

Main results:

- Theorem `run_pointwise`: after every run of maps and unmaps the values are those of
  the last call, and the continuous size is the distance to the next change of a value that
  is not null.
-/

namespace Drippu.Common

open Library List Prod

/-- The breakpoints are in the order of their keys. -/
structure RangeMap (V : Type) where
  nullValue : V
  container : List (Int × V)
  deriving DecidableEq, Repr

namespace RangeMap

variable {V : Type}

/-! ## Keys -/

/-- The smallest key of `w` bits and a sign. -/
def keyMin (w : Nat) : Int := -2 ^ w

def keyMax (w : Nat) : Int := 2 ^ w - 1

/-- `static_cast<KeyT>`. -/
def toKey (w : Nat) (address : Int) : Int :=
  let address := address % 2 ^ (w + 1)
  if address ≤ keyMax w then address else address - 2 ^ (w + 1)

/-- A new map. -/
def new (w : Nat) (nullValue : V) : RangeMap V :=
  ⟨nullValue, [(keyMin w, nullValue)]⟩

/-! ## Searches -/

section
variable (m : RangeMap V)

/-- The position of the breakpoint that governs an address. -/
def getFirstElementBeforeOrOn (address : Int) : Nat :=
  let it := lowerBound fst m.container address
  if it = 0 then it
  else if (m.container[it]?.any fun e => e.1 = address) then it
  else it - 1

def getValueInternal (address : Int) : V :=
  match m.container[m.getFirstElementBeforeOrOn address]? with
  | none => m.nullValue
  | some e => e.2

/-- The value in front of an address.  It is undefined for an empty container. -/
def getFirstValueWithin (address : Int) : Option V :=
  let it := lowerBound fst m.container address
  if it = 0 then m.container[it]?.map snd
  else if it = m.container.length then some m.nullValue
  else m.container[it - 1]?.map snd

/-- The value at an address. -/
def getLastValueWithin (address : Int) : Option V :=
  let it := upperBound fst m.container address
  if it = m.container.length then some m.nullValue
  else if it = 0 then m.container[it]?.map snd
  else m.container[it - 1]?.map snd

end

/-- `std::map::emplace` does not replace an entry. -/
def emplace (l : List (Int × V)) (key : Int) (value : V) : List (Int × V) :=
  if l.any fun e => e.1 = key then l
  else insertAt l (lowerBound fst l key) [(key, value)]

/-! ## Operations -/

section
variable [DecidableEq V] (w : Nat) (m : RangeMap V)

/-- The size is a difference of keys. -/
def continuousSizeInternal (address : Int) : Int :=
  let it := m.getFirstElementBeforeOrOn address
  match m.container[it]? with
  | none => 0
  | some e =>
    if e.2 = m.nullValue then 0
    else
      match m.container[it + 1]? with
      | none => keyMax w - address
      | some next => next.1 - address

/-- The loop that erases is undefined when it starts behind its end. -/
def internalMap (address addressEnd : Int) (value : V) : Option (RangeMap V) := do
  let firstValue ← m.getFirstValueWithin address
  let lastValue ← m.getLastValueWithin addressEnd
  let it := lowerBound fst m.container address
  let itEnd := upperBound fst m.container addressEnd
  if itEnd < it then none
  else
    let container := eraseRange m.container it itEnd
    let container := if firstValue ≠ value then emplace container address value else container
    let container :=
      if lastValue ≠ value then emplace container addressEnd lastValue else container
    some { m with container := container }

def map (address addressEnd : Int) (value : V) : Option (RangeMap V) :=
  let newAddress := toKey w address
  let newAddressEnd := toKey w addressEnd
  let newAddress := if newAddress < 0 then 0 else newAddress
  let newAddressEnd := if newAddressEnd < 0 then 0 else newAddressEnd
  m.internalMap newAddress newAddressEnd value

def unmap (address addressEnd : Int) : Option (RangeMap V) :=
  m.map w address addressEnd m.nullValue

def getContinuousSizeFrom (address : Int) : Int :=
  let newAddress := toKey w address
  if newAddress < 0 then 0 else m.continuousSizeInternal w newAddress

omit [DecidableEq V] in
def getValueAt (address : Int) : V :=
  let newAddress := toKey w address
  if newAddress < 0 then m.nullValue else m.getValueInternal newAddress

end

/-! ## Calls -/

inductive Call (V : Type) where
  | map (address addressEnd : Int) (value : V)
  | unmap (address addressEnd : Int)
  deriving DecidableEq, Repr

def Call.address : Call V → Int
  | .map address _ _ | .unmap address _ => address

def Call.addressEnd : Call V → Int
  | .map _ addressEnd _ | .unmap _ addressEnd => addressEnd

/-- The value that a call sets. -/
def Call.value (nullValue : V) : Call V → V
  | .map _ _ value => value
  | .unmap _ _ => nullValue

def exec [DecidableEq V] (w : Nat) (m : RangeMap V) : Call V → Option (RangeMap V)
  | .map address addressEnd value => m.map w address addressEnd value
  | .unmap address addressEnd => m.unmap w address addressEnd

/-- A new map after some calls. -/
def run [DecidableEq V] (w : Nat) (nullValue : V) (calls : List (Call V)) : Option (RangeMap V) :=
  calls.foldlM (exec w) (new w nullValue)

/-- The value of the last call that covers an address. -/
def lastValue (nullValue : V) (calls : List (Call V)) (x : Int) : V :=
  match (calls.filter fun c => c.address ≤ x ∧ x < c.addressEnd).getLast? with
  | none => nullValue
  | some c => c.value nullValue

/-! ## Canonical breakpoints -/

/-- Neighbours have different values, and the last value is the null value. -/
structure Canonical (m : RangeMap V) : Prop where
  sorted : m.container.Pairwise fun a b => a.1 < b.1
  neighbours : m.container.IsChain fun a b => a.2 ≠ b.2
  last : m.container.getLast?.map snd = some m.nullValue

/-- The first breakpoint is at the smallest key, and the others are not negative. -/
structure WellFormed (w : Nat) (m : RangeMap V) : Prop extends Canonical m where
  first : m.container.head? = some (keyMin w, m.nullValue)
  keys : ∀ e ∈ m.container, e.1 ≤ keyMax w ∧ (e.1 < 0 → e = (keyMin w, m.nullValue))

/-- The value of a key. -/
def value (m : RangeMap V) (x : Int) : V :=
  ((floor fst m.container x).map snd).getD m.nullValue

lemma keyMin_neg (w : Nat) : keyMin w < 0 := by
  have hpos : (0 : Int) < 2 ^ w := Int.pow_pos (by decide)
  rw [keyMin]
  omega

lemma toKey_eq {w : Nat} {address : Int} (hmin : keyMin w ≤ address) (hmax : address ≤ keyMax w) :
    toKey w address = address := by
  simp only [keyMin, keyMax, toKey, Int.pow_succ] at *
  rcases le_or_gt 0 address with hneg | hneg
  · rw [Int.emod_eq_of_lt hneg (by omega), if_pos hmax]
  · rw [← Int.add_emod_right, Int.emod_eq_of_lt (by omega) (by omega), if_neg (by omega)]
    omega

lemma new_wellFormed (w : Nat) (nullValue : V) : WellFormed w (new w nullValue) where
  sorted := pairwise_singleton _ _
  neighbours := isChain_singleton _
  last := rfl
  first := rfl
  keys e he := by
    rw [mem_singleton.1 he]
    have hmin := keyMin_neg w
    refine ⟨?_, fun _ => rfl⟩
    simp only [keyMin, keyMax] at hmin ⊢
    omega

/-! ## Queries -/

section
variable {w : Nat} {m : RangeMap V} (h : WellFormed w m) {x : Int} (hx : 0 ≤ x)
include h hx

lemma getFirstElementBeforeOrOn_spec :
    ∃ front e back, m.container = front ++ e :: back ∧ e.1 ≤ x ∧ (∀ b ∈ back, x < b.1) ∧
      m.getFirstElementBeforeOrOn x = front.length := by
  obtain ⟨front, e, back, heq, hfront, he, hback⟩ :=
    exists_governing h.sorted h.first ((keyMin_neg w).le.trans hx)
  refine ⟨front, e, back, heq, he, hback, ?_⟩
  rw [getFirstElementBeforeOrOn, heq]
  rcases he.lt_or_eq with hlt | rfl
  · have hbound : lowerBound fst (front ++ e :: back) x = front.length + 1 := by
      rw [append_cons, lowerBound_append, length_append, length_singleton]
      · intro a ha
        rcases mem_append.1 ha with ha | ha
        · exact (hfront a ha).trans hlt
        · rwa [mem_singleton.1 ha]
      · exact fun a ha => (hback a ha).le
    have hnext : ((front ++ e :: back)[front.length + 1]?.any fun b => b.1 = x) = false := by
      cases back with
      | nil => simp
      | cons b back => simp [(hback b mem_cons_self).ne']
    simp [hbound, hnext]
  · have hbound : lowerBound fst (front ++ e :: back) e.1 = front.length := by
      refine lowerBound_append hfront fun a ha => ?_
      rcases mem_cons.1 ha with rfl | ha
      · exact le_rfl
      · exact (hback a ha).le
    simp [hbound]

lemma getValueInternal_eq : m.getValueInternal x = m.value x := by
  obtain ⟨front, e, back, heq, he, hback, hit⟩ := getFirstElementBeforeOrOn_spec h hx
  rw [getValueInternal, hit, value, heq, floor_eq he hback, getElem?_split rfl]
  rfl

/-- The distance from a key to the next one with another value. -/
def IsDistance (f : Int → V) (x d : Int) : Prop :=
  0 < d ∧ (∀ y, x ≤ y → y < x + d → f y = f x) ∧ f (x + d) ≠ f x

variable [DecidableEq V]

lemma continuousSizeInternal_spec :
    (m.value x = m.nullValue → m.continuousSizeInternal w x = 0) ∧
      (m.value x ≠ m.nullValue → IsDistance m.value x (m.continuousSizeInternal w x) ∧
        x + m.continuousSizeInternal w x ≤ keyMax w) := by
  obtain ⟨front, e, back, heq, he, hback, hit⟩ := getFirstElementBeforeOrOn_spec h hx
  have hvalue : ∀ y, e.1 ≤ y → (∀ b ∈ back, y < b.1) → m.value y = e.2 := fun y hy hlt => by
    rw [value, heq, floor_eq hy hlt]
    rfl
  rw [hvalue x he hback, continuousSizeInternal, hit, heq]
  simp only [getElem?_split rfl]
  refine ⟨fun hnull => if_pos hnull, fun hnull => ?_⟩
  rw [if_neg hnull]
  cases back with
  | nil =>
    -- the value of the last breakpoint is null
    have hlast := h.last
    rw [heq, getLast?_append_cons] at hlast
    exact (hnull (Option.some.inj hlast)).elim
  | cons next back =>
    have hsorted := h.sorted
    have hneighbours := h.neighbours
    rw [heq] at hsorted hneighbours
    have hlater : ∀ b ∈ back, next.1 < b.1 :=
      (pairwise_cons.1 (pairwise_cons.1 (pairwise_append.1 hsorted).2.1).2).1
    have hne : e.2 ≠ next.2 := (isChain_append_cons_cons.1 hneighbours).2.1
    have hget : (front ++ e :: next :: back)[front.length + 1]? = some next := by
      rw [append_cons, getElem?_split (by simp)]
    have hx' := hback next mem_cons_self
    simp only [hget]
    refine ⟨⟨by simpa using hx', fun y hy hlt => ?_, ?_⟩, ?_⟩
    · rw [hvalue y (he.trans hy) (forall_mem_cons.2 ⟨by omega, fun b hb => ?_⟩), hvalue x he hback]
      have := hlater b hb
      omega
    · rw [hvalue x he hback, value, heq, append_cons, floor_eq (by omega)]
      · exact hne.symm
      · intro b hb
        have := hlater b hb
        omega
    · have := (h.keys next (by simp [heq])).1
      omega

end

/-! ## Maps -/

lemma emplace_split {front back : List (Int × V)} {key : Int}
    (hfront : ∀ e ∈ front, e.1 < key) (hback : ∀ e ∈ back, key < e.1) (value : V) :
    emplace (front ++ back) key value = front ++ (key, value) :: back := by
  have hnone : ((front ++ back).any fun e => e.1 = key) = false := by
    rw [any_eq_false]
    intro e he
    rcases mem_append.1 he with he | he
    · simpa using (hfront e he).ne
    · simpa using (hback e he).ne'
  rw [emplace, hnone, if_neg Bool.false_ne_true,
    lowerBound_append hfront fun e he => (hback e he).le, insertAt_split rfl]
  rfl

/-- The breakpoints that a map adds, between the value in front of its range and the value
at the end of it. -/
def added [DecidableEq V] (address addressEnd : Int) (value first last : V) : List (Int × V) :=
  (if first ≠ value then [(address, value)] else []) ++
    if last ≠ value then [(addressEnd, last)] else []

section
variable [DecidableEq V] {w : Nat} {m : RangeMap V} (h : WellFormed w m) {address addressEnd : Int}
  (haddress : 0 ≤ address) (hlt : address < addressEnd) (hend : addressEnd ≤ keyMax w)

variable {first last value : V}

lemma mem_added {e : Int × V} (he : e ∈ added address addressEnd value first last) :
    e = (address, value) ∨ e = (addressEnd, last) := by
  rcases mem_append.1 he with he | he
  · split at he
    · exact .inl (mem_singleton.1 he)
    · cases he
  · split at he
    · exact .inr (mem_singleton.1 he)
    · cases he

lemma added_keys (hle : address ≤ addressEnd) {e : Int × V}
    (he : e ∈ added address addressEnd value first last) : address ≤ e.1 ∧ e.1 ≤ addressEnd := by
  rcases mem_added he with rfl | rfl
  · exact ⟨le_rfl, hle⟩
  · exact ⟨hle, le_rfl⟩

lemma added_sorted (hlt : address < addressEnd) (value first last : V) :
    (added address addressEnd value first last).Pairwise fun a b => a.1 < b.1 := by
  rw [added]
  split <;> split <;> simp [hlt]

lemma floor_added {x : Int} (hx : address ≤ x) (hx' : x < addressEnd) :
    floor fst (added address addressEnd value first last) x =
      if first ≠ value then some (address, value) else none := by
  have hstop : ∀ e ∈ (if last ≠ value then [(addressEnd, last)] else []), x < e.1 := fun e he => by
    split at he
    · rwa [mem_singleton.1 he]
    · cases he
  rw [added, floor_append, floor_of_lt hstop, Option.none_or]
  split
  · rw [floor_cons, floor_nil, if_pos hx]
    rfl
  · rfl

/-- The added breakpoints continue with the value at the end of the range. -/
lemma getLast?_added {front : List V} (hfirst : front.getLast? = some first) (value last : V) :
    (front ++ (added address addressEnd value first last).map snd).getLast? = some last := by
  rw [added]
  by_cases hlast : last = value
  · by_cases hvalue : first = value
    · simp [hlast, hvalue, hfirst]
    · simp [hlast, hvalue]
  · simp [hlast]

lemma isChain_added {front mid back : List V} (hchain : (front ++ (mid ++ back)).IsChain (· ≠ ·))
    (hfirst : front.getLast? = some first) (hlast : (front ++ mid).getLast? = some last)
    (value : V) :
    (front ++ ((added address addressEnd value first last).map snd ++ back)).IsChain (· ≠ ·) := by
  rw [← append_assoc, isChain_append] at hchain ⊢
  rw [getLast?_added hfirst]
  rw [hlast] at hchain
  refine ⟨isChain_append.2 ⟨hchain.1.left_of_append, ?_, ?_⟩, hchain.2⟩
  · by_cases hlast : last = value
    · by_cases hvalue : first = value <;> simp [added, hvalue, hlast]
    · have hne := Ne.symm hlast
      by_cases hvalue : first = value <;> simp [added, hvalue, hlast, hne]
  · intro x hx y hy
    obtain rfl : first = x := Option.some.inj (hfirst.symm.trans hx)
    by_cases hvalue : first = value
    · by_cases hlast : last = value
      · simp [added, hvalue, hlast] at hy
      · have hy : last = y := by simpa [added, hvalue, hlast] using hy
        rw [hvalue, ← hy]
        exact Ne.symm hlast
    · have hy : value = y := by simpa [added, hvalue] using hy
      exact hy ▸ hvalue

omit [DecidableEq V] in
/-- The values on both sides of a position, as the searches read them. -/
lemma getElem?_before {l back : List (Int × V)} {null : V}
    (hlast : (l ++ back).getLast?.map snd = some null) (hl : l ≠ []) :
    (if l.length = (l ++ back).length then some null
      else ((l ++ back)[l.length - 1]?).map snd) = l.getLast?.map snd := by
  have hlen := length_pos_iff.2 hl
  split <;> rename_i hback
  · obtain rfl : back = [] := eq_nil_of_length_eq_zero (by simpa using hback)
    rw [← hlast, append_nil]
  · rw [getElem?_append_left (by omega), getLast?_eq_getElem?]

include h haddress hlt

lemma internalMap_eq (value : V) :
    ∃ front mid back first last, m.container = front ++ (mid ++ back) ∧
      (∀ e ∈ front, e.1 < address) ∧ (∀ e ∈ mid, address ≤ e.1 ∧ e.1 ≤ addressEnd) ∧
      (∀ e ∈ back, addressEnd < e.1) ∧ front.getLast?.map snd = some first ∧
      (front ++ mid).getLast?.map snd = some last ∧
      m.internalMap address addressEnd value = some { m with
        container := front ++ (added address addressEnd value first last ++ back) } := by
  obtain ⟨front, mid, back, heq, hfront, hmid, hback⟩ :=
    exists_split_of_sorted h.sorted address (addressEnd + 1)
  have hne : front ≠ [] := by
    rintro rfl
    have hmem : (keyMin w, m.nullValue) ∈ mid ++ back := by
      have hfirst := h.first
      rw [heq, nil_append] at hfirst
      exact mem_of_head? hfirst
    have hmin := keyMin_neg w
    rcases mem_append.1 hmem with hmem | hmem
    · have := (hmid _ hmem).1
      omega
    · have := hback _ hmem
      omega
  have hmid : ∀ e ∈ mid, address ≤ e.1 ∧ e.1 ≤ addressEnd := fun e he =>
    ⟨(hmid e he).1, Int.lt_add_one_iff.1 (hmid e he).2⟩
  have hrest : ∀ e ∈ mid ++ back, address ≤ e.1 := fun e he => by
    rcases mem_append.1 he with he | he
    · exact (hmid e he).1
    · exact (hlt.trans (hback e he)).le
  have hbefore : ∀ e ∈ front ++ mid, e.1 ≤ addressEnd := fun e he => by
    rcases mem_append.1 he with he | he
    · exact ((hfront e he).trans hlt).le
    · exact (hmid e he).2
  have hit : lowerBound fst m.container address = front.length := by
    rw [heq, lowerBound_append hfront hrest]
  have hitEnd : upperBound fst m.container addressEnd = (front ++ mid).length := by
    rw [heq, ← append_assoc, upperBound_append hbefore hback]
  have hlast := h.last
  rw [heq] at hlast
  have hne' : front ++ mid ≠ [] := append_ne_nil_of_left_ne_nil hne mid
  -- the two searches read the values at the ends of the parts
  have hfirstValue : m.getFirstValueWithin address = front.getLast?.map snd := by
    rw [getFirstValueWithin, hit, if_neg (length_pos_iff.2 hne).ne', heq]
    exact getElem?_before hlast hne
  have hlastValue : m.getLastValueWithin addressEnd = (front ++ mid).getLast?.map snd := by
    rw [getLastValueWithin, hitEnd, if_neg (length_pos_iff.2 hne').ne', heq, ← append_assoc]
    rw [← append_assoc] at hlast
    exact getElem?_before hlast hne'
  obtain ⟨first, hfirst⟩ := Option.ne_none_iff_exists'.1 (mt getLast?_eq_none_iff.1 hne)
  obtain ⟨last, hlast'⟩ := Option.ne_none_iff_exists'.1 (mt getLast?_eq_none_iff.1 hne')
  refine ⟨front, mid, back, first.2, last.2, heq, hfront, hmid, hback, by rw [hfirst]; rfl,
    by rw [hlast']; rfl, ?_⟩
  rw [internalMap, hfirstValue, hlastValue, hfirst, hlast', hit, hitEnd, heq]
  simp only [Option.map_some, Option.bind_eq_bind, Option.bind_some,
    eraseRange_split rfl length_append]
  have hstart := emplace_split hfront (fun e he => hlt.trans (hback e he)) value
  by_cases hvalue : first.2 = value
  · by_cases hvalue' : last.2 = value
    · simp [added, hvalue, hvalue']
    · simp [added, hvalue, hvalue', emplace_split (fun e he => (hfront e he).trans hlt) hback]
  have hfront' : ∀ e ∈ front ++ [(address, value)], e.1 < addressEnd := fun e he => by
    rcases mem_append.1 he with he | he
    · exact (hfront e he).trans hlt
    · rwa [mem_singleton.1 he]
  have hstop := emplace_split hfront' hback last.2
  rw [append_assoc, append_assoc, singleton_append, singleton_append] at hstop
  by_cases hvalue' : last.2 = value
  · simp [added, hvalue, hvalue', hstart]
  · simp [added, hvalue, hvalue', hstart, hstop]

include hend in
/-- A map keeps the breakpoints well-formed and sets the values of its range. -/
lemma internalMap_spec (value : V) :
    ∃ m', m.internalMap address addressEnd value = some m' ∧ m'.nullValue = m.nullValue ∧
      WellFormed w m' ∧
      ∀ x, m'.value x = if address ≤ x ∧ x < addressEnd then value else m.value x := by
  obtain ⟨front, mid, back, first, last, heq, hfront, hmid, hback, hfirst, hlast, hmap⟩ :=
    internalMap_eq h haddress hlt value
  have hadded : ∀ e ∈ added address addressEnd value first last,
      address ≤ e.1 ∧ e.1 ≤ addressEnd := fun e he => added_keys hlt.le he
  rw [← getLast?_map] at hfirst hlast
  have hlast' : ((front ++ added address addressEnd value first last).map snd).getLast? =
      some last := by
    rw [map_append]
    exact getLast?_added hfirst value last
  have hsorted := h.sorted
  have hchain := h.neighbours
  have hend' := h.last
  have hhead := h.first
  rw [heq] at hsorted hchain hend' hhead
  refine ⟨_, hmap, rfl, ⟨⟨?_, ?_, ?_⟩, ?_, fun e he => ?_⟩, fun x => ?_⟩
  · obtain ⟨hsf, hsr, -⟩ := pairwise_append.1 hsorted
    refine pairwise_append.2 ⟨hsf, pairwise_append.2 ⟨added_sorted hlt value first last,
      (pairwise_append.1 hsr).2.1, fun a ha b hb => (hadded a ha).2.trans_lt (hback b hb)⟩,
      fun a ha b hb => ?_⟩
    rcases mem_append.1 hb with hb | hb
    · exact (hfront a ha).trans_le (hadded b hb).1
    · exact (hfront a ha).trans (hlt.trans (hback b hb))
  · rw [← isChain_map (f := snd) (R := (· ≠ ·))] at hchain ⊢
    simp only [map_append] at hchain hlast ⊢
    exact isChain_added hchain hfirst hlast value
  · rw [← getLast?_map, ← append_assoc, map_append, getLast?_append] at hend' ⊢
    rw [hlast] at hend'
    rw [hlast']
    exact hend'
  · cases front with
    | nil => cases hfirst
    | cons f front => exact hhead
  · rcases mem_append.1 he with he | he
    · exact h.keys e (by simp [heq, he])
    · rcases mem_append.1 he with he | he
      · have hkeys := hadded e he
        exact ⟨hkeys.2.trans hend, fun hneg => by omega⟩
      · exact h.keys e (by simp [heq, he])
  · obtain ⟨hbelow, hwithin, habove⟩ := floor_replace (x := x) hlt.le hfront hmid hadded
      fun e he => (hback e he).le
    simp only [RangeMap.value]
    rw [heq]
    rcases lt_or_ge x address with hx | hx
    · rw [hbelow hx, if_neg fun hin => absurd hin.1 (not_le.2 hx)]
    rcases lt_or_ge x addressEnd with hx' | hx'
    · rw [hwithin hx hx', if_pos ⟨hx, hx'⟩, floor_added hx hx', Option.map_or,
        ← getLast?_map, hfirst]
      split <;> rename_i hvalue
      · rfl
      · rw [not_not.1 hvalue]
        rfl
    · -- behind the range both vectors continue with the value at its end
      obtain ⟨hnew, hold⟩ := habove hx'
      rw [hnew, hold, if_neg fun hin => absurd hin.2 (not_lt.2 hx'), Option.or_assoc,
        Option.or_assoc, ← getLast?_append, ← getLast?_append, Option.map_or,
        Option.map_or, ← getLast?_map, ← getLast?_map, hlast, hlast']

end

/-! ## Runs -/

/-- A call with a range that is not empty, in the signed range, and not below zero as a
whole. -/
def Call.Valid (w : Nat) (c : Call V) : Prop :=
  keyMin w ≤ c.address ∧ c.address < c.addressEnd ∧ 0 < c.addressEnd ∧ c.addressEnd ≤ keyMax w

section
variable [DecidableEq V] {w : Nat}

lemma exec_eq (m : RangeMap V) (c : Call V) :
    m.exec w c = m.map w c.address c.addressEnd (c.value m.nullValue) := by
  cases c <;> rfl

lemma exec_spec {m : RangeMap V} (h : WellFormed w m) {c : Call V} (hc : c.Valid w) :
    ∃ m', m.exec w c = some m' ∧ m'.nullValue = m.nullValue ∧ WellFormed w m' ∧
      ∀ x, 0 ≤ x → m'.value x =
        if c.address ≤ x ∧ x < c.addressEnd then c.value m.nullValue else m.value x := by
  obtain ⟨hmin, hlt, hpos, hmax⟩ := hc
  have hneg : ¬ c.addressEnd < 0 := not_lt.2 hpos.le
  have hmin' := keyMin_neg w
  have hstart : ∃ start, (if c.address < 0 then 0 else c.address) = start ∧ 0 ≤ start ∧
      start < c.addressEnd ∧ ∀ x, 0 ≤ x → (start ≤ x ↔ c.address ≤ x) := by
    refine ⟨_, rfl, ?_⟩
    split
    · exact ⟨le_rfl, hpos, fun x hx => by omega⟩
    · exact ⟨by omega, hlt, fun x _ => Iff.rfl⟩
  obtain ⟨start, hstart, hnonneg, hlt', hiff⟩ := hstart
  obtain ⟨m', hmap, hnull, hwf, hvalue⟩ :=
    internalMap_spec h hnonneg hlt' hmax (c.value m.nullValue)
  refine ⟨m', ?_, hnull, hwf, fun x hx => ?_⟩
  · rw [exec_eq, RangeMap.map, toKey_eq hmin (hlt.le.trans hmax),
      toKey_eq (hmin'.le.trans hpos.le) hmax]
    simp only [if_neg hneg, hstart]
    exact hmap
  · rw [hvalue]
    simp [hiff x hx]

omit [DecidableEq V] in
lemma lastValue_concat (nullValue : V) (calls : List (Call V)) (c : Call V) (x : Int) :
    lastValue nullValue (calls ++ [c]) x =
      if c.address ≤ x ∧ x < c.addressEnd then c.value nullValue
      else lastValue nullValue calls x := by
  rw [lastValue, filter_append]
  by_cases hcovers : c.address ≤ x ∧ x < c.addressEnd
  · simp [hcovers]
  · rw [filter_cons_of_neg (by simpa using hcovers), filter_nil, append_nil,
      if_neg hcovers, lastValue]

/-- Every run leads to well-formed breakpoints with the values of the last calls. -/
lemma run_spec (nullValue : V) {calls : List (Call V)} (hcalls : ∀ c ∈ calls, c.Valid w) :
    ∃ m, run w nullValue calls = some m ∧ m.nullValue = nullValue ∧ WellFormed w m ∧
      ∀ x, 0 ≤ x → m.value x = lastValue nullValue calls x := by
  induction calls using reverseRecOn with
  | nil =>
    refine ⟨new w nullValue, rfl, rfl, new_wellFormed w nullValue, fun x hx => ?_⟩
    rw [value, new, floor_cons, floor_nil, if_pos ((keyMin_neg w).le.trans hx)]
    rfl
  | append_singleton calls c ih =>
    obtain ⟨m, hrun, hnull, hwf, hvalue⟩ :=
      ih fun d hd => hcalls d (mem_append_left _ hd)
    obtain ⟨m', hexec, hnull', hwf', hvalue'⟩ := exec_spec hwf (hcalls c (by simp))
    refine ⟨m', ?_, hnull'.trans hnull, hwf', fun x hx => ?_⟩
    · rw [run, foldlM_append]
      rw [run] at hrun
      simp [hrun, hexec]
    · rw [hvalue' x hx, lastValue_concat, hnull, hvalue x hx]

/-- After every run of maps and unmaps the breakpoints are canonical, and the queries answer
as the last call that covers an address says. -/
theorem run_pointwise (nullValue : V) {calls : List (Call V)} (hcalls : ∀ c ∈ calls, c.Valid w) :
    ∃ m, run w nullValue calls = some m ∧ Canonical m ∧
      (∀ x, 0 ≤ x → x ≤ keyMax w →
        m.getValueAt w x = lastValue nullValue calls x ∧
        (lastValue nullValue calls x = nullValue → m.getContinuousSizeFrom w x = 0) ∧
        (lastValue nullValue calls x ≠ nullValue →
          IsDistance (lastValue nullValue calls) x (m.getContinuousSizeFrom w x))) ∧
      ∀ x, keyMin w ≤ x → x < 0 →
        m.getValueAt w x = nullValue ∧ m.getContinuousSizeFrom w x = 0 := by
  obtain ⟨m, hrun, hnull, hwf, hvalue⟩ := run_spec nullValue hcalls
  have hmin := keyMin_neg w
  refine ⟨m, hrun, hwf.toCanonical, fun x hx hmax => ?_, fun x hx hneg => ?_⟩
  · have hkey := toKey_eq (hmin.le.trans hx) hmax
    have hsize : m.getContinuousSizeFrom w x = m.continuousSizeInternal w x := by
      rw [getContinuousSizeFrom, hkey, if_neg (not_lt.2 hx)]
    obtain ⟨hzero, hdistance⟩ := continuousSizeInternal_spec hwf hx
    rw [hsize, getValueAt, hkey, if_neg (not_lt.2 hx), getValueInternal_eq hwf hx, ← hvalue x hx,
      ← hnull]
    refine ⟨rfl, hzero, fun hne => ?_⟩
    obtain ⟨⟨hpos, hsame, hdiffers⟩, -⟩ := hdistance hne
    refine ⟨hpos, fun y hy hlt => ?_, ?_⟩
    · rw [hnull, ← hvalue y (hx.trans hy), ← hvalue x hx]
      exact hsame y hy hlt
    · rw [hnull, ← hvalue _ (by omega), ← hvalue x hx]
      exact hdiffers
  · have hkey := toKey_eq hx (hneg.le.trans (by simp only [keyMin, keyMax] at *; omega))
    exact ⟨by rw [getValueAt, hkey, if_pos hneg, hnull],
      by rw [getContinuousSizeFrom, hkey, if_pos hneg]⟩

/-- A map that splits another one. -/
theorem run_pointwise_split :
    ∃ m, run 63 0 [.map 10 30 1, .map 15 20 2, .unmap 25 40] = some m ∧ Canonical m :=
  (run_pointwise 0 (by
    simp only [forall_mem_cons, Call.Valid, Call.address, Call.addressEnd, keyMin, keyMax]
    decide)).imp fun _ h => ⟨h.1, h.2.1⟩

/-- In front of a mapped range the value is null until the range starts, but the continuous
size is zero. -/
theorem continuousSize_null :
    ∃ m : RangeMap Nat, run 63 0 [.map 10 20 1] = some m ∧ m.getValueAt 63 5 = 0 ∧
      m.getValueAt 63 9 = 0 ∧ m.getValueAt 63 10 = 1 ∧ m.getContinuousSizeFrom 63 5 = 0 := by
  decide

end
end RangeMap
end Drippu.Common
