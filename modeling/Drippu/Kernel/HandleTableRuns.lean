import Drippu.Kernel.HandleTable

/-!
# Kernel - The handle table over time

The free list of a handle table holds exactly the entries that are neither in use nor
reserved, so that an entry that is handed out is in nobody's hands.  A handle resolves to
the object that it was last returned for until it is removed: the entry holds the linear id
of the handle as long as it holds the object.

Main results:

- Theorem `reachable_integrity`: the integrity of the table in every run.
-/

namespace Drippu.Kernel

open Library Function Handle List

/-! ## Handles -/

namespace Handle

lemma index_encode {i l : Nat} (hi : i < 2 ^ 15) : (encode i l).index = i := by
  simp only [encode, index, BitVec.toNat_ofNat]
  omega

lemma linearId_encode {i l : Nat} (hl : l < 2 ^ 15) : (encode i l).linearId = l := by
  simp only [encode, linearId, BitVec.toNat_ofNat]
  omega

lemma reserved_encode (i l : Nat) : (encode i l).reserved = 0 := by
  simp only [encode, reserved, BitVec.toNat_ofNat]
  omega

variable {handle : Handle}

lemma encode_eq (h : handle.reserved = 0) : encode handle.index handle.linearId = handle := by
  apply BitVec.eq_of_toNat_eq
  simp only [encode, index, linearId, reserved, BitVec.toNat_ofNat] at *
  omega

lemma ne_zero_of_linearId (h : handle.linearId ≠ 0) : handle ≠ 0#32 := by
  rintro rfl
  exact h rfl

lemma reserved_of_isPseudoHandle (h : handle.isPseudoHandle = true) : handle.reserved ≠ 0 := by
  simp only [isPseudoHandle, Bool.or_eq_true, beq_iff_eq] at h
  rcases h with rfl | rfl
  · decide
  · decide

end Handle

namespace HandleTable

variable {O : Type} {t : HandleTable O}

/-! ## Entries -/

variable {handle : Handle}

lemma getObjectImpl_eq_some {obj : O} :
    t.getObjectImpl handle = some obj ↔
      handle.reserved = 0 ∧ handle.linearId ≠ 0 ∧ handle.index < t.tableSize ∧
        t.objects handle.index = some obj ∧ t.getLinearId handle.index = handle.linearId := by
  have hzero : handle.linearId ≠ 0 → handle ≠ 0#32 := ne_zero_of_linearId
  by_cases hid : handle.linearId = 0
  · simp [getObjectImpl, isValidHandle, hid]
  cases hobj : t.objects handle.index with
  | none => simp [getObjectImpl, hobj]
  | some obj' =>
    simp only [getObjectImpl, isValidHandle, hobj, hid, hzero hid]
    grind

lemma getObjectImpl_congr {t' : HandleTable O} (hsize : t'.tableSize = t.tableSize)
    (hobjects : t'.objects handle.index = t.objects handle.index)
    (hinfos : t'.entryInfos handle.index = t.entryInfos handle.index) :
    t'.getObjectImpl handle = t.getObjectImpl handle := by
  refine Option.ext fun obj => ?_
  simp [getObjectImpl_eq_some, getLinearId, hsize, hobjects, hinfos]

lemma getObjectImpl_of_none (h : t.objects handle.index = none) :
    t.getObjectImpl handle = none := by
  simp [getObjectImpl, h]

lemma toInt_ofInt_index {i : Int} (hlo : -1 ≤ i) (hhi : i < 1024) :
    (BitVec.ofInt 16 i).toInt = i := by
  rw [BitVec.toInt_ofInt, Int.bmod_def]
  omega

lemma getObjectImpl_setEntry (hsize : t.tableSize ≤ maxTableSize) {i l : Nat}
    (hi : i < t.tableSize) (hl : l ≠ 0 ∧ l < 2 ^ 15) (hnone : t.objects i = none) (obj : O) :
    (t.setEntry i l obj).getObjectImpl handle =
      if handle = encode i l then some obj else t.getObjectImpl handle := by
  have hi' : i < 2 ^ 15 := lt_of_lt_of_le hi (le_trans hsize (by decide))
  have hinfo : (t.setEntry i l obj).getLinearId i = l := by
    simp only [getLinearId, setEntry, update_self, BitVec.toNat_ofNat]
    omega
  split <;> rename_i hhandle
  · subst hhandle
    rw [getObjectImpl_eq_some, index_encode hi', linearId_encode hl.2]
    exact ⟨reserved_encode i l, hl.1, hi, update_self .., hinfo⟩
  by_cases hindex : handle.index = i
  · have hold : t.getObjectImpl handle = none := getObjectImpl_of_none (hindex.symm ▸ hnone)
    rw [hold]
    refine Option.eq_none_iff_forall_not_mem.2 fun obj' hobj' => ?_
    obtain ⟨hreserved, -, -, -, hid⟩ := getObjectImpl_eq_some.1 hobj'
    rw [hindex, hinfo] at hid
    rw [← encode_eq hreserved, hindex, hid] at hhandle
    exact hhandle rfl
  · exact getObjectImpl_congr rfl (update_of_ne hindex ..) (update_of_ne hindex ..)

lemma getObjectImpl_freeEntry (i : Nat) (handle : Handle) :
    (t.freeEntry i).getObjectImpl handle =
      if handle.index = i then none else t.getObjectImpl handle := by
  split <;> rename_i hindex
  · exact getObjectImpl_of_none (hindex ▸ update_self ..)
  · exact getObjectImpl_congr rfl (update_of_ne hindex ..) (update_of_ne hindex ..)

lemma remove_eq (handle : Handle) :
    t.remove handle = match t.getObjectImpl handle with
      | none => (t, none)
      | some obj => (t.freeEntry handle.index, some obj) := by
  rw [remove, getObjectImpl]
  by_cases hreserved : handle.reserved = 0
  · have hpseudo : ¬ handle.isPseudoHandle = true := fun h =>
      reserved_of_isPseudoHandle h hreserved
    rw [if_neg hpseudo, if_neg (not_not.2 hreserved), if_neg (not_not.2 hreserved)]
    cases hvalid : t.isValidHandle handle with
    | false => rfl
    | true =>
      cases hobj : t.objects handle.index with
      | none => simp [isValidHandle, hobj] at hvalid
      | some obj => rfl
  · rw [if_pos hreserved, if_pos hreserved, ite_self]

/-! ## Initialisation -/

lemma foldl_initializeEntry (t : HandleTable O) (n : Nat) :
    ∃ objects infos, (List.range n).foldl initializeEntry t = { t with
        objects := objects
        entryInfos := infos
        freeHeadIndex := if n = 0 then t.freeHeadIndex else (n : Int) - 1 } ∧
      ∀ i < n, objects i = none ∧ infos i = BitVec.ofInt 16 (i - 1) := by
  induction n with
  | zero => exact ⟨t.objects, t.entryInfos, rfl, nofun⟩
  | succ n ih =>
    obtain ⟨objects, infos, heq, hentries⟩ := ih
    refine ⟨update objects n none, update infos n (BitVec.ofInt 16 (n - 1)), ?_, fun i hi => ?_⟩
    · rw [range_succ, foldl_append, foldl_cons, foldl_nil, heq]
      simp [initializeEntry]
    · by_cases hne : i = n
      · subst hne
        exact ⟨update_self .., update_self ..⟩
      · rw [update_of_ne hne, update_of_ne hne]
        exact hentries i (by omega)

/-! ## The free list -/

/-- The free list is made of distinct entries, those of the table that are not allocated. -/
structure Free (t : HandleTable O) (allocated : Nat → Bool) (free : List Nat) : Prop where
  size : t.tableSize ≤ maxTableSize
  list : FreeList.IsList t.getNextFreeIndex t.freeHeadIndex free
  nodup : free.Nodup
  mem_free : ∀ i, i ∈ free ↔ i < t.tableSize ∧ allocated i = false
  count : t.count + free.length = t.tableSize

namespace Free

variable {t' : HandleTable O} {a a' : Nat → Bool} {free : List Nat} {i : Nat}

lemma congr (h : Free t a free) (hnext : ∀ j ∈ free, t'.getNextFreeIndex j = t.getNextFreeIndex j)
    (hhead : t'.freeHeadIndex = t.freeHeadIndex) (hcount : t'.count = t.count)
    (hsize : t'.tableSize = t.tableSize) (ha : ∀ j < t.tableSize, a' j = a j) :
    Free t' a' free where
  size := hsize ▸ h.size
  list := hhead ▸ h.list.congr hnext
  nodup := h.nodup
  mem_free j := by
    rw [h.mem_free, hsize]
    exact and_congr_right fun hj => by rw [ha j hj]
  count := by rw [hcount, hsize, h.count]

lemma allocate {rest : List Nat} (h : Free t a (i :: rest))
    (hnext : ∀ j ∈ rest, t'.getNextFreeIndex j = t.getNextFreeIndex j)
    (hhead : t'.freeHeadIndex = t.getNextFreeIndex i) (hcount : t'.count = t.count + 1)
    (hsize : t'.tableSize = t.tableSize) (ha : ∀ j, a' j = (a j || decide (j = i))) :
    Free t' a' rest where
  size := hsize ▸ h.size
  list := hhead ▸ h.list.2.congr hnext
  nodup := (nodup_cons.1 h.nodup).2
  mem_free j := by
    have hmem := h.mem_free j
    rw [mem_cons] at hmem
    rw [hsize, ha, Bool.or_eq_false_iff, decide_eq_false_iff_not, ← and_assoc, ← hmem]
    constructor
    · exact fun hj => ⟨.inr hj, fun heq => (nodup_cons.1 h.nodup).1 (heq ▸ hj)⟩
    · exact fun hj => hj.1.resolve_left hj.2
  count := by
    have hold := h.count
    rw [length_cons] at hold
    omega

section
variable (h : Free t a free)
include h

/-- There are fewer free entries than entries when one is allocated. -/
lemma length_lt (hi : i < t.tableSize) (hfree : i ∉ free) : free.length < t.tableSize := by
  have hsub : (i :: free).Subperm (List.range t.tableSize) := by
    refine subperm_of_subset (nodup_cons.2 ⟨hfree, h.nodup⟩) fun j hj => ?_
    rcases mem_cons.1 hj with rfl | hj
    · exact mem_range.2 hi
    · exact mem_range.2 ((h.mem_free j).1 hj).1
  have hle := hsub.length_le
  rw [length_cons, length_range] at hle
  exact hle

lemma head_bounds : -1 ≤ t.freeHeadIndex ∧ t.freeHeadIndex < 1024 := by
  cases free with
  | nil =>
    rw [h.list]
    decide
  | cons i rest =>
    have hlt := ((h.mem_free i).1 mem_cons_self).1
    have hsize := h.size
    rw [h.list.1]
    simp only [maxTableSize] at hsize
    omega

lemma release (hi : i < t.tableSize) (hfree : i ∉ free)
    (ha : ∀ j, a' j = (a j && !decide (j = i))) : Free (t.freeEntry i) a' (i :: free) where
  size := h.size
  list := by
    refine h.list.push hfree ?_ fun j hj => ?_
    · simp only [getNextFreeIndex, freeEntry, update_self]
      exact toInt_ofInt_index h.head_bounds.1 h.head_bounds.2
    · simp [getNextFreeIndex, freeEntry, update_of_ne hj]
  nodup := nodup_cons.2 ⟨hfree, h.nodup⟩
  mem_free j := by
    rw [mem_cons, h.mem_free, ha]
    by_cases hj : j = i
    · subst hj
      simpa [freeEntry] using hi
    · simp [hj, freeEntry]
  count := by
    have hlt := h.length_lt hi hfree
    have hcount := h.count
    have hsize := h.size
    simp only [freeEntry, length_cons, maxTableSize] at *
    omega

end
end Free

lemma Free.exists_cons {a : Nat → Bool} {free : List Nat} (h : Free t a free)
    (hcount : t.count < t.tableSize) : ∃ i rest, free = i :: rest := by
  cases free with
  | nil =>
    have hold := h.count
    simp only [length_nil] at hold
    omega
  | cons i rest => exact ⟨i, rest, rfl⟩

lemma Free.allocateEntry {a : Nat → Bool} {i : Nat} {rest : List Nat} (h : Free t a (i :: rest)) :
    t.allocateEntry = some (i, { t with
      freeHeadIndex := t.getNextFreeIndex i
      count := t.count + 1
      maxCount := max t.maxCount (t.count + 1) }) := by
  have hlt := ((h.mem_free i).1 mem_cons_self).1
  have hsize := h.size
  have hcount := h.count
  simp only [maxTableSize, length_cons] at hsize hcount
  rw [HandleTable.allocateEntry, h.list.1, if_pos (by simp only [maxTableSize]; omega)]
  simp only [Int.toNat_natCast]
  rw [Nat.mod_eq_of_lt (by omega)]

lemma nextLinearId_bounds (h : 1 ≤ t.nextLinearId ∧ t.nextLinearId < 2 ^ 15) :
    1 ≤ t.allocateLinearId.2.nextLinearId ∧ t.allocateLinearId.2.nextLinearId < 2 ^ 15 := by
  have hmax : maxLinearId = 0x7FFF := rfl
  have hmin : minLinearId = 1 := rfl
  simp only [allocateLinearId]
  split <;> omega

/-- An entry and a linear id are taken. -/
def taken (t : HandleTable O) (i : Nat) : HandleTable O :=
  { t with
    freeHeadIndex := t.getNextFreeIndex i
    count := t.count + 1
    maxCount := max t.maxCount (t.count + 1)
    nextLinearId := t.allocateLinearId.2.nextLinearId }

section
variable {a : Nat → Bool} {i : Nat} {rest : List Nat} (h : Free t a (i :: rest))
include h

lemma Free.count_lt : t.count < t.tableSize := by
  have hcount := h.count
  rw [length_cons] at hcount
  omega

lemma reserve_eq : t.reserve = some (t.taken i, .ok (encode i t.nextLinearId)) := by
  rw [reserve, if_pos h.count_lt, h.allocateEntry]
  rfl

/-- The linear id is taken first, which does not touch the entries. -/
lemma add_eq (obj : O) :
    t.add obj = some ((t.taken i).setEntry i t.nextLinearId obj,
      .ok (encode i t.nextLinearId)) := by
  have hfree : t.allocateLinearId.2.Free a (i :: rest) :=
    h.congr (fun _ _ => rfl) rfl rfl rfl fun _ _ => rfl
  rw [add, if_pos h.count_lt]
  simp only [hfree.allocateEntry]
  rfl

end
end HandleTable

namespace Session

open HandleTable hiding add register reserve unreserve remove

variable {O : Type} {s : Session O} {free : List Nat}

/-! ## The invariant -/

/-- Reservations are for different entries without objects, and the returned handles
resolve. -/
structure Invariant (s : Session O) (free : List Nat) : Prop where
  free : s.table.Free s.allocated free
  linear : 1 ≤ s.table.nextLinearId ∧ s.table.nextLinearId < 2 ^ 15
  reservations : ∀ h ∈ s.reservations, h.index < s.table.tableSize ∧
    (h.linearId ≠ 0 ∧ h.reserved = 0) ∧ s.table.objects h.index = none
  distinct : (s.reservations.map index).Nodup
  ids : ∀ i < s.table.tableSize, s.table.objects i ≠ none →
    s.table.getLinearId i ≠ 0 ∧ s.table.getLinearId i < 2 ^ 15
  returned : ∀ h, s.table.getObjectImpl h = s.returned h

variable {i : Nat}

lemma allocated_eq_false :
    s.allocated i = false ↔ s.table.objects i = none ∧ ∀ h ∈ s.reservations, h.index ≠ i := by
  simp [allocated]

lemma init_invariant (h : system.init s) : ∃ free, Invariant s free := by
  obtain ⟨table, reservations, returned⟩ := s
  obtain ⟨⟨t, size, ht⟩, rfl, hreturned⟩ := h
  rw [initializeTable] at ht
  split at ht
  · obtain ⟨n, hn⟩ : ∃ n, n = if size ≤ 0 then maxTableSize else size.toNat := ⟨_, rfl⟩
    have hle : n ≤ maxTableSize := by
      rw [hn]
      split <;> omega
    obtain ⟨objects, infos, heq, hentries⟩ := foldl_initializeEntry
      { t with
        maxCount := 0
        tableSize := n
        nextLinearId := minLinearId
        count := 0
        freeHeadIndex := -1 } n
    simp only [← hn, heq, Except.ok.injEq] at ht
    subst ht
    have hmax : maxTableSize = 1024 := rfl
    refine ⟨(List.range n).reverse, ⟨hle, ?_, nodup_reverse.2 nodup_range, fun i => ?_,
      by simp⟩, ⟨le_refl 1, show 1 < 2 ^ 15 by decide⟩, nofun, nodup_nil,
      fun i hi hne => (hne (hentries i hi).1).elim, fun h => ?_⟩
    · have hhead : (if n = 0 then -1 else (n : Int) - 1) = n - 1 := by
        split <;> omega
      rw [hhead]
      refine FreeList.isList_descending fun i hi => ?_
      exact (congrArg BitVec.toInt (hentries i hi).2).trans
        (toInt_ofInt_index (by omega) (by omega))
    · rw [mem_reverse, mem_range, allocated_eq_false]
      exact ⟨fun hi => ⟨hi, (hentries i hi).1, nofun⟩, And.left⟩
    · rw [hreturned]
      by_cases hlt : h.index < n
      · exact getObjectImpl_of_none (hentries _ hlt).1
      · refine Option.eq_none_iff_forall_not_mem.2 fun obj hobj => ?_
        exact hlt (getObjectImpl_eq_some.1 hobj).2.2.1
  · cases ht

/-! ## Calls -/

/-- An entry and a linear id are taken for a reservation. -/
def withReserved (s : Session O) (i : Nat) : Session O :=
  { s with
    table := s.table.taken i
    reservations := encode i s.table.nextLinearId :: s.reservations }

section
variable (h : Invariant s free)
include h

lemma Invariant.index_lt (hi : i < s.table.tableSize) : i < 2 ^ 15 :=
  lt_of_lt_of_le hi (le_trans h.free.size (by decide))

omit h in
lemma Invariant.withReserved {rest : List Nat} (h : Invariant s (i :: rest)) :
    Invariant (s.withReserved i) rest := by
  obtain ⟨hi, hfree⟩ := (h.free.mem_free i).1 mem_cons_self
  obtain ⟨hnone, hother⟩ := allocated_eq_false.1 hfree
  have hindex : (encode i s.table.nextLinearId).index = i := index_encode (h.index_lt hi)
  refine ⟨h.free.allocate (fun _ _ => rfl) rfl rfl rfl fun j => ?_, nextLinearId_bounds h.linear,
    forall_mem_cons.2 ⟨?_, h.reservations⟩, ?_, h.ids, h.returned⟩
  · simp only [allocated, Session.withReserved, taken, any_cons, hindex, eq_comm]
    rw [Bool.or_comm (decide _), Bool.or_assoc]
  · refine ⟨hindex.symm ▸ hi, ⟨?_, reserved_encode _ _⟩, hindex.symm ▸ hnone⟩
    rw [linearId_encode h.linear.2]
    exact Nat.one_le_iff_ne_zero.1 h.linear.1
  · refine nodup_cons.2 ⟨fun hmem => ?_, h.distinct⟩
    obtain ⟨h', hh', heq⟩ := mem_map.1 hmem
    exact hother h' hh' (heq.trans hindex)

lemma reserve_invariant : ∃ s', s.call .reserve = some s' ∧ ∃ free', Invariant s' free' := by
  by_cases hcount : s.table.count < s.table.tableSize
  · obtain ⟨i, rest, rfl⟩ := h.free.exists_cons hcount
    refine ⟨s.withReserved i, ?_, rest, h.withReserved⟩
    rw [call, reserve_eq h.free]
    rfl
  · refine ⟨s, by
      rw [call, HandleTable.reserve, if_neg hcount]
      rfl, free, h⟩

lemma Invariant.eq_of_index {h₁ h₂ : Handle} (h₁mem : h₁ ∈ s.reservations)
    (h₂mem : h₂ ∈ s.reservations) (heq : h₁.index = h₂.index) : h₁ = h₂ :=
  inj_on_of_nodup_map h.distinct h₁mem h₂mem heq

variable {handle : Handle}

lemma Invariant.mem_erase_iff (hmem : handle ∈ s.reservations) (h' : Handle) :
    h' ∈ s.reservations.erase handle ↔ h' ∈ s.reservations ∧ h'.index ≠ handle.index := by
  rw [(List.Nodup.of_map _ h.distinct).mem_erase_iff, and_comm]
  refine and_congr_right fun hh' => not_congr ⟨fun heq => heq ▸ rfl, h.eq_of_index hh' hmem⟩

lemma Invariant.distinct_erase (handle : Handle) :
    ((s.reservations.erase handle).map index).Nodup :=
  h.distinct.sublist (List.erase_sublist.map _)

lemma Invariant.reserved_not_free (hmem : handle ∈ s.reservations) : handle.index ∉ free := by
  intro hfree
  exact (allocated_eq_false.1 ((h.free.mem_free _).1 hfree).2).2 handle hmem rfl

omit h in
lemma any_index_eq {reservations : List Handle}
    (hmem : ∀ h', h' ∈ reservations ↔ h' ∈ s.reservations ∧ h'.index ≠ i) {j : Nat} (hj : j ≠ i) :
    reservations.any (fun h' => h'.index = j) = s.reservations.any fun h' => h'.index = j := by
  rw [Bool.eq_iff_iff]
  simp only [any_eq_true, hmem, decide_eq_true_eq]
  exact ⟨fun ⟨h', hh', heq⟩ => ⟨h', hh'.1, heq⟩, fun ⟨h', hh', heq⟩ =>
    ⟨h', ⟨hh', fun heq' => hj (heq.symm.trans heq')⟩, heq⟩⟩

lemma register_invariant (hmem : handle ∈ s.reservations) (obj : O) :
    ∃ s', s.call (.register handle obj) = some s' ∧ ∃ free', Invariant s' free' := by
  obtain ⟨hi, ⟨hid, hreserved⟩, hnone⟩ := h.reservations handle hmem
  have hlt : handle.linearId < 2 ^ 15 := Nat.mod_lt _ (by decide)
  refine ⟨_, rfl, free, ?_⟩
  rw [HandleTable.register, if_pos hi]
  refine ⟨h.free.congr (fun j hj => ?_) rfl rfl rfl fun j _ => ?_, h.linear, fun h' hh' => ?_,
    h.distinct_erase handle, fun j hj hne => ?_, fun h' => ?_⟩
  · have hne : j ≠ handle.index := fun heq => h.reserved_not_free hmem (heq ▸ hj)
    simp [getNextFreeIndex, setEntry, update_of_ne hne]
  · by_cases hj : j = handle.index
    · subst hj
      have hallocated : s.allocated handle.index = true := by
        simp only [allocated, Bool.or_eq_true, any_eq_true]
        exact .inr ⟨handle, hmem, by simp⟩
      rw [hallocated]
      simp [allocated, setEntry]
    · simp only [allocated, setEntry, update_of_ne hj, any_index_eq (h.mem_erase_iff hmem) hj]
  · obtain ⟨hh', hne⟩ := (h.mem_erase_iff hmem h').1 hh'
    obtain ⟨hlt, hid, hempty⟩ := h.reservations h' hh'
    refine ⟨hlt, hid, ?_⟩
    simp only [setEntry, update_of_ne hne]
    exact hempty
  · by_cases hj' : j = handle.index
    · subst hj'
      simp only [getLinearId, setEntry, update_self, BitVec.toNat_ofNat]
      omega
    · simp only [setEntry, update_of_ne hj'] at hne
      simp only [getLinearId, setEntry, update_of_ne hj']
      exact h.ids j hj hne
  · simp only [update_apply, ← h.returned]
    rw [getObjectImpl_setEntry h.free.size hi ⟨hid, hlt⟩ hnone, encode_eq hreserved]

/-- An object is added as by a reservation that is registered at once. -/
lemma add_invariant (obj : O) :
    ∃ s', s.call (.add obj) = some s' ∧ ∃ free', Invariant s' free' := by
  by_cases hcount : s.table.count < s.table.tableSize
  · obtain ⟨i, rest, rfl⟩ := h.free.exists_cons hcount
    have hi := ((h.free.mem_free i).1 mem_cons_self).1
    have hi' : i < (s.withReserved i).table.tableSize := hi
    have hcall : s.call (.add obj) =
        (s.withReserved i).call (.register (encode i s.table.nextLinearId) obj) := by
      rw [call, call, add_eq h.free, HandleTable.register, index_encode (h.index_lt hi),
        linearId_encode h.linear.2, if_pos hi', withReserved, erase_cons_head]
      rfl
    rw [hcall]
    exact register_invariant h.withReserved mem_cons_self obj
  · refine ⟨s, by
      rw [call, HandleTable.add, if_neg hcount]
      rfl, free, h⟩

lemma freeEntry_invariant (hi : i < s.table.tableSize) (hfree : i ∉ free)
    {reservations : List Handle}
    (hmem : ∀ h', h' ∈ reservations ↔ h' ∈ s.reservations ∧ h'.index ≠ i)
    (hdistinct : (reservations.map index).Nodup) {returned : Handle → Option O}
    (hreturned : ∀ h', returned h' = if h'.index = i then none else s.returned h') :
    Invariant ⟨s.table.freeEntry i, reservations, returned⟩ (i :: free) := by
  refine ⟨h.free.release hi hfree fun j => ?_, h.linear, fun h' hh' => ?_, hdistinct,
    fun j hj hne => ?_, fun h' => ?_⟩
  · by_cases hj : j = i
    · subst hj
      have hnone : ((⟨s.table.freeEntry j, reservations, returned⟩ : Session O).allocated j) =
          false := by
        refine allocated_eq_false.2 ⟨update_self .., fun h' hh' => ?_⟩
        exact ((hmem h').1 hh').2
      simp [hnone]
    · simp only [allocated, freeEntry, update_of_ne hj, any_index_eq hmem hj, hj, decide_false,
        Bool.not_false, Bool.and_true]
  · obtain ⟨hh', hne⟩ := (hmem h').1 hh'
    obtain ⟨hlt, hid, hempty⟩ := h.reservations h' hh'
    refine ⟨hlt, hid, ?_⟩
    simp only [freeEntry, update_of_ne hne]
    exact hempty
  · by_cases hj' : j = i
    · subst hj'
      exact (hne (update_self ..)).elim
    · simp only [freeEntry, update_of_ne hj'] at hne
      simp only [getLinearId, freeEntry, update_of_ne hj']
      exact h.ids j hj hne
  · rw [getObjectImpl_freeEntry, h.returned]
    exact (hreturned h').symm

lemma unreserve_invariant (hmem : handle ∈ s.reservations) :
    ∃ s', s.call (.unreserve handle) = some s' ∧ ∃ free', Invariant s' free' := by
  obtain ⟨hi, -, hnone⟩ := h.reservations handle hmem
  refine ⟨_, rfl, handle.index :: free, ?_⟩
  rw [HandleTable.unreserve, if_pos hi]
  refine freeEntry_invariant h hi (h.reserved_not_free hmem) (h.mem_erase_iff hmem)
    (h.distinct_erase handle) fun h' => ?_
  split <;> rename_i hindex
  · rw [← h.returned]
    exact getObjectImpl_of_none (hindex ▸ hnone)
  · rfl

lemma remove_invariant (handle : Handle) :
    ∃ s', s.call (.remove handle) = some s' ∧ ∃ free', Invariant s' free' := by
  refine ⟨_, rfl, ?_⟩
  rw [remove_eq]
  cases hobj : s.table.getObjectImpl handle with
  | none =>
    have hreturned : update s.returned handle none = s.returned := by
      rw [← hobj, h.returned, update_eq_self]
    exact ⟨free, hreturned.symm ▸ h⟩
  | some obj =>
    obtain ⟨hreserved, -, hi, hentry, hid⟩ := getObjectImpl_eq_some.1 hobj
    have hnone : ∀ h' ∈ s.reservations, h'.index ≠ handle.index := fun h' hh' heq => by
      have hempty := (h.reservations h' hh').2.2
      rw [heq, hentry] at hempty
      cases hempty
    refine ⟨handle.index :: free, freeEntry_invariant h hi (fun hfree => ?_) (fun h' => ?_)
      h.distinct fun h' => ?_⟩
    · have hempty := (allocated_eq_false.1 ((h.free.mem_free _).1 hfree).2).1
      rw [hentry] at hempty
      cases hempty
    · exact ⟨fun hh' => ⟨hh', hnone h' hh'⟩, And.left⟩
    rw [update_apply]
    by_cases heq : h' = handle
    · rw [if_pos heq, if_pos (heq ▸ rfl)]
    rw [if_neg heq]
    split <;> rename_i hindex
    · -- another handle of the entry has another linear id
      rw [← h.returned]
      refine Option.eq_none_iff_forall_not_mem.2 fun obj' hobj' => ?_
      obtain ⟨hreserved', -, -, -, hid'⟩ := getObjectImpl_eq_some.1 hobj'
      rw [hindex, hid] at hid'
      rw [← encode_eq hreserved', ← encode_eq hreserved, hindex, hid'] at heq
      exact heq rfl
    · rfl

/-- Every allowed call returns and keeps the invariant. -/
lemma call_invariant {c : HandleCall O} (hc : s.Allowed c) :
    ∃ s', s.call c = some s' ∧ ∃ free', Invariant s' free' := by
  cases c with
  | add obj => exact add_invariant h obj
  | reserve => exact reserve_invariant h
  | register handle obj => exact register_invariant h hc obj
  | unreserve handle => exact unreserve_invariant h hc
  | remove handle => exact remove_invariant h handle

end

lemma reachable_invariant (h : system.Reachable s) : ∃ free, Invariant s free := by
  refine h.invariant (P := fun s => ∃ free, Invariant s free) (fun s hs => init_invariant hs) ?_
  rintro s s' - ⟨free, hs⟩ ⟨c, hc, hcall⟩
  obtain ⟨s₁, hcall', hinvariant⟩ := call_invariant hs hc
  obtain rfl : s₁ = s' := Option.some.inj (hcall'.symm.trans hcall)
  exact hinvariant

/-! ## Integrity -/

/-- The entries that are allocated are those outside of the free list. -/
lemma Invariant.count_eq (h : Invariant s free) :
    s.table.count = (List.range s.table.tableSize).countP s.allocated := by
  have hperm : free.Perm ((List.range s.table.tableSize).filter fun i => ¬ s.allocated i) := by
    refine (perm_ext_iff_of_nodup h.free.nodup (List.nodup_range.filter _)).2 fun i => ?_
    rw [h.free.mem_free, mem_filter, mem_range]
    simp
  have hlength := hperm.length_eq
  rw [← countP_eq_length_filter] at hlength
  have htotal := length_eq_countP_add_countP s.allocated (l := List.range s.table.tableSize)
  have hcount := h.free.count
  rw [length_range] at htotal
  omega

lemma mem_objectHandles (h : handle ∈ (s.table.getObjectByIndexImpl i).map Prod.fst) :
    i < s.table.tableSize ∧ s.table.objects i ≠ none ∧
      handle = encode i (s.table.getLinearId i) := by
  rw [getObjectByIndexImpl] at h
  split at h <;> rename_i hsize
  · cases h
  cases hobj : s.table.objects i with
  | none =>
    rw [hobj] at h
    cases h
  | some obj =>
    rw [hobj] at h
    exact ⟨lt_of_not_ge hsize, nofun, (Option.some.inj h).symm⟩

section
variable (h : Invariant s free)
include h

lemma Invariant.index_of_mem (hmem : handle ∈ (s.table.getObjectByIndexImpl i).map Prod.fst) :
    handle.index = i := by
  obtain ⟨hi, -, rfl⟩ := mem_objectHandles hmem
  exact index_encode (h.index_lt hi)

lemma Invariant.liveHandles_nodup : s.liveHandles.Nodup := by
  refine nodup_append'.2 ⟨List.Nodup.of_map _ h.distinct, ?_, fun handle hmem hmem' => ?_⟩
  · refine List.Nodup.filterMap (fun i j handle hi hj => ?_) nodup_range
    exact (h.index_of_mem hi).symm.trans (h.index_of_mem hj)
  · obtain ⟨i, -, hi⟩ := mem_filterMap.1 hmem'
    have hindex := h.index_of_mem hi
    exact (mem_objectHandles hi).2.1 (hindex ▸ (h.reservations handle hmem).2.2)

lemma Invariant.liveHandles_ne_zero : ∀ handle ∈ s.liveHandles, handle ≠ 0#32 := by
  intro handle hmem
  refine ne_zero_of_linearId ?_
  rcases mem_append.1 hmem with hmem | hmem
  · exact (h.reservations handle hmem).2.1.1
  obtain ⟨i, -, hi⟩ := mem_filterMap.1 hmem
  obtain ⟨hlt, hobj, rfl⟩ := mem_objectHandles hi
  obtain ⟨hid, hlt⟩ := h.ids i hlt hobj
  rw [linearId_encode hlt]
  exact hid

end

/-- In every run the free list has no cycle and holds exactly the entries that are not
allocated, the count is that of the allocated entries, the live handles are distinct and not
zero, and a handle resolves to the object that it was returned for until it is removed.  Every
allowed call returns. -/
theorem reachable_integrity (hs : system.Reachable s) :
    (∃ free, FreeList.IsList s.table.getNextFreeIndex s.table.freeHeadIndex free ∧ free.Nodup ∧
        ∀ i, i ∈ free ↔ i < s.table.tableSize ∧ s.allocated i = false) ∧
      s.table.count = (List.range s.table.tableSize).countP s.allocated ∧
      s.liveHandles.Nodup ∧ (∀ handle ∈ s.liveHandles, handle ≠ 0#32) ∧
      (∀ handle, s.table.getObjectImpl handle = s.returned handle) ∧
      ∀ c, s.Allowed c → ∃ s', s.call c = some s' := by
  obtain ⟨free, h⟩ := reachable_invariant hs
  refine ⟨⟨free, h.free.list, h.free.nodup, h.free.mem_free⟩, h.count_eq, h.liveHandles_nodup,
    h.liveHandles_ne_zero, h.returned, fun c hc => ?_⟩
  obtain ⟨s', hcall, -⟩ := call_invariant h hc
  exact ⟨s', hcall⟩

/-- A new table of two entries. -/
def small : Session Nat where
  table := (List.range 2).foldl initializeEntry ⟨fun _ => 0#16, fun _ => none, -1, 2, 0, 1, 0⟩
  reservations := []
  returned _ := none

/-- After an object was added, its handle resolves to it. -/
theorem reachable_integrity_add :
    ∃ s', small.call (.add 7) = some s' ∧ s'.returned (encode 1 1) = some 7 ∧
      s'.table.getObjectImpl (encode 1 1) = s'.returned (encode 1 1) :=
  ⟨_, rfl, rfl, (reachable_integrity (.next (s := small)
    (.start ⟨⟨⟨fun _ => 0#16, fun _ => none, 0, 0, 0, 0, 0⟩, 2, rfl⟩, rfl, fun _ => rfl⟩)
    ⟨.add 7, trivial, rfl⟩)).2.2.2.2.1 _⟩

end Session
end Drippu.Kernel
