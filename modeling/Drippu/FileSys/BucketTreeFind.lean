import Drippu.FileSys.BucketTreeImage
import Drippu.Library.Transition

/-!
# File system - Lookup in bucket trees

In a well formed tree a lookup finds the entry with the greatest virtual offset not above the
address, and the moves visit the entries around it.  The number of entry sets is computed in 32
bits; where that overflows, the tree cannot be opened.

Main results:

- Theorem `lookups_iff`: lookups in a well formed tree are right exactly as long as the
  number of entries can be rounded up to whole entry sets.
-/

namespace Drippu.FileSys.BucketTree

open Library
open Image (WellFormed)
open Image Int
open Nat hiding count lt_iff_add_one_le
open Buffer hiding count

variable {m : Image} {t : BucketTree}

/-! ## Visitors on an entry -/

/-- The visitor is on an entry. -/
structure At (m : Image) (v : Visitor) (k i : Nat) : Prop where
  entryIndex : v.entryIndex = i
  entrySetCount : v.entrySetCount = m.setCount
  entrySet : Buffer.Agree entrySetHeaderSize v.entrySet (m.set k)
  entry : ∀ b, b < m.entrySize → v.entry b = m.set k (nodeHeaderSize + i * m.entrySize + b)
  set_lt : k < m.setCount
  index_lt : i < m.count k

variable {i : Nat} {va : Int} {k : Nat}

lemma At.get (hl : Loaded m t) {v : Visitor} (hat : At m v k i) : v.get t = m.entryBytes k i := by
  rw [Visitor.get, hl.entrySize, entryBytes]
  exact List.map_congr_left fun b hb => hat.entry b (List.mem_range.mp hb)

section
variable (h : m.WellFormed)
include h

lemma findEntry_at (hl : Loaded m t) (v : Visitor) (hk : k < m.setCount) (hlow : m.start k ≤ va) :
    ∃ i v', v.findEntry t va k = (.ok (), v') ∧ i < m.count k ∧ m.offset k i ≤ va ∧
      (i + 1 < m.count k → va < m.offset k (i + 1)) ∧
      At m { v' with entrySetCount := m.setCount } k i := by
  have hsize := h.nodeSize_ge
  obtain ⟨-, hcount, hpos, -⟩ := h.set_spec hk
  have hbuffer := agree_set h hk (le_refl m.nodeSize) .zeros
  have hentry := h.entrySize_le
  rw [start_eq] at hlow
  obtain ⟨i, hi, hfind, hle, hgt⟩ := storageNodeFind_spec (g := m.offset k)
    ((hbuffer.count (by omega)).trans hcount)
    (fun i hi => hbuffer.s64At (by have := h.entry_inside (b := 7) hk hi (by omega); omega))
    (fun i i' hii hi' => h.offset_le hk hii hi') hpos hlow
  refine ⟨i, { v with
    entry := v.entry.copyFrom (m.entryStorage.read .zeros m.nodeSize (k * m.nodeSize))
      m.entrySize (nodeHeaderSize + i * m.entrySize)
    entrySet := v.entrySet.copyFrom (m.entryStorage.read .zeros m.nodeSize (k * m.nodeSize))
      entrySetHeaderSize 0
    entryIndex := i }, ?_, hi, hle, hgt, ?_⟩
  · rw [Visitor.findEntry, hl.entryStorage, hl.nodeSize, hl.entrySize,
      verifyNode_congr hbuffer (by omega), h.set_verified k hk]
    simp only [hfind]
    rw [if_neg (by omega), toNat_natCast]
  · exact {
      entryIndex := rfl
      entrySetCount := rfl
      entrySet := fun p hp => by
        refine (copyFrom_of_lt hp).trans ?_
        rw [zero_add]
        exact hbuffer p (hp.trans_le hsize)
      entry := fun b hb => (copyFrom_of_lt hb).trans (hbuffer _ (h.entry_inside hk hi hb))
      set_lt := hk
      index_lt := hi }

/-! ## Moves -/

/-- Reading an entry of the entry set that the visitor has the header of. -/
lemma at_readEntry (hl : Loaded m t) {v : Visitor}
    (hset : Buffer.Agree entrySetHeaderSize v.entrySet (m.set k))
    (hcount : v.entrySetCount = m.setCount) (hk : k < m.setCount) (hi : i < m.count k) :
    At m (v.readEntry t i) k i where
  entryIndex := rfl
  entrySetCount := hcount
  entrySet := hset
  entry := fun b hb => by
    have hindex : v.entrySet.index.toNat = k := by
      rw [hset.index (by decide), (h.set_spec hk).1, toNat_natCast]
    have hinside := h.entry_inside hk hi hb
    have hstored := h.set_stored hk hinside
    simp only [Visitor.readEntry, hl.entryStorage, hl.entrySize, hl.nodeSize, hindex]
    rw [VirtualFile.read_of_lt hb (by omega)]
    exact congrArg m.entryStorage.byte (by omega)
  set_lt := hk
  index_lt := hi

lemma agree_readEntrySet (hl : Loaded m t) (v : Visitor) (hk : k < m.setCount) :
    Buffer.Agree entrySetHeaderSize (v.readEntrySet t k).entrySet (m.set k) := by
  have hagree := agree_set h hk h.nodeSize_ge v.entrySet
  rw [← hl.entryStorage, ← hl.nodeSize] at hagree
  exact hagree

end

namespace At

variable {v : Visitor} {k i : Nat}

lemma isValid (hat : At m v k i) : v.isValid = true := by
  rw [Visitor.isValid, hat.entryIndex, decide_eq_true_iff]
  omega

variable (h : m.WellFormed)
include h

lemma index_eq (hat : At m v k i) : v.entrySet.index = k := by
  rw [hat.entrySet.index (by decide), (h.set_spec hat.set_lt).1]

lemma count_eq (hat : At m v k i) : v.entrySet.count = m.count k := by
  rw [hat.entrySet.count (by decide), (h.set_spec hat.set_lt).2.1]

lemma moveNext_inside (hl : Loaded m t) (hat : At m v k i) (hi : i + 1 < m.count k) :
    ∃ v', v.moveNext t = (.ok (), v') ∧ At m v' k (i + 1) := by
  have hindex : (v.entryIndex + 1).toNat = i + 1 := by
    rw [hat.entryIndex]
    omega
  refine ⟨v.readEntry t (i + 1), ?_, at_readEntry h hl hat.entrySet hat.entrySetCount hat.set_lt hi⟩
  rw [Visitor.moveNext, if_neg (not_not.mpr hat.isValid), if_neg, hindex]
  rw [hat.count_eq h, hat.entryIndex]
  omega

lemma moveNext_across (hl : Loaded m t) (hat : At m v k i)
    (hi : i + 1 = m.count k) (hk : k + 1 < m.setCount) :
    ∃ v', v.moveNext t = (.ok (), v') ∧ At m v' (k + 1) 0 := by
  have hset := agree_readEntrySet h hl v hk
  have hindex : v.entrySet.index + 1 = ((k + 1 : Nat) : Int) := by
    rw [hat.index_eq h]
    rfl
  refine ⟨(v.readEntrySet t (k + 1)).readEntry t 0, ?_,
    at_readEntry h hl hset hat.entrySetCount hk (h.set_spec hk).2.2.1⟩
  rw [Visitor.moveNext, if_neg (not_not.mpr hat.isValid), if_pos]
  · simp only [hindex, toNat_natCast, hat.entrySetCount, hl.nodeSize, hl.entrySize]
    rw [if_neg (by omega), verifyNode_congr hset (by decide), h.set_verified _ hk]
    rw [if_neg]
    rw [not_not, hset.beginOffset (by decide), hset.endOffset (by decide),
      hat.entrySet.endOffset (by decide)]
    exact ⟨(h.chain k hk).symm, h.start_lt_finish hk⟩
  · rw [hat.count_eq h, hat.entryIndex]
    omega

lemma moveNext_last (hat : At m v k i) (hi : i + 1 = m.count k)
    (hk : k + 1 = m.setCount) : ∃ v', v.moveNext t = (.error .outOfRange, v') := by
  refine ⟨v, ?_⟩
  rw [Visitor.moveNext, if_neg (not_not.mpr hat.isValid), if_pos]
  · simp only [hat.index_eq h, hat.entrySetCount]
    rw [if_pos (by omega)]
  · rw [hat.count_eq h, hat.entryIndex]
    omega

lemma movePrevious_inside (hl : Loaded m t) (hat : At m v k (i + 1)) :
    ∃ v', v.movePrevious t = (.ok (), v') ∧ At m v' k i := by
  have hindex : (v.entryIndex - 1).toNat = i := by
    rw [hat.entryIndex]
    omega
  have hi := hat.index_lt
  refine ⟨v.readEntry t i, ?_,
    at_readEntry h hl hat.entrySet hat.entrySetCount hat.set_lt (by omega)⟩
  rw [Visitor.movePrevious, if_neg (not_not.mpr hat.isValid), if_neg, hindex]
  rw [hat.entryIndex]
  omega

lemma movePrevious_across (hl : Loaded m t) (hat : At m v (k + 1) 0) :
    ∃ v', v.movePrevious t = (.ok (), v') ∧ At m v' k (m.count k - 1) := by
  have hk := hat.set_lt
  have hk' : k < m.setCount := by omega
  obtain ⟨-, hcount, hpos, -⟩ := h.set_spec hk'
  have hset := agree_readEntrySet h hl v hk'
  have hindex : v.entrySet.index - 1 = (k : Int) := by
    rw [hat.index_eq h]
    omega
  have hlast : ((v.readEntrySet t k).entrySet.count - 1).toNat = m.count k - 1 := by
    rw [hset.count (by decide), hcount]
    omega
  refine ⟨(v.readEntrySet t k).readEntry t (m.count k - 1), ?_,
    at_readEntry h hl hset hat.entrySetCount hk' (by omega)⟩
  rw [Visitor.movePrevious, if_neg (not_not.mpr hat.isValid),
    if_pos (show v.entryIndex = 0 from hat.entryIndex), if_neg]
  · simp only [hindex, toNat_natCast, hl.nodeSize, hl.entrySize]
    rw [verifyNode_congr hset (by decide), h.set_verified _ hk']
    rw [if_neg, hlast]
    rw [not_not, hset.beginOffset (by decide), hset.endOffset (by decide),
      hat.entrySet.beginOffset (by decide)]
    exact ⟨h.chain k hk, h.start_lt_finish hk'⟩
  · omega

lemma movePrevious_first (hat : At m v 0 0) :
    ∃ v', v.movePrevious t = (.error .outOfRange, v') := by
  refine ⟨v, ?_⟩
  rw [Visitor.movePrevious, if_neg (not_not.mpr hat.isValid),
    if_pos (show v.entryIndex = 0 from hat.entryIndex), if_pos]
  rw [hat.index_eq h]
  decide

/-- Moving forward visits the entries behind the one the visitor is on, and then fails. -/
lemma visits_next (hl : Loaded m t) (hat : At m v k i) :
    Visits (Visitor.moveNext t) (Visitor.get t) v
      ((placesAfter m.setCount m.count k i).map fun p => m.entryBytes p.1 p.2) .outOfRange :=
  visits_after (fun _ hk => (h.set_spec hk).2.2.1) (fun _ _ _ hat => hat.get hl)
    (fun _ _ _ hat _ hi => hat.moveNext_inside h hl hi)
    (fun _ _ _ hat hi hk => hat.moveNext_across h hl hi hk)
    (fun _ _ _ hat hi hk => hat.moveNext_last h hi hk) hat hat.set_lt hat.index_lt

lemma visits_previous (hl : Loaded m t) (hat : At m v k i) :
    Visits (Visitor.movePrevious t) (Visitor.get t) v
      ((placesBefore m.count k i).reverse.map fun p => m.entryBytes p.1 p.2) .outOfRange :=
  visits_before (fun _ hk => (h.set_spec hk).2.2.1) (fun _ _ _ hat => hat.get hl)
    (fun _ _ _ hat _ => hat.movePrevious_inside h hl)
    (fun _ _ hat _ => hat.movePrevious_across h hl)
    (fun _ hat => hat.movePrevious_first h) hat hat.set_lt

end At

/-! ## Lookups -/

namespace Image

/-- What `Initialize` makes of a stored tree. -/
def openTree (m : Image) (fresh : Buffer) : Except Error BucketTree :=
  initializeTree fresh m.nodeStorage m.entryStorage m.nodeSize m.entrySize m.header.entryCount

/-- An opened tree, its lookups and the invalidation of its cache. -/
def system (m : Image) (fresh : Buffer) : TransitionSystem BucketTree where
  init t := m.openTree fresh = .ok t
  step t t' := t' = t.invalidateCache ∨ ∃ v va, t' = (t.find v va).2.1

/-- The lookup of an address succeeds on the entry with the greatest virtual offset that is not
above it, and the moves from there visit the entries behind it and before it and fail at the
ends. -/
def Lookup (m : Image) (t : BucketTree) (v : Visitor) (va : Int) : Prop :=
  ∃ t' v' before after, t.find v va = (.ok (), t', v') ∧
    m.entries = before ++ v'.get t' :: after ∧
    virtualOffset (v'.get t') ≤ va ∧
    (∀ e ∈ m.entries, virtualOffset e ≤ va → virtualOffset e ≤ virtualOffset (v'.get t')) ∧
    Visits (Visitor.moveNext t') (Visitor.get t') v' after .outOfRange ∧
    Visits (Visitor.movePrevious t') (Visitor.get t') v' before.reverse .outOfRange

end Image

section
variable (h : m.WellFormed)
include h

/-- All entries with an offset not above the address are at or before the one found. -/
lemma offset_le_found {k' i' : Nat} (hk : k < m.setCount) (hi : i < m.count k)
    (hhigh : va < m.finish k) (hgt : i + 1 < m.count k → va < m.offset k (i + 1))
    (hk' : k' < m.setCount) (hi' : i' < m.count k') (hle : m.offset k' i' ≤ va) :
    m.offset k' i' ≤ m.offset k i := by
  obtain hlt | rfl | hlt := lt_trichotomy k' k
  · calc m.offset k' i'
      _ ≤ m.finish k' := (h.offset_lt_finish hk' hi').le
      _ ≤ m.start k := h.finish_le_start hlt hk
      _ ≤ m.offset k i := h.start_le_offset hk hi
  · by_cases hii : i' ≤ i
    · exact h.offset_le hk hii hi
    · have hnext := h.offset_le hk (show i + 1 ≤ i' by omega) hi'
      exact absurd (hgt (by omega)) (not_lt.mpr (hnext.trans hle))
  · have hnext := (h.finish_le_start hlt hk').trans (h.start_le_offset hk' hi')
    exact absurd hhigh (not_lt.mpr (hnext.trans hle))

lemma Loaded.ensureOffsetCache (hl : Loaded m t) :
    ∃ t', t.ensureOffsetCache = (.ok (), t') ∧ Loaded m t' := by
  unfold BucketTree.ensureOffsetCache
  cases t.offsetCache with
  | some offsets => exact ⟨t, rfl, hl⟩
  | none =>
    have hsize := h.nodeSize_ge
    have hl1 := agree_l1 h t.nodeL1
    simp only [hl.nodeStorage, hl.nodeSize, hl.offsetCount, hl.entrySetCount]
    rw [verifyNode_congr hl1 (by omega), h.l1_verified, loadOffsets_eq h hl1]
    exact ⟨_, rfl, ⟨rfl, hl.entryStorage, rfl, hl.entrySize, rfl, rfl, hl1⟩⟩

lemma Loaded.find (hl : Loaded m t) (v : Visitor) (va : Int) : Loaded m (t.find v va).2.1 := by
  obtain ⟨t', hcache, hl'⟩ := hl.ensureOffsetCache h
  unfold BucketTree.find
  rw [hcache]
  split_ifs
  · exact hl
  · exact hl'
  · exact hl

lemma Loaded.lookup (hl : Loaded m t) (hbound : m.setCount < 2 ^ 31) (v : Visitor)
    (hlow : m.start 0 ≤ va) (hend : va < m.finish (m.setCount - 1)) : m.Lookup t v va := by
  have hentry := h.entrySize_le
  obtain ⟨t', hcache, hl'⟩ := hl.ensureOffsetCache h
  obtain ⟨k, hk, hset, hstart, hfinish⟩ := hl'.findEntrySetIndex_spec h hbound hlow hend
  obtain ⟨i, v', hfound, hi, hle, hgt, hat⟩ := findEntry_at h hl' v hk hstart
  have hget := hat.get hl'
  have hoffset := virtualOffset_entryBytes hentry
  refine ⟨t', { v' with entrySetCount := m.setCount },
    (placesBefore m.count k i).map fun p => m.entryBytes p.1 p.2,
    (placesAfter m.setCount m.count k i).map fun p => m.entryBytes p.1 p.2, ?_, ?_, ?_, ?_, ?_, ?_⟩
  · have hfind : v.find t' va = (.ok (), { v' with entrySetCount := m.setCount }) := by
      have hin : va < t'.nodeL1.endOffset := by
        rw [hl'.nodeL1.endOffset (by have := h.nodeSize_ge; omega), h.l1_end]
        exact hend
      rw [Visitor.find, if_neg (not_not.mpr hin), hset, hl'.entrySetCount]
      simp only [toNat_natCast, hfound]
      rw [if_neg (not_not.mpr ⟨by omega, by omega⟩)]
    have hempty : ¬ t.isEmpty = true := by
      rw [BucketTree.isEmpty, hl.entrySize, decide_eq_true_iff]
      omega
    have hnonneg := h.start_nonneg
    rw [BucketTree.find, if_neg (by omega), if_neg hempty, hcache]
    simp [hfind]
  · rw [entries, places_eq hk hi, List.map_append, List.map_cons, hget]
  · rw [hget, hoffset]
    exact hle
  · intro e he hbelow
    obtain ⟨⟨k', i'⟩, hmem, rfl⟩ := List.mem_map.mp he
    obtain ⟨hk', hi'⟩ := mem_places.mp hmem
    rw [hoffset] at hbelow
    rw [hget, hoffset, hoffset]
    exact offset_le_found h hk hi hfinish hgt hk' hi' hbelow
  · exact hat.visits_next h hl'
  · rw [← List.map_reverse]
    exact hat.visits_previous h hl'

end

/-! ## Opening a tree -/

section
variable (h : m.WellFormed)
include h

lemma getEntrySetCount_eq :
    getEntrySetCount m.nodeSize m.entrySize m.header.entryCount =
      if m.header.entryCount + (m.entriesPerSet - 1) < 2 ^ 31 then .ok (m.setCount : Int)
      else .error .signedOverflow := by
  have hpos := h.entryCount_pos
  have hsize := h.nodeSize_le
  have hper := h.entriesPerSet_pos
  have hsmall : m.entriesPerSet < 2 ^ 31 := by
    have := div_le_self (m.nodeSize - nodeHeaderSize) m.entrySize
    rw [entriesPerSet]
    rw [nodeSizeMax] at hsize
    omega
  have hcount : getEntryCount m.nodeSize m.entrySize = m.entriesPerSet := toS32_eq hsmall
  rw [getEntrySetCount, hcount, divideUp, s32]
  by_cases hlt : m.header.entryCount + (m.entriesPerSet - 1) < 2 ^ 31
  · have hsum : m.header.entryCount + ((m.entriesPerSet : Int) - 1) =
        ((m.header.entryCount.toNat + (m.entriesPerSet - 1) : Nat) : Int) := by omega
    rw [if_pos ⟨by omega, hlt⟩, if_pos hlt, hsum]
    rfl
  · rw [if_neg fun hcond => hlt hcond.2, if_neg hlt]
    rfl

/-- A well formed tree is opened unless its number of entries cannot be rounded up. -/
lemma openTree_eq (fresh : Buffer) :
    m.openTree fresh =
      if m.header.entryCount + (m.entriesPerSet - 1) < 2 ^ 31 then
        .ok { nodeStorage := m.nodeStorage, entryStorage := m.entryStorage,
              nodeL1 := m.nodeStorage.read fresh m.nodeSize 0, nodeSize := m.nodeSize,
              entrySize := m.entrySize, entryCount := m.header.entryCount,
              offsetCount := m.offsetsPerNode, entrySetCount := m.setCount,
              offsetCache := some ⟨m.start 0, m.finish (m.setCount - 1)⟩ }
      else .error .signedOverflow := by
  have hsize := h.nodeSize_ge
  have hmax := h.nodeSize_le
  have hl1 := agree_l1 h fresh
  have hoffsets : getOffsetCount m.nodeSize = m.offsetsPerNode := by
    refine toS32_eq ?_
    rw [nodeSizeMax] at hmax
    omega
  rw [openTree, initializeTree, if_neg (not_not.mpr h.entryCount_pos)]
  simp only [verifyNode_congr hl1 (show 16 ≤ m.nodeSize by omega), h.l1_verified,
    getEntrySetCount_eq h, hoffsets]
  split_ifs with hlt
  · simp only [bind, Except.bind, loadOffsets_eq h hl1]
    rfl
  · rfl

lemma loaded_of_openTree {fresh : Buffer} (hopen : m.openTree fresh = .ok t) :
    Loaded m t ∧ m.header.entryCount + (m.entriesPerSet - 1) < 2 ^ 31 := by
  rw [openTree_eq h] at hopen
  split_ifs at hopen with hlt
  cases hopen
  exact ⟨⟨rfl, rfl, rfl, rfl, rfl, rfl, agree_l1 h fresh⟩, hlt⟩

lemma loaded_of_reachable {fresh : Buffer}
    (hreach : (m.system fresh).Reachable t) : Loaded m t := by
  refine hreach.invariant (P := Loaded m) (fun t hopen => (loaded_of_openTree h hopen).1) ?_
  rintro t t' - hl (rfl | ⟨v, va, rfl⟩)
  · exact ⟨hl.nodeStorage, hl.entryStorage, hl.nodeSize, hl.entrySize, hl.offsetCount,
      hl.entrySetCount, hl.nodeL1⟩
  · exact hl.find h v va

lemma setCount_lt (hlt : m.header.entryCount + (m.entriesPerSet - 1) < 2 ^ 31) :
    m.setCount < 2 ^ 31 := by
  have hpos := h.entryCount_pos
  have hper := h.entriesPerSet_pos
  have hdiv := div_le_self (m.header.entryCount.toNat + (m.entriesPerSet - 1)) m.entriesPerSet
  rw [setCount]
  omega

end

/-- Lookups in a well formed tree are right, for every address in its range, in every state of
the opened tree and with any visitor, exactly if the number of entries can be rounded up to whole
entry sets in 32 bits. -/
theorem lookups_iff (h : m.WellFormed) (fresh : Buffer) :
    ((∃ t, m.openTree fresh = .ok t) ∧ ∀ t, (m.system fresh).Reachable t → ∀ v va,
      m.start 0 ≤ va → va < m.finish (m.setCount - 1) → m.Lookup t v va) ↔
    m.header.entryCount + (m.entriesPerSet - 1) < 2 ^ 31 := by
  constructor
  · rintro ⟨⟨t, hopen⟩, -⟩
    exact (loaded_of_openTree h hopen).2
  · intro hlt
    refine ⟨⟨_, (openTree_eq h fresh).trans (if_pos hlt)⟩, fun t hreach v va hlow hend => ?_⟩
    exact (loaded_of_reachable h hreach).lookup h (setCount_lt h hlt) v hlow hend

/-! ## A family of stored trees -/

/-- A file of words of eight bytes. -/
def wordFile (size : Nat) (word : Nat → Nat) : VirtualFile where
  size := size
  byte p := UInt8.ofNat (word (p / 8) / 256 ^ (p % 8))

lemma leNat_wordFile {size : Nat} {word : Nat → Nat} (w : Nat) {len r : Nat} (h : r + len ≤ 8) :
    (wordFile size word).byte.leNat len (8 * w + r) = word w / 256 ^ r % 256 ^ len := by
  induction len generalizing r with
  | zero => rw [leNat, pow_zero, mod_one]
  | succ len ih =>
    have hbyte : ((wordFile size word).byte (8 * w + r)).toNat = word w / 256 ^ r % 256 := by
      have hdiv : (8 * w + r) / 8 = w := by omega
      have hmod : (8 * w + r) % 8 = r := by omega
      simp only [wordFile, hdiv, hmod]
      exact UInt8.toNat_ofNat'
    rw [leNat, hbyte, add_assoc, ih (by omega), pow_succ, ← Nat.div_div_eq_div_mul,
      pow_succ' 256 len, mod_mul]

section

/-- The number of entries in set `k` if `n` entries fill sets of `P` entries. -/
def sampleCount (P n k : Nat) : Nat := min P (n - P * k)

/-- Word `r` of set `k`: entry `i` of the tree has virtual offset `i`. -/
def sampleSetWord (P n k r : Nat) : Nat :=
  if r = 0 then k + 2 ^ 32 * sampleCount P n k
  else if r = 1 then P * k + sampleCount P n k
  else P * k + (r - 2)

def sampleSets (P n : Nat) : Nat := (n + (P - 1)) / P

def sampleNodeWord (P n r : Nat) : Nat :=
  if r = 0 then 2 ^ 32 * sampleSets P n else if r = 1 then n else P * (r - 2)

/-- A tree of `n` entries of eight bytes, `P` in a set, with one level of nodes. -/
def sampleImage (P n : Nat) : Image where
  header := ⟨magic, version, n⟩
  nodeStorage := wordFile (8 * (P + 2)) (sampleNodeWord P n)
  entryStorage := wordFile (sampleSets P n * (8 * (P + 2)))
    fun w => sampleSetWord P n (w / (P + 2)) (w % (P + 2))
  nodeSize := 8 * (P + 2)
  entrySize := 8

variable {P n : Nat}

lemma lt_sampleSets (hP : 0 < P) (k : Nat) : k < sampleSets P n ↔ P * k < n := by
  rw [sampleSets, Nat.lt_iff_add_one_le, le_div_iff_mul_le hP, add_mul, mul_comm k P]
  omega

/-- The first `R` words of a buffer. -/
def HoldsWords (b : Buffer) (R : Nat) (word : Nat → Nat) : Prop :=
  ∀ r len o, r < R → o + len ≤ 8 → b.leNat len (8 * r + o) = word r / 256 ^ o % 256 ^ len

namespace HoldsWords

variable {b : Buffer} {R : Nat} {word : Nat → Nat} (h : HoldsWords b R word)
include h

lemma s64At {r : Nat} (hr : r < R) (hlt : word r < 2 ^ 63) : b.s64At (8 * r) = word r := by
  have hword := h r 8 0 hr (by decide)
  rw [pow_zero, Nat.div_one, add_zero, Nat.mod_eq_of_lt (by omega)] at hword
  rw [Buffer.s64At, hword, BitVec.toInt_ofNat', bmod_eq_of_le]
  · omega
  · omega

lemma index {low high : Nat} (hR : 0 < R) (hword : word 0 = low + 2 ^ 32 * high)
    (hlow : low < 2 ^ 31) : b.index = low := by
  have hbytes := h 0 4 0 hR (by decide)
  rw [hword, pow_zero, Nat.div_one] at hbytes
  have hlow' : (low + 2 ^ 32 * high) % 256 ^ 4 = low := by omega
  rw [hlow'] at hbytes
  rw [Buffer.index, Buffer.s32At, hbytes]
  exact toS32_eq hlow

lemma count {low high : Nat} (hR : 0 < R) (hword : word 0 = low + 2 ^ 32 * high)
    (hlow : low < 2 ^ 31) (hhigh : high < 2 ^ 31) : b.count = high := by
  have hbytes := h 0 4 4 hR (by decide)
  rw [hword] at hbytes
  have hhigh' : (low + 2 ^ 32 * high) / 256 ^ 4 % 256 ^ 4 = high := by omega
  rw [hhigh'] at hbytes
  rw [Buffer.count, Buffer.s32At, hbytes]
  exact toS32_eq hhigh

end HoldsWords

lemma set_holdsWords (k : Nat) :
    HoldsWords ((sampleImage P n).set k) (P + 2) (sampleSetWord P n k) := by
  intro r len o hr ho
  have hshift : ((sampleImage P n).set k).leNat len (8 * r + o) =
      (sampleImage P n).entryStorage.byte.leNat len (8 * (k * (P + 2) + r) + o) := by
    refine leNat_congr fun i _ => congrArg (sampleImage P n).entryStorage.byte ?_
    change k * (8 * (P + 2)) + (8 * r + o + i) = _
    ring
  have hdiv : (k * (P + 2) + r) / (P + 2) = k := by
    rw [mul_comm, mul_add_div (by omega), div_eq_of_lt hr, add_zero]
  have hmod : (k * (P + 2) + r) % (P + 2) = r := by
    rw [mul_comm, mul_add_mod, Nat.mod_eq_of_lt hr]
  rw [hshift]
  refine (leNat_wordFile _ ho).trans ?_
  rw [hdiv, hmod]

lemma node_holdsWords : HoldsWords ((sampleImage P n).node 0) (P + 2) (sampleNodeWord P n) := by
  intro r len o hr ho
  have hshift : ((sampleImage P n).node 0).leNat len (8 * r + o) =
      (sampleImage P n).nodeStorage.byte.leNat len (8 * r + o) := by
    refine leNat_congr fun i _ => congrArg (sampleImage P n).nodeStorage.byte ?_
    rw [zero_mul, zero_add]
  rw [hshift]
  exact leNat_wordFile r ho

section
variable (hP : 0 < P) (hPmax : P ≤ 65534) (hn : n < 2 ^ 31)

lemma sample_entriesPerSet : (sampleImage P n).entriesPerSet = P := by
  change (8 * (P + 2) - 16) / 8 = P
  omega

lemma sample_setCount : (sampleImage P n).setCount = sampleSets P n := by
  rw [setCount, sample_entriesPerSet]
  rfl

include hP hPmax hn

lemma sample_sets (hk : k < sampleSets P n) :
    ((sampleImage P n).set k).index = k ∧
      ((sampleImage P n).set k).count = sampleCount P n k ∧
      (sampleImage P n).count k = sampleCount P n k ∧
      (sampleImage P n).finish k = (P * k + sampleCount P n k : Nat) ∧
      (∀ i, i < P → (sampleImage P n).offset k i = (P * k + i : Nat)) ∧
      (sampleImage P n).start k = (P * k : Nat) := by
  have hlt := (lt_sampleSets hP k).mp hk
  have hle : k ≤ P * k := Nat.le_mul_of_pos_left k hP
  have hcount : sampleCount P n k ≤ P := min_le_left _ _
  have hwords := set_holdsWords (P := P) (n := n) k
  have hset := hwords.count (by omega) rfl (show k < 2 ^ 31 by omega)
    (show sampleCount P n k < 2 ^ 31 by omega)
  have hoffset : ∀ i, i < P → (sampleImage P n).offset k i = (P * k + i : Nat) := by
    intro i hi
    have hword : sampleSetWord P n k (i + 2) = P * k + i := rfl
    have hvalue := hwords.s64At (r := i + 2) (by omega) (by omega)
    rw [hword] at hvalue
    rw [← hvalue]
    change ((sampleImage P n).set k).s64At (16 + i * 8) = _
    rw [show 16 + i * 8 = 8 * (i + 2) by omega]
  refine ⟨hwords.index (by omega) rfl (by omega), hset, ?_, ?_, hoffset, ?_⟩
  · rw [count, hset, toNat_natCast]
  · have hword : sampleSetWord P n k 1 = P * k + sampleCount P n k := rfl
    exact hwords.s64At (r := 1) (by omega) (by omega)
  · rw [start_eq, hoffset 0 hP, add_zero]

lemma sample_node (hsets : sampleSets P n ≤ P) :
    ((sampleImage P n).node 0).index = 0 ∧
      ((sampleImage P n).node 0).count = sampleSets P n ∧
      ((sampleImage P n).node 0).endOffset = n ∧
      ∀ k, k < sampleSets P n → ((sampleImage P n).node 0).offsetAt k = (P * k : Nat) := by
  have hwords := node_holdsWords (P := P) (n := n)
  have hzero : sampleNodeWord P n 0 = 0 + 2 ^ 32 * sampleSets P n := (zero_add _).symm
  refine ⟨hwords.index (by omega) hzero (by decide),
    hwords.count (by omega) hzero (by decide) (by omega), ?_, fun k hk => ?_⟩
  · have hword : sampleNodeWord P n 1 = n := rfl
    exact hwords.s64At (r := 1) (by omega) (by omega)
  have hlt := (lt_sampleSets hP k).mp hk
  have hword : sampleNodeWord P n (k + 2) = P * k := rfl
  have hvalue := hwords.s64At (r := k + 2) (by omega) (by omega)
  rw [hword] at hvalue
  rw [← hvalue]
  change ((sampleImage P n).node 0).s64At (16 + k * 8) = _
  rw [show 16 + k * 8 = 8 * (k + 2) by omega]

lemma sampleImage_wellFormed (hpos : 0 < n) (hsets : sampleSets P n ≤ P) :
    (sampleImage P n).WellFormed := by
  have hset {k : Nat} (hk : k < (sampleImage P n).setCount) := by
    rw [sample_setCount] at hk
    exact sample_sets hP hPmax hn hk
  have hcount {k : Nat} (hk : k < (sampleImage P n).setCount) :
      0 < sampleCount P n k ∧ sampleCount P n k ≤ P := by
    rw [sample_setCount] at hk
    have hlt := (lt_sampleSets hP k).mp hk
    rw [sampleCount]
    omega
  obtain ⟨hindex, hnode, hend, hoffsets⟩ := sample_node hP hPmax hn hsets
  have hfits : (sampleImage P n).offsetsPerNode = P := sample_entriesPerSet (n := n)
  exact {
    header := by
      rfl
    entryCount_pos := natCast_pos.mpr hpos
    entrySize_le := le_refl 8
    entry_le := show 8 + 16 ≤ 8 * (P + 2) by omega
    nodeSize_le := show 8 * (P + 2) ≤ 512 * 1024 by omega
    nodes_stored := by
      rw [nodeL2Count, hfits, sample_setCount, if_neg (by omega), add_zero, one_mul]
      exact le_refl _
    sets_stored := by
      rw [sample_setCount]
      exact le_refl _
    set_verified := fun k hk => by
      obtain ⟨hk₁, hk₂, -, hk₄, -, -⟩ := hset hk
      have hc := hcount hk
      refine verifyNode_eq_ok.mpr ⟨hk₁, ⟨show 8 ≠ 0 by decide, show 8 + 16 ≤ 8 * (P + 2) by omega⟩,
        ?_, ?_⟩
      · change _ ∧ _ ≤ (((8 * (P + 2) - 16) / 8 : Nat) : Int)
        omega
      · change 0 ≤ (sampleImage P n).finish k
        rw [hk₄]
        exact natCast_nonneg _
    increasing := fun k i hk hi => by
      obtain ⟨-, -, hk₃, -, hk₅, -⟩ := hset hk
      have hc := hcount hk
      rw [hk₅ i (by omega), hk₅ (i + 1) (by omega)]
      omega
    below := fun k hk => by
      obtain ⟨-, -, hk₃, hk₄, hk₅, -⟩ := hset hk
      have hc := hcount hk
      rw [hk₃, hk₅ _ (by omega), hk₄]
      omega
    chain := fun k hk => by
      obtain ⟨-, -, -, hk₄, -, -⟩ := hset (show k < _ by omega)
      obtain ⟨-, -, -, -, -, hk₆⟩ := hset hk
      have hlt := hk
      rw [sample_setCount, lt_sampleSets hP, Nat.mul_succ] at hlt
      rw [hk₄, hk₆, sampleCount, Nat.mul_succ]
      omega
    start_nonneg := by
      obtain ⟨-, -, -, -, -, hk₆⟩ := hset (k := 0) (by
        rw [sample_setCount, lt_sampleSets hP]
        omega)
      rw [hk₆]
      exact natCast_nonneg _
    l1_verified := by
      have hE : 0 < sampleSets P n := (lt_sampleSets hP 0).mpr (by omega)
      refine verifyNode_eq_ok.mpr ⟨hindex, ⟨by decide, show 8 + 16 ≤ 8 * (P + 2) by omega⟩, ?_, ?_⟩
      · change _ ∧ _ ≤ (((8 * (P + 2) - 16) / 8 : Nat) : Int)
        omega
      · rw [hend]
        exact natCast_nonneg _
    l1_end := by
      have hE : 0 < sampleSets P n := (lt_sampleSets hP 0).mpr (by omega)
      have hlast := (lt_sampleSets (n := n) hP (sampleSets P n)).not.mp (lt_irrefl _)
      have hbefore := (lt_sampleSets (n := n) hP (sampleSets P n - 1)).mp (by omega)
      have hsucc : P * sampleSets P n = P * (sampleSets P n - 1) + P := by
        rw [← Nat.mul_succ, Nat.succ_eq_add_one, Nat.sub_add_cancel hE]
      obtain ⟨-, -, -, hk₄, -, -⟩ := sample_sets hP hPmax hn
        (show sampleSets P n - 1 < sampleSets P n by omega)
      rw [sample_setCount, hk₄, hend, sampleCount]
      omega
    flat := fun _ => by
      rw [sample_setCount, nodeCount, hnode, toNat_natCast]
      refine ⟨rfl, fun k hk => ?_⟩
      rw [hoffsets k hk, (sample_sets hP hPmax hn hk).2.2.2.2.2]
    deep := fun hdeep => by
      rw [hfits, sample_setCount] at hdeep
      omega }

end
end

/-- Three entries in one set: the lookup of address 2 and the moves from there. -/
theorem lookup_three : (sampleImage 126 3).WellFormed ∧
    (∃ t, (sampleImage 126 3).openTree .zeros = .ok t) ∧
    ∀ t, ((sampleImage 126 3).system .zeros).Reachable t →
      (sampleImage 126 3).Lookup t (.new .zeros) 2 := by
  have hwf : (sampleImage 126 3).WellFormed :=
    sampleImage_wellFormed (by decide) (by decide) (by decide) (by decide) (by decide)
  obtain ⟨hopen, hlookup⟩ := (lookups_iff hwf .zeros).mpr (by decide)
  refine ⟨hwf, hopen, fun t hreach => hlookup t hreach _ 2 ?_ ?_⟩
  · decide +kernel
  · decide +kernel

/-- The number of entries of which the sum with 65533 does not fit. -/
def overflowCount : Nat := 2 ^ 31 - 65533

/-- A well formed tree of the greatest node size cannot be opened: the number of its entry sets
overflows. -/
theorem openTree_overflow : (sampleImage 65534 overflowCount).WellFormed ∧
    (sampleImage 65534 overflowCount).openTree .zeros = .error .signedOverflow := by
  have hwf : (sampleImage 65534 overflowCount).WellFormed :=
    sampleImage_wellFormed (by decide) (by decide) (by decide) (by decide) (by decide)
  refine ⟨hwf, (openTree_eq hwf .zeros).trans (if_neg ?_)⟩
  decide

end Drippu.FileSys.BucketTree
