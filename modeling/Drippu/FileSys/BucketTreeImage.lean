import Drippu.FileSys.BucketTree
import Drippu.Library.Blocks

/-!
# File system - Well formed bucket trees

A stored tree is well formed if its headers pass their checks and the offsets of the nodes are
those of the entry sets, whichever of the three layouts the size of the tree leads to: all offsets
on the first level, all on nodes of the second level, or the first ones in the free part of the
first level and the others on nodes of the second.
-/

namespace Drippu.FileSys

open Library Nat Buffer Int

/-! ## Buffers that agree -/

namespace Buffer

/-- The first `n` bytes are the same. -/
def Agree (n : Nat) (b b' : Buffer) : Prop := ∀ i, i < n → b i = b' i

variable {n : Nat} {b b' : Buffer} {pos : Nat}

lemma leNat_congr {size pos' : Nat} (h : ∀ i, i < size → b (pos + i) = b' (pos' + i)) :
    b.leNat size pos = b'.leNat size pos' := by
  induction size generalizing pos pos' with
  | zero => rfl
  | succ size ih =>
    have hfirst : b pos = b' pos' := h 0 (by omega)
    have hrest : b.leNat size (pos + 1) = b'.leNat size (pos' + 1) := by
      refine ih fun i hi => ?_
      rw [add_assoc, add_assoc, add_comm 1 i]
      exact h (i + 1) (by omega)
    rw [leNat, leNat, hfirst, hrest]

section
variable (h : Agree n b b')
include h

lemma Agree.s32At (hpos : pos + 4 ≤ n) : b.s32At pos = b'.s32At pos := by
  rw [Buffer.s32At, Buffer.s32At, leNat_congr fun i hi => h (pos + i) (by omega)]

lemma Agree.s64At (hpos : pos + 8 ≤ n) : b.s64At pos = b'.s64At pos := by
  rw [Buffer.s64At, Buffer.s64At, leNat_congr fun i hi => h (pos + i) (by omega)]

lemma Agree.index (hn : 4 ≤ n) : b.index = b'.index :=
  h.s32At hn

lemma Agree.count (hn : 8 ≤ n) : b.count = b'.count :=
  h.s32At hn

lemma Agree.endOffset (hn : 16 ≤ n) : b.endOffset = b'.endOffset :=
  h.s64At hn

lemma Agree.offsetAt {i : Nat} (hi : 24 + i * 8 ≤ n) : b.offsetAt i = b'.offsetAt i := by
  refine h.s64At ?_
  rw [BucketTree.nodeHeaderSize]
  omega

lemma Agree.beginOffset (hn : 24 ≤ n) : b.beginOffset = b'.beginOffset :=
  h.offsetAt (by omega)

end

lemma copyFrom_of_lt {dst src : Buffer} {size i : Nat} (hi : i < size) :
    dst.copyFrom src size pos i = src (pos + i) :=
  if_pos hi

end Buffer

lemma VirtualFile.read_of_lt {file : VirtualFile} {data : Buffer} {length offset i : Nat}
    (hi : i < length) (hstored : offset + i < file.size) :
    file.read data length offset i = file.byte (offset + i) :=
  if_pos ⟨hi, hstored⟩

namespace BucketTree

variable {b : Buffer}

lemma verifyNode_eq_ok {nodeIndex : Int} {nodeSize entrySize : Nat} :
    verifyNode b nodeIndex nodeSize entrySize = .ok () ↔
      b.index = nodeIndex ∧ (entrySize ≠ 0 ∧ entrySize + nodeHeaderSize ≤ nodeSize) ∧
      (0 < b.count ∧ b.count ≤ ((nodeSize - nodeHeaderSize) / entrySize : Nat)) ∧
      0 ≤ b.endOffset := by
  unfold verifyNode
  split_ifs with h₁ h₂ h₃ h₄ <;> simp_all

variable {n : Nat}

lemma verifyNode_congr {b' : Buffer} (h : Buffer.Agree n b b') (hn : 16 ≤ n) (nodeIndex : Int)
    (nodeSize entrySize : Nat) :
    verifyNode b nodeIndex nodeSize entrySize = verifyNode b' nodeIndex nodeSize entrySize := by
  simp [verifyNode, h.index (by omega), h.count (by omega), h.endOffset hn]

lemma toS32_eq (h : n < 2 ^ 31) : toS32 n = n := by
  rw [toS32, BitVec.toInt_ofNat', bmod_eq_of_le]
  · omega
  · omega

lemma s32_eq {x : Int} (hpos : 0 ≤ x) (hlt : x < 2 ^ 31) : s32 x = .ok x :=
  if_pos ⟨by omega, hlt⟩

/-- The search in a node finds the greatest offset that is not above the address. -/
lemma storageNodeFind_spec {elementSize len : Nat} {count va : Int} {g : Nat → Int}
    (hcount : count = len)
    (hvalue : ∀ i, i < len → b.s64At (nodeHeaderSize + i * elementSize) = g i)
    (hsorted : ∀ i j, i ≤ j → j < len → g i ≤ g j) (hlen : 0 < len) (hfirst : g 0 ≤ va) :
    ∃ i, i < len ∧ storageNodeFind b elementSize count va = (i : Int) ∧ g i ≤ va ∧
      (i + 1 < len → va < g (i + 1)) := by
  obtain ⟨i, hi, hfind, hle, hgt⟩ := exists_bisect
    (f := fun i => b.s64At (nodeHeaderSize + i * elementSize))
    (fun i hi => by rw [zero_add]; exact hvalue i hi) hsorted hlen hfirst
  refine ⟨i, hi, ?_, hle, hgt⟩
  rw [storageNodeFind, hcount, toNat_natCast, hfind]
  omega

/-! ## Stored trees -/

/-- A tree as it is stored, with the numbers that its owner passes along. -/
structure Image where
  header : Header
  nodeStorage : VirtualFile
  entryStorage : VirtualFile
  nodeSize : Nat
  entrySize : Nat

namespace Image

variable (m : Image)

def entriesPerSet : Nat := (m.nodeSize - nodeHeaderSize) / m.entrySize

def offsetsPerNode : Nat := (m.nodeSize - nodeHeaderSize) / 8

/-- The number of entry sets that the entries need. -/
def setCount : Nat :=
  (m.header.entryCount.toNat + (m.entriesPerSet - 1)) / m.entriesPerSet

/-- The node of the first level and, from 1 on, the nodes of the second level. -/
def node (j : Nat) : Buffer := fun i => m.nodeStorage.byte (j * m.nodeSize + i)

def set (k : Nat) : Buffer := fun i => m.entryStorage.byte (k * m.nodeSize + i)

def nodeCount (j : Nat) : Nat := (m.node j).count.toNat

def count (k : Nat) : Nat := (m.set k).count.toNat

/-- The virtual offset of an entry. -/
def offset (k i : Nat) : Int := (m.set k).s64At (nodeHeaderSize + i * m.entrySize)

def start (k : Nat) : Int := (m.set k).beginOffset

def finish (k : Nat) : Int := (m.set k).endOffset

/-- The entry set that offset `i` on the second-level node `j` belongs to: the sets
that have their offset on the first level come before. -/
def setOf (j i : Nat) : Nat :=
  (m.offsetsPerNode - m.nodeCount 0) + m.offsetsPerNode * j + i

/-- The number of nodes of the second level. -/
def nodeL2Count : Nat := if m.offsetsPerNode < m.setCount then m.nodeCount 0 else 0

/-- The nodes of a tree whose entry sets do not fit on the first level. -/
structure DeepNodes : Prop where
  onL1 : ∀ k, k < m.offsetsPerNode - m.nodeCount 0 →
    (m.node 0).offsetAt (m.nodeCount 0 + k) = m.start k
  nodeStart : ∀ j, j < m.nodeCount 0 → (m.node 0).offsetAt j = m.start (m.setOf j 0)
  verified : ∀ j, j < m.nodeCount 0 → verifyNode (m.node (j + 1)) j m.nodeSize 8 = .ok ()
  full : ∀ j, j + 1 < m.nodeCount 0 → m.nodeCount (j + 1) = m.offsetsPerNode
  last : m.setOf (m.nodeCount 0 - 1) (m.nodeCount (m.nodeCount 0)) = m.setCount
  setStart : ∀ j i, j < m.nodeCount 0 → i < m.nodeCount (j + 1) →
    (m.node (j + 1)).offsetAt i = m.start (m.setOf j i)

/-- Verified headers, and strictly increasing offsets that are the same wherever they are
stored. -/
structure WellFormed : Prop where
  header : m.header.verify = .ok ()
  entryCount_pos : 0 < m.header.entryCount
  entrySize_le : 8 ≤ m.entrySize
  entry_le : m.entrySize + nodeHeaderSize ≤ m.nodeSize
  nodeSize_le : m.nodeSize ≤ nodeSizeMax
  nodes_stored : (1 + m.nodeL2Count) * m.nodeSize ≤ m.nodeStorage.size
  sets_stored : m.setCount * m.nodeSize ≤ m.entryStorage.size
  set_verified : ∀ k, k < m.setCount → verifyNode (m.set k) k m.nodeSize m.entrySize = .ok ()
  increasing : ∀ k i, k < m.setCount → i + 1 < m.count k → m.offset k i < m.offset k (i + 1)
  below : ∀ k, k < m.setCount → m.offset k (m.count k - 1) < m.finish k
  chain : ∀ k, k + 1 < m.setCount → m.finish k = m.start (k + 1)
  start_nonneg : 0 ≤ m.start 0
  l1_verified : verifyNode (m.node 0) 0 m.nodeSize 8 = .ok ()
  l1_end : (m.node 0).endOffset = m.finish (m.setCount - 1)
  flat : m.setCount ≤ m.offsetsPerNode → m.nodeCount 0 = m.setCount ∧
    ∀ k, k < m.setCount → (m.node 0).offsetAt k = m.start k
  deep : m.offsetsPerNode < m.setCount → m.DeepNodes

/-- The bytes of an entry. -/
def entryBytes (k i : Nat) : List UInt8 :=
  (List.range m.entrySize).map fun b => m.set k (nodeHeaderSize + i * m.entrySize + b)

/-- All entries in the order in which they are stored. -/
def entries : List (List UInt8) :=
  (places m.setCount m.count).map fun p => m.entryBytes p.1 p.2

end Image

/-- The virtual offset is the first field of an entry. -/
def virtualOffset (entry : List UInt8) : Int := Buffer.s64At (fun i => entry.getD i 0) 0

namespace Image

variable {m : Image}

lemma start_eq (k : Nat) : m.start k = m.offset k 0 := by
  simp [start, offset, beginOffset, offsetAt]

lemma virtualOffset_entryBytes (h : 8 ≤ m.entrySize) (k i : Nat) :
    virtualOffset (m.entryBytes k i) = m.offset k i := by
  have hbytes : leNat (fun p => (m.entryBytes k i).getD p 0) 8 0 =
      (m.set k).leNat 8 (nodeHeaderSize + i * m.entrySize) := by
    refine Buffer.leNat_congr fun b hb => ?_
    simp [entryBytes, show b < m.entrySize by omega]
  rw [virtualOffset, offset, Buffer.s64At, Buffer.s64At, hbytes]

namespace WellFormed

variable (h : m.WellFormed)
include h

lemma nodeSize_ge : 24 ≤ m.nodeSize := by
  have := h.entrySize_le
  have := h.entry_le
  rw [nodeHeaderSize] at this
  omega

variable {i j k : Nat}

lemma set_spec (hk : k < m.setCount) :
    (m.set k).index = k ∧ (m.set k).count = m.count k ∧ 0 < m.count k ∧
      m.count k ≤ m.entriesPerSet := by
  obtain ⟨hindex, -, ⟨hpos, hle⟩, -⟩ := verifyNode_eq_ok.mp (h.set_verified k hk)
  have hcount : (m.set k).count = m.count k := by
    rw [count]
    omega
  refine ⟨hindex, hcount, by omega, ?_⟩
  rw [hcount] at hle
  exact_mod_cast hle

lemma l1_spec :
    (m.node 0).count = m.nodeCount 0 ∧ 0 < m.nodeCount 0 ∧ m.nodeCount 0 ≤ m.offsetsPerNode := by
  obtain ⟨-, -, ⟨hpos, hle⟩, -⟩ := verifyNode_eq_ok.mp h.l1_verified
  have hcount : (m.node 0).count = m.nodeCount 0 := by
    rw [nodeCount]
    omega
  refine ⟨hcount, by omega, ?_⟩
  rw [hcount] at hle
  exact_mod_cast hle

lemma entriesPerSet_pos : 0 < m.entriesPerSet := by
  have hle := h.entrySize_le
  have hentry := h.entry_le
  exact div_pos (by omega) (by omega)

lemma setCount_pos : 0 < m.setCount := by
  have hcount := h.entryCount_pos
  exact div_pos (by omega) h.entriesPerSet_pos

/-! ### The order of the offsets -/

section
variable (hk : k < m.setCount)
include hk

lemma offset_lt (hij : i < j) (hj : j < m.count k) : m.offset k i < m.offset k j := by
  induction j with
  | zero => omega
  | succ j ih =>
    have hstep := h.increasing k j hk hj
    obtain hlt | rfl := Nat.lt_succ_iff_lt_or_eq.mp hij
    · exact (ih hlt (by omega)).trans hstep
    · exact hstep

lemma offset_le (hij : i ≤ j) (hj : j < m.count k) : m.offset k i ≤ m.offset k j := by
  obtain hlt | rfl := lt_or_eq_of_le hij
  · exact (h.offset_lt hk hlt hj).le
  · exact le_refl _

lemma start_le_offset (hi : i < m.count k) : m.start k ≤ m.offset k i := by
  rw [start_eq]
  exact h.offset_le hk (zero_le i) hi

lemma offset_lt_finish (hi : i < m.count k) : m.offset k i < m.finish k :=
  (h.offset_le hk (show i ≤ m.count k - 1 by omega) (by omega)).trans_lt (h.below k hk)

lemma start_lt_finish : m.start k < m.finish k := by
  rw [start_eq]
  exact h.offset_lt_finish hk (h.set_spec hk).2.2.1

end

lemma finish_le_start {k' : Nat} (hlt : k < k') (hk' : k' < m.setCount) :
    m.finish k ≤ m.start k' := by
  induction k' with
  | zero => omega
  | succ k' ih =>
    rw [← h.chain k' hk']
    obtain hlt | rfl := Nat.lt_succ_iff_lt_or_eq.mp hlt
    · exact (ih hlt (by omega)).trans (h.start_lt_finish (by omega)).le
    · exact le_refl _

lemma start_le {k' : Nat} (hle : k ≤ k') (hk' : k' < m.setCount) : m.start k ≤ m.start k' := by
  obtain hlt | rfl := lt_or_eq_of_le hle
  · exact (h.start_lt_finish (by omega)).le.trans (h.finish_le_start hlt hk')
  · exact le_refl _

/-! ### What is stored -/

lemma set_stored {p : Nat} (hk : k < m.setCount) (hp : p < m.nodeSize) :
    k * m.nodeSize + p < m.entryStorage.size := by
  have hmul := mul_le_mul_right m.nodeSize (succ_le_of_lt hk)
  have := h.sets_stored
  rw [succ_mul] at hmul
  omega

lemma node_stored {p : Nat} (hj : j < 1 + m.nodeL2Count) (hp : p < m.nodeSize) :
    j * m.nodeSize + p < m.nodeStorage.size := by
  have hmul := mul_le_mul_right m.nodeSize (succ_le_of_lt hj)
  have := h.nodes_stored
  rw [succ_mul] at hmul
  omega

lemma entry_inside {b : Nat} (hk : k < m.setCount) (hi : i < m.count k) (hb : b < m.entrySize) :
    nodeHeaderSize + i * m.entrySize + b < m.nodeSize := by
  have hle : (i + 1) * m.entrySize ≤ m.entriesPerSet * m.entrySize :=
    mul_le_mul_right _ (hi.trans_le (h.set_spec hk).2.2.2)
  have hdiv : m.entriesPerSet * m.entrySize ≤ m.nodeSize - nodeHeaderSize := div_mul_le_self _ _
  rw [succ_mul] at hle
  omega

omit h in
lemma offset_inside (hi : i < m.offsetsPerNode) : 24 + i * 8 ≤ m.nodeSize := by
  have hdiv : m.offsetsPerNode * 8 ≤ m.nodeSize - nodeHeaderSize := div_mul_le_self _ _
  simp only [nodeHeaderSize] at *
  omega

end WellFormed
end Image

/-! ## Loaded trees -/

open Image (WellFormed)

variable {m : Image} {t : BucketTree}

/-- The tree in memory is the stored one. -/
structure Loaded (m : Image) (t : BucketTree) : Prop where
  nodeStorage : t.nodeStorage = m.nodeStorage
  entryStorage : t.entryStorage = m.entryStorage
  nodeSize : t.nodeSize = m.nodeSize
  entrySize : t.entrySize = m.entrySize
  offsetCount : t.offsetCount = m.offsetsPerNode
  entrySetCount : t.entrySetCount = m.setCount
  nodeL1 : Buffer.Agree m.nodeSize t.nodeL1 (m.node 0)

lemma agree_node (h : m.WellFormed) {j : Nat} (hj : j < 1 + m.nodeL2Count) (data : Buffer) :
    Buffer.Agree m.nodeSize (m.nodeStorage.read data m.nodeSize (j * m.nodeSize)) (m.node j) :=
  fun _ hi => VirtualFile.read_of_lt hi (h.node_stored hj hi)

lemma agree_set (h : m.WellFormed) {k : Nat} (hk : k < m.setCount) (hn : n ≤ m.nodeSize)
    (data : Buffer) : Buffer.Agree n (m.entryStorage.read data n (k * m.nodeSize)) (m.set k) :=
  fun _ hi => VirtualFile.read_of_lt hi (h.set_stored hk (hi.trans_le hn))

lemma agree_l1 (h : m.WellFormed) (data : Buffer) :
    Buffer.Agree m.nodeSize (m.nodeStorage.read data m.nodeSize 0) (m.node 0) := by
  have hnode := agree_node h (show 0 < 1 + m.nodeL2Count by omega) data
  rwa [zero_mul] at hnode

lemma setOf_zero_lt (hdeep : m.offsetsPerNode < m.setCount) : m.setOf 0 0 < m.setCount := by
  rw [Image.setOf, mul_zero]
  omega

section
variable (h : m.WellFormed)
include h

lemma start_le_beginOffset : m.start 0 ≤ (m.node 0).beginOffset := by
  rw [beginOffset]
  by_cases hdeep : m.offsetsPerNode < m.setCount
  · rw [(h.deep hdeep).nodeStart 0 h.l1_spec.2.1]
    exact h.start_le (zero_le _) (setOf_zero_lt hdeep)
  · rw [(h.flat (by omega)).2 0 h.setCount_pos]

lemma startOffset_eq :
    (if m.offsetsPerNode < m.setCount ∧ m.nodeCount 0 < m.offsetsPerNode then
      (m.node 0).offsetAt (m.nodeCount 0) else (m.node 0).offsetAt 0) = m.start 0 := by
  obtain ⟨-, hcpos, hcle⟩ := h.l1_spec
  split_ifs with hon
  · exact (h.deep hon.1).onL1 0 (by omega)
  by_cases hdeep : m.offsetsPerNode < m.setCount
  · have hzero : m.setOf 0 0 = 0 := by
      rw [Image.setOf, mul_zero]
      omega
    rw [(h.deep hdeep).nodeStart 0 hcpos, hzero]
  · exact (h.flat (by omega)).2 0 h.setCount_pos

/-- The offsets of the first level pass their checks. -/
lemma loadOffsets_eq {node : Buffer} (hnode : Buffer.Agree m.nodeSize node (m.node 0)) :
    loadOffsets node m.offsetsPerNode m.setCount = .ok ⟨m.start 0, m.finish (m.setCount - 1)⟩ := by
  have hsize := h.nodeSize_ge
  have hpos := h.setCount_pos
  obtain ⟨hcount, hcpos, hcle⟩ := h.l1_spec
  have hlt : m.start 0 < m.finish (m.setCount - 1) :=
    (h.start_le (zero_le _) (by omega)).trans_lt (h.start_lt_finish (by omega))
  have hstart : (if (m.offsetsPerNode : Int) < m.setCount ∧ node.count < m.offsetsPerNode then
      node.offsetAt node.count.toNat else node.offsetAt 0) = m.start 0 := by
    simp only [← startOffset_eq h, hnode.count (show 8 ≤ m.nodeSize by omega), hcount,
      toNat_natCast, ofNat_lt]
    split_ifs with hon
    · exact hnode.offsetAt (WellFormed.offset_inside hon.2)
    · exact hnode.offsetAt (by omega)
  simp only [loadOffsets, hstart, hnode.endOffset (show 16 ≤ m.nodeSize by omega), h.l1_end,
    hnode.beginOffset hsize]
  rw [if_neg (not_not.mpr ⟨h.start_nonneg, start_le_beginOffset h⟩), if_neg (not_not.mpr hlt)]

end

namespace Loaded

lemma count (h : m.WellFormed) (hl : Loaded m t) : t.nodeL1.count = m.nodeCount 0 := by
  rw [hl.nodeL1.count (by have := h.nodeSize_ge; omega)]
  exact h.l1_spec.1

variable {i j : Nat}

lemma offsetAt (hl : Loaded m t) (hi : i < m.offsetsPerNode) :
    t.nodeL1.offsetAt i = (m.node 0).offsetAt i :=
  hl.nodeL1.offsetAt (WellFormed.offset_inside hi)

lemma isExistL2_iff (hl : Loaded m t) : t.isExistL2 = true ↔ m.offsetsPerNode < m.setCount := by
  rw [isExistL2, decide_eq_true_iff, hl.offsetCount, hl.entrySetCount]
  omega

lemma isExistOffsetL2OnL1_iff (h : m.WellFormed) (hl : Loaded m t) :
    t.isExistOffsetL2OnL1 = true ↔
      m.offsetsPerNode < m.setCount ∧ m.nodeCount 0 < m.offsetsPerNode := by
  rw [isExistOffsetL2OnL1, Bool.and_eq_true, hl.isExistL2_iff, decide_eq_true_iff, hl.count h,
    hl.offsetCount]
  omega

/-! ### The entry set of an address -/

lemma getEntrySetIndex_eq (h : m.WellFormed) (hl : Loaded m t) (hlt : m.setOf j i < 2 ^ 31) :
    t.getEntrySetIndex j i = .ok (m.setOf j i : Int) := by
  obtain ⟨-, -, hcle⟩ := h.l1_spec
  rw [Image.setOf] at hlt ⊢
  have hprod : (m.offsetsPerNode : Int) * j = (m.offsetsPerNode * j : Nat) := by
    rw [natCast_mul]
  rw [getEntrySetIndex, hl.offsetCount, hl.count h, hprod, s32_eq (by omega) (by omega),
    s32_eq (by omega) (by omega)]
  simp only [bind, Except.bind]
  rw [s32_eq (by omega) (by omega)]
  simp only
  rw [s32_eq (by omega) (by omega)]
  congr 1
  omega

/-- The offsets on a node of the second level are those of entry sets. -/
lemma setOf_lt (h : m.WellFormed) (hdeep : m.offsetsPerNode < m.setCount) (hj : j < m.nodeCount 0)
    (hi : i < m.nodeCount (j + 1)) : m.setOf j i < m.setCount := by
  have hlast := (h.deep hdeep).last
  rw [Image.setOf] at hlast ⊢
  by_cases hnext : j + 1 < m.nodeCount 0
  · have hmul := mul_le_mul_left m.offsetsPerNode (show j + 1 ≤ m.nodeCount 0 - 1 by omega)
    rw [(h.deep hdeep).full j hnext] at hi
    rw [mul_succ] at hmul
    omega
  · have hj' : m.nodeCount 0 = j + 1 := by omega
    rw [hj', Nat.add_sub_cancel] at hlast
    omega

/-- A node of the second level leads to the entry set of an address between its first offset and
the first offset of the next node. -/
lemma findEntrySet_spec (h : m.WellFormed) (hl : Loaded m t) (hbound : m.setCount < 2 ^ 31)
    (hdeep : m.offsetsPerNode < m.setCount) {va : Int} (hj : j < m.nodeCount 0)
    (hlow : m.start (m.setOf j 0) ≤ va)
    (hhigh : j + 1 < m.nodeCount 0 → va < m.start (m.setOf (j + 1) 0))
    (hend : va < m.finish (m.setCount - 1)) :
    ∃ k, k < m.setCount ∧ t.findEntrySet va j = .ok (k : Int) ∧ m.start k ≤ va ∧
      va < m.finish k := by
  have hsize := h.nodeSize_ge
  have hd := h.deep hdeep
  -- The buffer holds the node, and its header passes the checks.
  have hstored : j + 1 < 1 + m.nodeL2Count := by
    rw [Image.nodeL2Count, if_pos hdeep]
    omega
  have hbuffer := agree_node h hstored .zeros
  obtain ⟨hindex, -, ⟨hnpos, hnle⟩, -⟩ := verifyNode_eq_ok.mp (hd.verified j hj)
  have hcount : (m.node (j + 1)).count = m.nodeCount (j + 1) := by
    rw [Image.nodeCount]
    omega
  have hnle' : m.nodeCount (j + 1) ≤ m.offsetsPerNode := by
    rw [hcount] at hnle
    exact_mod_cast hnle
  obtain ⟨i, hi, hfind, hle, hgt⟩ := storageNodeFind_spec (g := fun i => m.start (m.setOf j i))
    ((hbuffer.count (by omega)).trans hcount)
    (fun i hi =>
      (hbuffer.offsetAt (WellFormed.offset_inside (by omega))).trans (hd.setStart j i hj hi))
    (fun i i' hii hi' => h.start_le (by rw [Image.setOf, Image.setOf]; omega)
      (setOf_lt h hdeep hj hi')) (by omega) hlow
  have hset := setOf_lt h hdeep hj hi
  refine ⟨m.setOf j i, hset, ?_, hle, ?_⟩
  · rw [findEntrySet, hl.nodeStorage, hl.nodeSize, verifyNode_congr hbuffer (by omega),
      hd.verified j hj, hfind, hbuffer.index (by omega), hindex]
    exact hl.getEntrySetIndex_eq h (by omega)
  -- The next entry set is on this node, the first one on the next node, or there is none.
  have hnext : m.setOf j i + 1 < m.setCount → va < m.start (m.setOf j i + 1) := by
    intro hlt
    by_cases hin : i + 1 < m.nodeCount (j + 1)
    · exact hgt hin
    have hnode : j + 1 < m.nodeCount 0 := by
      by_contra hnot
      have hj' : m.nodeCount 0 = j + 1 := by omega
      have hlast := hd.last
      rw [hj', Nat.add_sub_cancel] at hlast
      rw [Image.setOf] at hlast hlt
      omega
    have hfirst : m.setOf j i + 1 = m.setOf (j + 1) 0 := by
      rw [hd.full j hnode] at hi hin
      rw [Image.setOf, Image.setOf, mul_succ]
      omega
    rw [hfirst]
    exact hhigh hnode
  by_cases hlt : m.setOf j i + 1 < m.setCount
  · rw [h.chain _ hlt]
    exact hnext hlt
  · rw [show m.setCount - 1 = m.setOf j i by omega] at hend
    exact hend

/-- The nodes lead to the entry set of an address, in all three layouts. -/
lemma findEntrySetIndex_spec (h : m.WellFormed) (hl : Loaded m t) (hbound : m.setCount < 2 ^ 31)
    {va : Int} (hlow : m.start 0 ≤ va) (hend : va < m.finish (m.setCount - 1)) :
    ∃ k, k < m.setCount ∧ t.findEntrySetIndex va = .ok (k : Int) ∧ m.start k ≤ va ∧
      va < m.finish k := by
  obtain ⟨-, hcpos, hcle⟩ := h.l1_spec
  have hsize := h.nodeSize_ge
  simp only [findEntrySetIndex, hl.isExistOffsetL2OnL1_iff h, hl.count h, toNat_natCast,
    hl.nodeL1.beginOffset hsize]
  by_cases hdeep : m.offsetsPerNode < m.setCount
  · have hd := h.deep hdeep
    have hbegin : (m.node 0).beginOffset = m.start (m.setOf 0 0) := by
      rw [beginOffset, hd.nodeStart 0 hcpos]
    by_cases hon : m.nodeCount 0 < m.offsetsPerNode ∧ va < (m.node 0).beginOffset
    · -- The offset of the entry set is on the first level, behind those of the nodes.
      have hzero : m.setOf 0 0 = m.offsetsPerNode - m.nodeCount 0 := by
        rw [Image.setOf, mul_zero]
        omega
      obtain ⟨i, hi, hfind, hle, hgt⟩ := exists_bisect (f := t.nodeL1.offsetAt) (g := m.start)
        (fun i hi => (hl.offsetAt (by omega)).trans (hd.onL1 i hi))
        (fun i i' hii hi' => h.start_le hii (by omega)) (by omega) hlow
      have hindex : m.nodeCount 0 + i + 1 - 1 - m.nodeCount 0 = i := by omega
      rw [if_pos ⟨⟨hdeep, hon.1⟩, hon.2⟩, hl.offsetCount, toNat_natCast, hfind,
        if_neg (by omega), hindex]
      refine ⟨i, by omega, rfl, hle, ?_⟩
      rw [h.chain i (by omega)]
      by_cases hin : i + 1 < m.offsetsPerNode - m.nodeCount 0
      · exact hgt hin
      · rw [show i + 1 = m.setOf 0 0 by omega, ← hbegin]
        exact hon.2
    -- A node of the second level has it.
    have hfirst : m.start (m.setOf 0 0) ≤ va := by
      by_cases hpart : m.nodeCount 0 < m.offsetsPerNode
      · rw [← hbegin]
        exact not_lt.mp fun hlt => hon ⟨hpart, hlt⟩
      have hzero : m.setOf 0 0 = 0 := by
        rw [Image.setOf, mul_zero]
        omega
      rw [hzero]
      exact hlow
    have hnode : ∀ j, j < m.nodeCount 0 → m.setOf j 0 < m.setCount := by
      intro j hj
      obtain ⟨-, -, ⟨hpos, -⟩, -⟩ := verifyNode_eq_ok.mp (hd.verified j hj)
      refine setOf_lt h hdeep hj ?_
      rw [Image.nodeCount]
      omega
    obtain ⟨j, hj, hfind, hle, hgt⟩ := exists_bisect (f := t.nodeL1.offsetAt)
      (g := fun j => m.start (m.setOf j 0))
      (fun j hj => by
        rw [zero_add, hl.offsetAt (by omega)]
        exact hd.nodeStart j hj)
      (fun j j' hjj hj' => h.start_le (by
        have := mul_le_mul_left m.offsetsPerNode hjj
        rw [Image.setOf, Image.setOf]
        omega) (hnode j' hj')) hcpos hfirst
    have hindex : 0 + j + 1 - 1 = j := by omega
    rw [if_neg fun hcond => hon ⟨hcond.1.2, hcond.2⟩, hfind, if_neg (by omega),
      if_pos (hl.isExistL2_iff.mpr hdeep), hindex, hl.offsetCount, if_neg (by omega)]
    exact hl.findEntrySet_spec h hbound hdeep hj hle hgt hend
  · -- The first level has the offsets of all entry sets.
    obtain ⟨hcount, hflat⟩ := h.flat (by omega)
    obtain ⟨i, hi, hfind, hle, hgt⟩ := exists_bisect (f := t.nodeL1.offsetAt) (g := m.start)
      (fun i hi => by
        rw [zero_add, hl.offsetAt (by omega)]
        exact hflat i (by omega))
      (fun i i' hii hi' => h.start_le hii (by omega)) hcpos hlow
    have hflatL1 : ¬ t.isExistL2 = true := fun hex => hdeep (hl.isExistL2_iff.mp hex)
    have hindex : 0 + i + 1 - 1 = i := by omega
    rw [if_neg fun hcond => hdeep hcond.1.1, hfind, if_neg (by omega), if_neg hflatL1, hindex]
    refine ⟨i, by omega, rfl, hle, ?_⟩
    by_cases hnext : i + 1 < m.setCount
    · rw [h.chain i hnext]
      exact hgt (by omega)
    · rw [show m.setCount - 1 = i by omega] at hend
      exact hend

end Loaded
end BucketTree
end Drippu.FileSys
