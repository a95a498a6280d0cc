import Mathlib.Data.Nat.Size
import Drippu.Library.BitWords
import Drippu.Library.Transition

/-!
# Kernel - The page bitmap

`KPageBitmap` is a stack of bit arrays in 64-bit words.  The deepest one holds
a bit for every block; every bit above says whether the word below it is non-zero,
so that a set bit is found with one word per level.  The random generator is a
parameter: all results hold for every source of bits.
-/

namespace Drippu.Kernel

open Library Function Nat BitVec Finset

/-- The assertions of the bitmap and of the heap above it. -/
inductive PageFault where
  | setBitAssertion
  | clearBitAssertion
  | clearRangeAssertion
  | findFreeBlockAssertion
  | freeAssertion
  | blockIndex
deriving DecidableEq, Repr

/-! ## Random bits -/

/-- The two primitives of `RandomBitGenerator` over a generator state. -/
structure RandomSource (R : Type) where
  generateRandomBit : R → Bool × R
  generateRandomBits : R → Nat → BitVec 64 × R

namespace RandomSource

variable {R : Type} (G : RandomSource R)

/-- The loop of `SelectRandomBit` over the remaining half widths. -/
def selectRandomBitLoop : List Nat → R → BitVec 64 → Nat → Nat × R
  | [], rng, _, selected => (selected, rng)
  | curNumBits :: rest, rng, bitmap, selected =>
    let high := bitmap >>> curNumBits
    let low := bitmap &&& ~~~(allOnes 64 <<< curNumBits)
    if high ≠ 0#64 then
      if low = 0#64 then selectRandomBitLoop rest rng high (selected + curNumBits)
      else
        let (bit, rng) := G.generateRandomBit rng
        if bit then selectRandomBitLoop rest rng high (selected + curNumBits)
        else selectRandomBitLoop rest rng low selected
    else selectRandomBitLoop rest rng low selected

def selectRandomBit (rng : R) (bitmap : BitVec 64) : Nat × R :=
  G.selectRandomBitLoop [32, 16, 8, 4, 2, 1] rng bitmap 0

def generateRandom (rng : R) (max : Nat) : Nat × R :=
  let bitsNeeded := 1 + size max
  let (rnd, rng) := G.generateRandomBits rng bitsNeeded
  (rnd.toNat - rnd.toNat / max * max, rng)

lemma generateRandom_lt (rng : R) (max : Nat) (h : 0 < max) :
    (G.generateRandom rng max).1 < max := by
  simp only [generateRandom, mul_comm _ max, ← mod_eq_sub_mul_div]
  exact mod_lt _ h

end RandomSource

/-! ## The bitmap -/

/-- The words of all levels, the deepest one last. -/
abbrev Storages := Nat → Nat → BitVec 64

/-- Write one word. -/
def writeWord (s : Storages) (depth ind : Nat) (v : BitVec 64) : Storages :=
  update s depth (update (s depth) ind v)

/-- The private `SetBit`.  The first argument is the depth index plus one, so
that zero is the index below the top where the loop stops. -/
def setBitAt : Nat → Nat → Storages → Except PageFault Storages
  | 0, _, s => .ok s
  | depth + 1, offset, s =>
    let ind := offset / 64
    let mask := 1#64 <<< (offset % 64)
    let v := s depth ind
    if v &&& mask = 0#64 then
      let s := writeWord s depth ind (v ||| mask)
      if v ≠ 0#64 then .ok s else setBitAt depth ind s
    else .error .setBitAssertion

/-- The private `ClearBit`, with the depth as in `setBitAt`. -/
def clearBitAt : Nat → Nat → Storages → Except PageFault Storages
  | 0, _, s => .ok s
  | depth + 1, offset, s =>
    let ind := offset / 64
    let mask := 1#64 <<< (offset % 64)
    let v := s depth ind
    if v &&& mask ≠ 0#64 then
      let s := writeWord s depth ind (v &&& ~~~mask)
      if v &&& ~~~mask ≠ 0#64 then .ok s else clearBitAt depth ind s
    else .error .clearBitAssertion

/-- The step of `ClearRange` that writes a word of the deepest level and tells the
levels above when it became zero. -/
def clearWord (depth ind : Nat) (v : BitVec 64) (s : Storages) : Except PageFault Storages :=
  if v = 0#64 then clearBitAt depth ind (writeWord s depth ind v)
  else .ok (writeWord s depth ind v)

structure KPageBitmap (R : Type) where
  bitStorages : Storages
  rng : R
  numBits : Nat
  usedDepths : Nat

namespace KPageBitmap

variable {R : Type}

abbrev maxDepth : Nat := 4

/-- The loop of `GetRequiredDepth`, with the size as a bound on its length. -/
def getRequiredDepthLoop : Nat → Nat → Nat → Nat
  | 0, _, depth => depth + 1
  | bound + 1, regionSize, depth =>
    if regionSize / 64 = 0 then depth + 1
    else getRequiredDepthLoop bound (regionSize / 64) (depth + 1)

def getRequiredDepth (regionSize : Nat) : Nat :=
  getRequiredDepthLoop regionSize regionSize 0

/-- `Initialize`.  The storage is fresh, so every word is zero. -/
def initialized (rng : R) (size : Nat) : KPageBitmap R where
  bitStorages := fun _ _ => 0#64
  rng := rng
  numBits := 0
  usedDepths := getRequiredDepth size

variable (b : KPageBitmap R) (offset : Nat)

def setBit : Except PageFault (KPageBitmap R) := do
  let s ← setBitAt b.usedDepths offset b.bitStorages
  .ok { b with bitStorages := s, numBits := b.numBits + 1 }

def clearBit : Except PageFault (KPageBitmap R) := do
  let s ← clearBitAt b.usedDepths offset b.bitStorages
  .ok { b with bitStorages := s, numBits := b.numBits - 1 }

/-- The second loop of `ClearRange`: clear whole words from a word on. -/
def clearWords (depth : Nat) : Nat → Nat → Storages → Except PageFault Storages
  | 0, _, s => .ok s
  | words + 1, ind, s => do
    let s ← clearBitAt depth ind (writeWord s depth ind 0#64)
    clearWords depth words (ind + 1) s

/-- `ClearRange`: the flag says whether the whole range was set. -/
def clearRange (count : Nat) : Except PageFault (Bool × KPageBitmap R) :=
  let depth := b.usedDepths - 1
  let bits := b.bitStorages depth
  let bitInd := offset / 64
  if count < 64 then
    let shift := offset % 64
    if shift + count ≤ 64 then
      let mask := ((1#64 <<< count) - 1#64) <<< shift
      let v := bits bitInd
      if v &&& mask ≠ mask then .ok (false, b)
      else do
        let s ← clearWord depth bitInd (v &&& ~~~mask) b.bitStorages
        .ok (true, { b with bitStorages := s, numBits := b.numBits - count })
    else .error .clearRangeAssertion
  else if offset % 64 = 0 ∧ count % 64 = 0 then
    if (List.range (count / 64)).all fun i => bits (bitInd + i) == allOnes 64 then do
      let s ← clearWords depth (count / 64) bitInd b.bitStorages
      .ok (true, { b with bitStorages := s, numBits := b.numBits - count })
    else .ok (false, b)
  else .error .clearRangeAssertion

section
variable (G : RandomSource R)

/-- The loop of `FindFreeBlock` with a number of levels to go.  The two branches
of the source differ in how they choose a bit of the word. -/
def findFreeBlockLoop (random : Bool) (s : Storages) :
    Nat → Nat → Nat → R → Except PageFault (Option Nat × R)
  | 0, _, offset, rng => .ok (some offset, rng)
  | levels + 1, depth, offset, rng =>
    let v := s depth offset
    if v = 0#64 then
      if depth = 0 then .ok (none, rng) else .error .findFreeBlockAssertion
    else if random then
      let (selected, rng) := G.selectRandomBit rng v
      findFreeBlockLoop random s levels (depth + 1) (offset * 64 + selected) rng
    else findFreeBlockLoop random s levels (depth + 1) (offset * 64 + v.ctz.toNat) rng

/-- `FindFreeBlock`: no value stands for a negative result. -/
def findFreeBlock (random : Bool) : Except PageFault (Option Nat × KPageBitmap R) := do
  let (found, rng) ← findFreeBlockLoop G random b.bitStorages b.usedDepths 0 0 b.rng
  .ok (found, { b with rng := rng })

end
end KPageBitmap

/-! ## Levels -/

/-- The levels above `n` are consistent: a bit says whether the word below it is
non-zero. -/
def Summarised (n : Nat) (s : Storages) : Prop :=
  ∀ k i, k + 1 < n → (bitAt (s k) i = true ↔ s (k + 1) i ≠ 0#64)

@[simp]
lemma writeWord_self (s : Storages) (depth ind : Nat) (v : BitVec 64) :
    writeWord s depth ind v depth = update (s depth) ind v := by
  simp [writeWord]

lemma writeWord_of_ne (s : Storages) {depth k : Nat} (ind : Nat) (v : BitVec 64)
    (h : k ≠ depth) : writeWord s depth ind v k = s k := by
  simp [writeWord, h]

variable {n : Nat} {s : Storages}

lemma Summarised.congr {s' : Storages} (h : Summarised n s) (heq : ∀ k, k < n → s' k = s k) :
    Summarised n s' := by
  intro k i hk
  rw [heq k (by omega), heq (k + 1) hk]
  exact h k i hk

lemma Summarised.mono {m : Nat} (h : Summarised n s) (hmn : m ≤ n) : Summarised m s :=
  fun k i hk => h k i (by omega)

/-- One more level is consistent when its words agree with the bits above. -/
lemma Summarised.succ (h : Summarised (n + 1) s)
    (hlevel : ∀ i, bitAt (s n) i = true ↔ s (n + 1) i ≠ 0#64) : Summarised (n + 2) s := by
  intro k i hk
  rcases lt_or_ge (k + 1) (n + 1) with hlt | hge
  · exact h k i hlt
  · obtain rfl : k = n := by omega
    exact hlevel i

/-- Replacing a non-zero word by a non-zero word needs no change above. -/
lemma Summarised.writeWord_of_ne_zero {ind : Nat} {v : BitVec 64} (h : Summarised (n + 1) s)
    (hold : s n ind ≠ 0#64) (hv : v ≠ 0#64) : Summarised (n + 1) (writeWord s n ind v) := by
  intro k i hk
  rw [writeWord_of_ne _ _ _ (by omega), h k i hk]
  rcases lt_or_ge (k + 1) n with hlt | hge
  · rw [writeWord_of_ne _ _ _ (by omega)]
  obtain rfl : n = k + 1 := by omega
  rw [writeWord_self]
  by_cases hi : i = ind
  · subst hi
    simp [hold, hv]
  · rw [update_of_ne hi]

/-- A word was written and its bit one level up was set or cleared to match.  With
the levels further up in order, all of them are. -/
lemma Summarised.settle {ind : Nat} {v : BitVec 64} {s' : Storages} (hs : Summarised (n + 2) s)
    (hs' : Summarised (n + 1) s') (hlow : ∀ k, n < k → s' k = writeWord s (n + 1) ind v k)
    (hbits : ∀ i, i ≠ ind → bitAt (s' n) i = bitAt (s n) i)
    (hind : bitAt (s' n) ind = true ↔ v ≠ 0#64) : Summarised (n + 2) s' := by
  refine hs'.succ fun i => ?_
  rw [hlow (n + 1) (by omega), writeWord_self]
  by_cases hi : i = ind
  · subst hi
    rw [update_self]
    exact hind
  · rw [update_of_ne hi, hbits i hi]
    exact hs n i (by omega)

/-- Below the level it starts from, a change on the levels above leaves a written
word in place. -/
abbrev KeepsBelow (n ind : Nat) (v : BitVec 64) (s s' : Storages) : Prop :=
  ∀ k, n ≤ k → s' k = writeWord s n ind v k

/-- `SetBit` or `ClearBit`. -/
def writeBitAt : Bool → Nat → Nat → Storages → Except PageFault Storages
  | true => setBitAt
  | false => clearBitAt

/-- Writing a bit, given that a word which became non-zero or zero is announced above. -/
lemma writeBitAt_succ (bit : Bool) {offset : Nat} (hs : Summarised (n + 1) s)
    (hbit : bitAt (s n) offset = !bit)
    (habove : ∀ v, (s n (offset / 64) = 0#64 ↔ bit = true) → (v ≠ 0#64 ↔ bit = true) →
      ∃ s', writeBitAt bit n (offset / 64) (writeWord s n (offset / 64) v) = .ok s' ∧
        Summarised (n + 1) s' ∧ KeepsBelow n (offset / 64) v s s') :
    ∃ s', writeBitAt bit (n + 1) offset s = .ok s' ∧ Summarised (n + 1) s' ∧
      (∀ k, n < k → s' k = s k) ∧
      ∀ i, bitAt (s' n) i = if i = offset then bit else bitAt (s n) i := by
  have hguard := and_one_shiftLeft_eq_zero (s n (offset / 64)) (offset % 64)
  have hnonzero := word_ne_zero_iff (w := 64) (by decide)
  obtain ⟨v, hbits, s', hok, hsum, hlow⟩ : ∃ v,
      (∀ i, bitAt (update (s n) (offset / 64) v) i = if i = offset then bit else bitAt (s n) i) ∧
      ∃ s', writeBitAt bit (n + 1) offset s = .ok s' ∧ Summarised (n + 1) s' ∧
        KeepsBelow n (offset / 64) v s s' := by
    cases bit with
    | true =>
      have hbits := bitAt_setBit (w := 64) (by decide) (s n) offset
      have hword := (hnonzero (update (s n) (offset / 64) _) (offset / 64)).2
        ⟨offset, rfl, by rw [hbits]; simp⟩
      rw [update_self] at hword
      refine ⟨_, fun i => by rw [hbits]; split_ifs with hi <;> simp [hi], ?_⟩
      simp only [writeBitAt, setBitAt, hguard.2 hbit, if_true]
      by_cases hold : s n (offset / 64) = 0#64
      · rw [if_neg (not_not.2 hold)]
        exact habove _ (by simp [hold]) (by simp [hword])
      · rw [if_pos hold]
        exact ⟨_, rfl, hs.writeWord_of_ne_zero hold hword, fun _ _ => rfl⟩
    | false =>
      have hold := (hnonzero (s n) (offset / 64)).2 ⟨offset, rfl, hbit⟩
      refine ⟨_, fun i => by
        rw [bitAt_clearBit (w := 64) (by decide) (s n) offset]; split_ifs with hi <;> simp [hi], ?_⟩
      simp only [writeBitAt, clearBitAt, ne_eq, hguard, show (s n (offset / 64)).getLsbD
        (offset % 64) = true from hbit, Bool.true_eq_false, not_false_eq_true, if_true]
      by_cases hzero : s n (offset / 64) &&& ~~~(1#64 <<< (offset % 64)) = 0#64
      · rw [if_neg (not_not.2 hzero)]
        exact habove _ (by simp [hold]) (by simp [hzero])
      · rw [if_pos hzero]
        exact ⟨_, rfl, hs.writeWord_of_ne_zero hold hzero, fun _ _ => rfl⟩
  refine ⟨s', hok, hsum, fun k hk => ?_, fun i => ?_⟩
  · rw [hlow k hk.le, writeWord_of_ne _ _ _ (by omega)]
  · rw [hlow n le_rfl, writeWord_self, hbits]

/-- A word became non-zero or zero: writing its bit on the levels above makes them
consistent again. -/
lemma writeBitAt_above (bit : Bool) : ∀ {ind : Nat} {v : BitVec 64} {s : Storages},
    Summarised (n + 1) s → (s n ind = 0#64 ↔ bit = true) → (v ≠ 0#64 ↔ bit = true) →
    ∃ s', writeBitAt bit n ind (writeWord s n ind v) = .ok s' ∧ Summarised (n + 1) s' ∧
      KeepsBelow n ind v s s' := by
  induction n with
  | zero =>
    intro ind v s _ _ _
    exact ⟨_, by cases bit <;> rfl, fun k i hk => by omega, fun _ _ => rfl⟩
  | succ n ih =>
    intro ind v s hs hold hv
    have hkeep : ∀ k, k < n + 1 → writeWord s (n + 1) ind v k = s k := fun k hk =>
      writeWord_of_ne _ _ _ (by omega)
    have hsum : Summarised (n + 1) (writeWord s (n + 1) ind v) :=
      (hs.mono (by omega)).congr hkeep
    have hbit : bitAt (writeWord s (n + 1) ind v n) ind = !bit := by
      rw [hkeep n (by omega), Bool.eq_not_iff, ne_eq, Bool.eq_iff_iff, hs n ind (by omega), ← hold]
      tauto
    obtain ⟨s', hrun, hsum', hlow, hbits⟩ :=
      writeBitAt_succ bit hsum hbit fun _ hold hv => ih hsum hold hv
    rw [hkeep n (by omega)] at hbits
    refine ⟨s', hrun, hs.settle hsum' hlow (fun i hi => ?_) ?_, hlow⟩
    · rw [hbits, if_neg hi]
    · rw [hbits, if_pos rfl, hv]

/-! ## The deepest level -/

namespace KPageBitmap

variable {R : Type}

/-- A bit of the deepest level. -/
def leaf (b : KPageBitmap R) (i : Nat) : Bool :=
  bitAt (b.bitStorages (b.usedDepths - 1)) i

/-- The set bits below a size. -/
def leafSet (b : KPageBitmap R) (size : Nat) : Finset Nat :=
  (range size).filter fun i => b.leaf i = true

/-- The invariant of a bitmap for `size` blocks: the levels are consistent, only
bits below the size are set, and the count is theirs. -/
structure WellFormed (b : KPageBitmap R) (size : Nat) : Prop where
  depth_pos : 0 < b.usedDepths
  capacity : size ≤ 64 ^ b.usedDepths
  summarised : Summarised b.usedDepths b.bitStorages
  bound : ∀ i, b.leaf i = true → i < size
  count : b.numBits = (b.leafSet size).card

variable {b : KPageBitmap R} {i n offset size : Nat}

lemma mem_leafSet (h : b.WellFormed size) : i ∈ b.leafSet size ↔ b.leaf i = true := by
  rw [leafSet, mem_filter, mem_range]
  exact ⟨fun hi => hi.2, fun hi => ⟨h.bound i hi, hi⟩⟩

variable {s : Storages}

section
variable (h : b.WellFormed size)
include h

/-- The words may change so that the given bits of the deepest level are set, when the count
follows. -/
lemma WellFormed.update {numBits : Nat} (leaves : Finset Nat) (hn : b.usedDepths = n + 1)
    (hs : Summarised (n + 1) s) (hsub : leaves ⊆ range size)
    (hbits : ∀ i, bitAt (s n) i = decide (i ∈ leaves)) (hcount : numBits = leaves.card) :
    { b with bitStorages := s, numBits := numBits }.WellFormed size := by
  have hleaf : ∀ i, { b with bitStorages := s, numBits := numBits }.leaf i = true ↔ i ∈ leaves := by
    simp [leaf, hn, hbits]
  refine ⟨h.depth_pos, h.capacity, by rw [hn]; exact hs, fun i hi => ?_, hcount.trans ?_⟩
  · exact mem_range.1 (hsub ((hleaf i).1 hi))
  · congr 1
    ext i
    rw [leafSet, mem_filter, hleaf, and_iff_right_of_imp fun hi => hsub hi]

lemma WellFormed.deepest :
    ∃ n, b.usedDepths = n + 1 ∧ Summarised (n + 1) b.bitStorages ∧
      (∀ i, b.leaf i = bitAt (b.bitStorages n) i) ∧ b.usedDepths - 1 = n := by
  obtain ⟨n, hn⟩ : ∃ n, b.usedDepths = n + 1 := exists_eq_succ_of_ne_zero h.depth_pos.ne'
  refine ⟨n, hn, hn ▸ h.summarised, fun i => ?_, by omega⟩
  rw [leaf, hn, Nat.add_sub_cancel]

lemma setBit_spec (hoffset : offset < size) (hclear : b.leaf offset = false) :
    ∃ b', b.setBit offset = .ok b' ∧ b'.WellFormed size ∧
      ∀ i, b'.leaf i = (decide (i = offset) || b.leaf i) := by
  obtain ⟨n, hn, hsum, hleaf, hn'⟩ := h.deepest
  obtain ⟨s', hrun, hsum', -, hwrite⟩ := writeBitAt_succ true hsum
    ((hleaf offset).symm.trans hclear) fun _ => writeBitAt_above _ hsum
  have hbits : ∀ i, bitAt (s' n) i = (decide (i = offset) || b.leaf i) := fun i => by
    rw [hwrite, hleaf]
    split_ifs with hi <;> simp [hi]
  refine ⟨{ b with bitStorages := s', numBits := b.numBits + 1 }, ?_,
    h.update (insert offset (b.leafSet size)) hn hsum' ?_ (fun i => ?_) ?_, fun i => ?_⟩
  · change setBitAt (n + 1) offset b.bitStorages = _ at hrun
    rw [setBit, hn, hrun]
    rfl
  · exact insert_subset (mem_range.2 hoffset) (filter_subset _ _)
  · simp [hbits, mem_leafSet h]
  · rw [card_insert_of_notMem (by simp [mem_leafSet h, hclear]), h.count]
  · rw [← hbits, leaf, hn']

lemma clearBit_spec (hset : b.leaf offset = true) :
    ∃ b', b.clearBit offset = .ok b' ∧ b'.WellFormed size ∧
      ∀ i, b'.leaf i = (b.leaf i && !decide (i = offset)) := by
  obtain ⟨n, hn, hsum, hleaf, hn'⟩ := h.deepest
  obtain ⟨s', hrun, hsum', -, hwrite⟩ := writeBitAt_succ false hsum
    ((hleaf offset).symm.trans hset) fun _ => writeBitAt_above _ hsum
  have hbits : ∀ i, bitAt (s' n) i = (b.leaf i && !decide (i = offset)) := fun i => by
    rw [hwrite, hleaf]
    split_ifs with hi <;> simp [hi]
  refine ⟨{ b with bitStorages := s', numBits := b.numBits - 1 }, ?_,
    h.update ((b.leafSet size).erase offset) hn hsum' ?_ (fun i => ?_) ?_, fun i => ?_⟩
  · change clearBitAt (n + 1) offset b.bitStorages = _ at hrun
    rw [clearBit, hn, hrun]
    rfl
  · exact (erase_subset _ _).trans (filter_subset _ _)
  · simp [hbits, mem_leafSet h, Bool.and_comm]
  · rw [card_erase_of_mem ((mem_leafSet h).2 hset), h.count]
  · rw [← hbits, leaf, hn']

end

/-- Writing the deepest level, with the levels above following when its word became
zero. -/
lemma clearWord_spec {ind : Nat} {v : BitVec 64} (hs : Summarised (n + 1) s)
    (hold : s n ind ≠ 0#64) :
    ∃ s', clearWord n ind v s = .ok s' ∧ Summarised (n + 1) s' ∧ s' n = update (s n) ind v := by
  unfold clearWord
  by_cases hzero : v = 0#64
  · subst hzero
    obtain ⟨s', hrun, hsum, hlow⟩ :=
      writeBitAt_above false (v := 0#64) hs (iff_of_false hold nofun) (by simp)
    refine ⟨s', (if_pos rfl).trans hrun, hsum, ?_⟩
    rw [hlow n le_rfl, writeWord_self]
  · rw [if_neg hzero]
    exact ⟨_, rfl, hs.writeWord_of_ne_zero hold hzero, writeWord_self _ _ _ _⟩

lemma mem_range_iff_word {count : Nat} (h : offset % 64 + count ≤ 64) :
    (i / 64 = offset / 64 ∧ offset % 64 ≤ i % 64 ∧ i % 64 < offset % 64 + count) ↔
      offset ≤ i ∧ i < offset + count := by
  omega

/-- `ClearRange` inside one word: it clears the range if all of it is set, and
does nothing otherwise. -/
lemma clearRange_spec {count : Nat} (h : b.WellFormed size) (hpos : 0 < count)
    (hcount : count < 64) (hword : offset % 64 + count ≤ 64) :
    ((∀ i, offset ≤ i → i < offset + count → b.leaf i = true) ∧
      ∃ b', b.clearRange offset count = .ok (true, b') ∧ b'.WellFormed size ∧
        ∀ i, b'.leaf i = (b.leaf i && !decide (offset ≤ i ∧ i < offset + count))) ∨
    ((∃ i, offset ≤ i ∧ i < offset + count ∧ b.leaf i = false) ∧
      b.clearRange offset count = .ok (false, b)) := by
  obtain ⟨n, hn, hsum, hleaf, hn'⟩ := h.deepest
  obtain ⟨mask, hmask⟩ : ∃ mask, mask = ((1#64 <<< count) - 1#64) <<< (offset % 64) := ⟨_, rfl⟩
  have hbit : ∀ i, (decide (i / 64 = offset / 64) && mask.getLsbD (i % 64)) =
      decide (offset ≤ i ∧ i < offset + count) := by
    intro i
    rw [hmask, getLsbD_rangeMask hcount (mod_lt i (by decide)), ← Bool.decide_and,
      ← Bool.decide_and, decide_eq_decide]
    exact mem_range_iff_word hword
  -- the word test looks at exactly the bits of the range
  have htest : b.bitStorages n (offset / 64) &&& mask = mask ↔
      ∀ i, offset ≤ i → i < offset + count → b.leaf i = true := by
    constructor
    · intro heq i h1 h2
      have hin := hbit i
      rw [decide_eq_true (And.intro h1 h2), Bool.and_eq_true, decide_eq_true_eq] at hin
      rw [← heq, getLsbD_and, Bool.and_eq_true] at hin
      rw [hleaf, bitAt, hin.1, hin.2.1]
    · intro hall
      refine eq_of_getLsbD_eq fun k hk => ?_
      rw [getLsbD_and]
      cases hmk : mask.getLsbD k with
      | false => rw [Bool.and_false]
      | true =>
        have hin := hbit (offset / 64 * 64 + k)
        rw [show (offset / 64 * 64 + k) / 64 = offset / 64 by omega,
          show (offset / 64 * 64 + k) % 64 = k by omega, hmk, decide_eq_true rfl,
          Bool.and_true, eq_comm, decide_eq_true_eq] at hin
        rw [← bitAt_eq _ hk, ← hleaf, hall _ hin.1 hin.2, Bool.and_true]
  simp only [clearRange, hcount, hword, if_true, hn', ← hmask]
  by_cases hall : b.bitStorages n (offset / 64) &&& mask = mask
  · refine .inl ⟨htest.1 hall, ?_⟩
    rw [if_neg (not_not.2 hall)]
    have hfirst := htest.1 hall offset le_rfl (by omega)
    have hold := (word_ne_zero_iff (by decide) _ _).2
      ⟨offset, rfl, (hleaf offset).symm.trans hfirst⟩
    obtain ⟨s', hrun, hsum', hdeep⟩ :=
      clearWord_spec (v := b.bitStorages n (offset / 64) &&& ~~~mask) hsum hold
    have hbits : ∀ i, bitAt (s' n) i =
        (b.leaf i && !decide (offset ≤ i ∧ i < offset + count)) := by
      intro i
      rw [hdeep, bitAt_clearMask (by decide), hbit, hleaf]
    refine ⟨{ b with bitStorages := s', numBits := b.numBits - count }, ?_,
      h.update (b.leafSet size \ Finset.Ico offset (offset + count)) hn hsum' ?_ (fun i => ?_) ?_,
      fun i => ?_⟩
    · rw [hrun]
      rfl
    · exact sdiff_subset.trans (filter_subset _ _)
    · rw [Bool.eq_iff_iff]
      simp [hbits, mem_leafSet h]
    · rw [card_sdiff_of_subset, Nat.card_Ico, Nat.add_sub_cancel_left, h.count]
      intro i hi
      rw [mem_Ico] at hi
      exact (mem_leafSet h).2 (htest.1 hall i hi.1 hi.2)
    · rw [← hbits, leaf, hn']
  · refine .inr ⟨?_, if_pos hall⟩
    rw [htest] at hall
    simpa only [not_forall, exists_prop, Bool.not_eq_true] using hall

/-! ## Searching -/

/-- Widths that halve a number down to one. -/
def Halving : List Nat → Nat → Prop
  | [], bound => bound = 1
  | width :: rest, bound => bound = 2 * width ∧ Halving rest width

variable (G : RandomSource R)

lemma selectRandomBitLoop_spec {widths : List Nat} :
    ∀ {bound : Nat} {bitmap : BitVec 64} (rng : R) (selected : Nat), Halving widths bound →
      bitmap ≠ 0#64 → (∀ j, bitmap.getLsbD j = true → j < bound) →
      ∃ j, bitmap.getLsbD j = true ∧
        (G.selectRandomBitLoop widths rng bitmap selected).1 = selected + j := by
  induction widths with
  | nil =>
    intro bound bitmap rng selected hbound hne hlt
    have hset := getLsbD_true_ctz_of_ne_zero hne
    have hzero : bitmap.ctz.toNat < 1 := hbound ▸ hlt _ hset
    exact ⟨_, hset, by rw [RandomSource.selectRandomBitLoop]; omega⟩
  | cons width rest ih =>
    intro bound bitmap rng selected hhalving hne hlt
    obtain ⟨hbound, hrest⟩ := hhalving
    have hhighBit : ∀ j, (bitmap >>> width).getLsbD j = bitmap.getLsbD (width + j) := fun j =>
      getLsbD_ushiftRight _ _ _
    have hlowBit : ∀ j, (bitmap &&& ~~~(allOnes 64 <<< width)).getLsbD j =
        (bitmap.getLsbD j && decide (j < width)) := by
      intro j
      have hj := lt_of_getLsbD (x := bitmap) (i := j)
      simp only [getLsbD_and, getLsbD_not, getLsbD_shiftLeft, getLsbD_allOnes]
      grind
    have hpart : ∀ (part : BitVec 64) (o : Nat) (rng : R), part ≠ 0#64 →
        (∀ j, part.getLsbD j = true → bitmap.getLsbD (o + j) = true ∧ j < width) →
        ∃ j, bitmap.getLsbD j = true ∧
          (G.selectRandomBitLoop rest rng part (selected + o)).1 = selected + j := by
      intro part o rng hpne hin
      obtain ⟨j, hj, heq⟩ := ih rng (selected + o) hrest hpne fun j hj => (hin j hj).2
      exact ⟨o + j, (hin j hj).1, by rw [heq, add_assoc]⟩
    have hhigh := fun rng hhne => hpart (bitmap >>> width) width rng hhne fun j hj => by
      rw [hhighBit] at hj
      have := hlt _ hj
      exact ⟨hj, by omega⟩
    have hlow := fun rng hlne =>
      hpart (bitmap &&& ~~~(allOnes 64 <<< width)) 0 rng hlne fun j hj => by
        rw [hlowBit, Bool.and_eq_true, decide_eq_true_eq] at hj
        rwa [zero_add]
    simp only [RandomSource.selectRandomBitLoop]
    by_cases hhne : bitmap >>> width = 0#64
    · rw [if_neg (not_not.2 hhne)]
      refine hlow rng fun hlzero => hne (eq_of_getLsbD_eq fun j _ => ?_)
      rcases lt_or_ge j width with hj | hj
      · have hbit := hlowBit j
        rw [hlzero, decide_eq_true hj, Bool.and_true] at hbit
        exact hbit.symm
      · simpa [hhne, hj] using (hhighBit (j - width)).symm
    rw [if_pos hhne]
    by_cases hlne : bitmap &&& ~~~(allOnes 64 <<< width) = 0#64
    · rw [if_pos hlne]
      exact hhigh rng hhne
    · rw [if_neg hlne]
      split
      · exact hhigh _ hhne
      · exact hlow _ hlne

lemma selectRandomBit_spec (rng : R) {v : BitVec 64} (h : v ≠ 0#64) :
    v.getLsbD (G.selectRandomBit rng v).1 = true := by
  obtain ⟨j, hj, heq⟩ := selectRandomBitLoop_spec G rng 0
    (show Halving [32, 16, 8, 4, 2, 1] 64 by simp [Halving]) h
    (fun j hj => lt_of_getLsbD hj)
  rw [RandomSource.selectRandomBit, heq, zero_add]
  exact hj

lemma bitAt_ancestor (hs : Summarised (n + 1) s) (hi : bitAt (s n) i = true) :
    ∀ k, k ≤ n → bitAt (s (n - k)) (i / 64 ^ k) = true := by
  intro k
  induction k with
  | zero =>
    simpa using hi
  | succ k ih =>
    intro hk
    have hbit := ih (by omega)
    rw [show n - k = n - (k + 1) + 1 by omega] at hbit
    rw [hs (n - (k + 1)) _ (by omega), word_ne_zero_iff (by decide)]
    refine ⟨i / 64 ^ k, ?_, hbit⟩
    rw [Nat.div_div_eq_div_mul, ← pow_succ]

/-- Below a set bit, or at the top, the search goes down to a set bit of the deepest
level; it finds nothing only in a top word that is zero. -/
lemma findFreeBlockLoop_spec (random : Bool) (hs : Summarised (n + 1) s) {levels : Nat} :
    ∀ {depth offset : Nat} (rng : R),
      depth + levels = n + 1 → (depth = 0 → offset = 0 ∧ 0 < levels) →
      (0 < depth → bitAt (s (depth - 1)) offset = true) →
      ∃ found rng', findFreeBlockLoop G random s levels depth offset rng = .ok (found, rng') ∧
        ((found = none ∧ s 0 0 = 0#64) ∨ ∃ o, found = some o ∧ bitAt (s n) o = true) := by
  induction levels with
  | zero =>
    intro depth offset rng hd htop hbit
    have hpos : 0 < depth := by omega
    refine ⟨some offset, rng, rfl, .inr ⟨offset, rfl, ?_⟩⟩
    rw [show n = depth - 1 by omega]
    exact hbit hpos
  | succ levels ih =>
    intro depth offset rng hd htop hbit
    -- from a set bit of the word the search goes on one level down
    have hdown : ∀ j rng, (s depth offset).getLsbD j = true →
        ∃ found rng', findFreeBlockLoop G random s levels (depth + 1) (offset * 64 + j) rng =
          .ok (found, rng') ∧
        ((found = none ∧ s 0 0 = 0#64) ∨ ∃ o, found = some o ∧ bitAt (s n) o = true) := by
      intro j rng hj
      refine ih rng (by omega) (by omega) fun _ => ?_
      rw [Nat.add_sub_cancel, bitAt_eq _ (lt_of_getLsbD hj)]
      exact hj
    simp only [findFreeBlockLoop]
    by_cases hzero : s depth offset = 0#64
    · have hdepth : depth = 0 := by
        by_contra hne
        have hset := hbit (pos_of_ne_zero hne)
        rw [hs (depth - 1) offset (by omega), Nat.sub_add_cancel (pos_of_ne_zero hne)] at hset
        exact hset hzero
      rw [if_pos hzero, if_pos hdepth]
      obtain ⟨rfl, -⟩ := htop hdepth
      exact ⟨none, rng, rfl, .inl ⟨rfl, hdepth ▸ hzero⟩⟩
    · rw [if_neg hzero]
      cases random with
      | true => exact hdown _ _ (selectRandomBit_spec G rng hzero)
      | false => exact hdown _ _ (getLsbD_true_ctz_of_ne_zero hzero)

/-- `FindFreeBlock` changes no bit; it finds a set bit, and finds nothing only
when no bit is set. -/
lemma findFreeBlock_spec (h : b.WellFormed size) (random : Bool) :
    ∃ found b', b.findFreeBlock G random = .ok (found, b') ∧ b'.WellFormed size ∧
      (∀ i, b'.leaf i = b.leaf i) ∧
      ((found = none ∧ ∀ i, b.leaf i = false) ∨ ∃ o, found = some o ∧ b.leaf o = true) := by
  obtain ⟨n, hn, hsum, hleaf, -⟩ := h.deepest
  obtain ⟨found, rng, hrun, hfound⟩ := findFreeBlockLoop_spec G random hsum b.rng
    (zero_add (n + 1)) (fun _ => ⟨rfl, by omega⟩) (by omega)
  refine ⟨found, { b with rng := rng }, ?_,
    ⟨h.depth_pos, h.capacity, h.summarised, h.bound, h.count⟩, fun _ => rfl, ?_⟩
  · rw [findFreeBlock, hn, hrun]
    rfl
  rcases hfound with ⟨rfl, htop⟩ | ⟨o, rfl, ho⟩
  · refine .inl ⟨rfl, fun i => ?_⟩
    rw [← Bool.not_eq_true]
    intro hi
    have hlt : i < 64 * 64 ^ n := by
      have := h.capacity
      rw [hn, pow_succ, mul_comm] at this
      exact lt_of_lt_of_le (h.bound i hi) this
    -- the top word would have the bit above this one
    have hbit := bitAt_ancestor hsum (hleaf i ▸ hi) n le_rfl
    rw [tsub_self, bitAt, Nat.div_eq_of_lt (Nat.div_lt_of_lt_mul (by rwa [mul_comm])),
      htop, getLsbD_zero] at hbit
    cases hbit
  · exact .inr ⟨o, rfl, by rw [hleaf]; exact ho⟩

/-! ## Initialisation -/

lemma lt_pow_getRequiredDepthLoop {bound : Nat} : ∀ {regionSize : Nat} (depth : Nat),
    regionSize ≤ bound →
      depth < getRequiredDepthLoop bound regionSize depth ∧
        regionSize < 64 ^ (getRequiredDepthLoop bound regionSize depth - depth) := by
  induction bound with
  | zero =>
    intro regionSize depth h
    simp only [getRequiredDepthLoop]
    refine ⟨by omega, ?_⟩
    rw [Nat.add_sub_cancel_left, Nat.le_zero.1 h]
    decide
  | succ bound ih =>
    intro regionSize depth h
    simp only [getRequiredDepthLoop]
    by_cases hzero : regionSize / 64 = 0
    · rw [if_pos hzero, Nat.add_sub_cancel_left]
      omega
    rw [if_neg hzero]
    obtain ⟨h1, h2⟩ := ih (depth + 1) (show regionSize / 64 ≤ bound by omega)
    rw [show getRequiredDepthLoop bound (regionSize / 64) (depth + 1) - depth =
      getRequiredDepthLoop bound (regionSize / 64) (depth + 1) - (depth + 1) + 1 by omega,
      pow_succ]
    omega

lemma initialized_wellFormed (rng : R) (size : Nat) :
    (initialized rng size).WellFormed size ∧ ∀ i, (initialized rng size).leaf i = false := by
  obtain ⟨h1, h2⟩ := lt_pow_getRequiredDepthLoop 0 (le_refl size)
  have hleaf : ∀ i, (initialized rng size).leaf i = false := fun i => by
    rw [leaf, initialized, bitAt, getLsbD_zero]
  refine ⟨⟨h1, h2.le, fun k i _ => ?_, fun i hi => ?_, ?_⟩, hleaf⟩
  · simp [initialized, bitAt]
  · rw [hleaf] at hi
    cases hi
  · have hempty : (initialized rng size).leafSet size = ∅ := by simp [leafSet, hleaf]
    rw [hempty]
    rfl

end KPageBitmap
end Drippu.Kernel
