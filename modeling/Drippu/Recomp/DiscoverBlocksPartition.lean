import Drippu.Recomp.DiscoverBlocks

/-!
# Recomp - The discovered blocks partition the section

The third pass of block discovery cuts the section into pieces, and every piece is a
block followed by zero words that nothing reaches.  The marks of the first two passes are
never inside a piece, so that every marked word starts one.

Main results:

- Theorem `discoverBlocks_partition`: the blocks are disjoint, cover every nonzero
  word, end at terminators and start at every root and after every fall-through.
-/

namespace Drippu.Recomp

open Library
open BitVec hiding and_assoc or_assoc

variable {text : List (BitVec 32)} {base entryPc : BitVec 64} {extraRoots : List (BitVec 64)}

/-! ## Roots -/

/-- An address that must start a block: the entry point, an exported address, an address
that the code builds or the target of a direct branch. -/
inductive IsRoot (text : List (BitVec 32)) (base entryPc : BitVec 64)
    (extraRoots : List (BitVec 64)) : BitVec 64 → Prop
  | entry : IsRoot text base entryPc extraRoots entryPc
  | exported {addr : BitVec 64} (h : addr ∈ extraRoots) : IsRoot text base entryPc extraRoots addr
  | built {addr : BitVec 64} (h : addr ∈ collectAdrpAddTargets text base) :
      IsRoot text base entryPc extraRoots addr
  | target {addr : BitVec 64} {i : Nat} (hi : i < wordCount text)
      (h : directBranchTarget (word text i) (address base i) = some addr) :
      IsRoot text base entryPc extraRoots addr

/-- The word at an index is the first one or holds a root. -/
def Rooted (text : List (BitVec 32)) (base entryPc : BitVec 64) (extraRoots : List (BitVec 64))
    (i : Nat) : Prop :=
  i = 0 ∨ ∃ addr, IsRoot text base entryPc extraRoots addr ∧ base ≤ addr ∧ index base addr = i

lemma and_or_twoPow (i mask value : BitVec 32) (k : Nat) (h : (i &&& mask) = value) :
    (i &&& (mask ||| twoPow 32 k)) = value ∨
      (i &&& (mask ||| twoPow 32 k)) = value ||| twoPow 32 k := by
  rw [and_or_distrib_left, h, and_twoPow]
  split
  · exact .inr rfl
  · exact .inl (or_zero)

lemma isTerminator_of_directBranchTarget {i : BitVec 32} {pc t : BitVec 64}
    (h : directBranchTarget i pc = some t) : isTerminator i = true := by
  simp only [directBranchTarget] at h
  split at h <;> rename_i hb
  · rcases hb with hb | hb <;> simp [isTerminator, hb]
  split at h <;> rename_i hc
  · rcases hc with hc | hc
    · simp [isTerminator, hc]
    · rcases and_or_twoPow i _ _ 24 hc with hcb | hcb
      · have : (i &&& 0x7F000000#32) = 0x34000000#32 := hcb
        simp [isTerminator, this]
      · have : (i &&& 0x7F000000#32) = 0x35000000#32 := hcb
        simp [isTerminator, this]
  split at h <;> rename_i ht
  · rcases and_or_twoPow i _ _ 24 ht with htb | htb
    · have : (i &&& 0x7F000000#32) = 0x36000000#32 := htb
      simp [isTerminator, this]
    · have : (i &&& 0x7F000000#32) = 0x37000000#32 := htb
      simp [isTerminator, this]
  · cases h

/-! ## Marks -/

@[simp]
lemma mark_iff (start : Nat → Bool) (i j : Nat) :
    mark start i j = true ↔ start j = true ∨ i = j := by
  by_cases h : j = i
  · subst h
    simp [mark]
  · simp [mark, Function.update_of_ne h, Ne.symm h]

@[simp]
lemma markAddress_iff (n : Nat) (start : Nat → Bool) (addr : BitVec 64) (j : Nat) :
    markAddress base n start addr j = true ↔
      start j = true ∨ base ≤ addr ∧ index base addr < n ∧ index base addr = j := by
  rw [markAddress]
  split <;> rename_i h
  · rw [mark_iff]
    exact or_congr_right ⟨fun hj => ⟨h.1, h.2, hj⟩, fun hj => hj.2.2⟩
  · exact ⟨.inl, fun hj => hj.elim id fun hj => absurd ⟨hj.1, hj.2.1⟩ h⟩

lemma foldl_iff_exists {σ α : Type} {f : σ → α → σ} {Q : σ → Prop} {P : α → Prop}
    (hf : ∀ s a, Q (f s a) ↔ Q s ∨ P a) (l : List α) (s : σ) :
    Q (l.foldl f s) ↔ Q s ∨ ∃ a ∈ l, P a := by
  induction l generalizing s with
  | nil => simp
  | cons a l ih => simp [ih, hf, or_assoc]

variable {i j s : Nat}

lemma foldl_marks_iff {α : Type} {f : (Nat → Bool) → α → Nat → Bool} {P : α → Prop}
    (hf : ∀ start a, f start a j = true ↔ start j = true ∨ P a) (l : List α) (start : Nat → Bool) :
    l.foldl f start j = true ↔ start j = true ∨ ∃ a ∈ l, P a :=
  foldl_iff_exists (Q := fun start => start j = true) hf l start

variable {addr : BitVec 64}

lemma mem_collectStep {n : Nat} {page : BitVec 32 → BitVec 64} {insn : BitVec 32}
    (h : addr ∈ (collectStep n base page i insn).2) : base ≤ addr ∧ index base addr < n := by
  simp only [collectStep] at h
  split at h
  · cases h
  split at h
  · simp only [] at h
    split at h <;> rename_i hcond
    · obtain rfl := List.mem_singleton.1 h
      exact ⟨hcond.2.1, hcond.2.2.1⟩
    · cases h
  · cases h

lemma mem_collectLoop {n : Nat} {words : List (BitVec 32)} {page : BitVec 32 → BitVec 64}
    (h : addr ∈ collectLoop n base words i page) : base ≤ addr ∧ index base addr < n := by
  induction words generalizing i page with
  | nil => cases h
  | cons insn words ih =>
    rcases List.mem_append.1 h with h | h
    · exact mem_collectStep h
    · exact ih h

lemma rootStarts_iff (hi : i < wordCount text) :
    rootStarts text base entryPc extraRoots i = true ↔
      ((i = 0 ∨ base < entryPc ∧ index base entryPc = i) ∨
        ∃ addr ∈ extraRoots, base ≤ addr ∧ index base addr < wordCount text ∧ index base addr = i) ∨
        ∃ addr ∈ collectAdrpAddTargets text base, index base addr = i := by
  rw [rootStarts, foldl_marks_iff fun start addr => mark_iff start (index base addr) i,
    foldl_marks_iff fun start addr => markAddress_iff (wordCount text) start addr i]
  refine or_congr_left (or_congr_left ?_)
  split <;> rename_i hentry
  · simp [hentry.1, eq_comm (a := 0)]
  · simp only [mark_iff, Bool.false_eq_true, false_or, eq_comm (a := 0)]
    refine ⟨.inl, fun h => h.elim id fun h => absurd ⟨h.1, ?_⟩ hentry⟩
    rw [h.2]
    exact hi

/-- What the terminator at `i` roots. -/
def Targets (text : List (BitVec 32)) (base : BitVec 64) (i j : Nat) : Prop :=
  ∃ t, directBranchTarget (word text i) (address base i) = some t ∧ base ≤ t ∧ index base t = j

lemma markBranch_iff (marks : Marks) (i : Nat) (hj : j < wordCount text) :
    ((markBranch text base marks i).required j = true ↔
      marks.required j = true ∨ Targets text base i j) ∧
    ((markBranch text base marks i).start j = true ↔ marks.start j = true ∨
      (isTerminator (word text i) = true ∧ i + 1 = j ∨ Targets text base i j)) := by
  have hnone : (∀ t, directBranchTarget (word text i) (address base i) = some t → base ≤ t →
      index base t ≠ j) → ¬ Targets text base i j := fun h ⟨t, ht, hle, heq⟩ => h t ht hle heq
  by_cases hterm : isTerminator (word text i) = true
  · simp only [markBranch, hterm, if_true, true_and]
    generalize hnext : (if i + 1 < wordCount text then
      ({ marks with start := mark marks.start (i + 1) } : Marks) else marks) = next
    have hrequired : next.required = marks.required := by
      rw [← hnext]
      split <;> rfl
    have hstart : next.start j = true ↔ marks.start j = true ∨ i + 1 = j := by
      rw [← hnext]
      split <;> rename_i h
      · exact mark_iff ..
      · exact ⟨.inl, fun hor => hor.elim id fun hor => absurd (hor ▸ hj) h⟩
    split <;> rename_i ht
    · rename_i t
      split <;> rename_i hin
      · have htargets : Targets text base i j ↔ index base t = j := by
          refine ⟨fun ⟨t', ht', _, heq⟩ => ?_, fun heq => ⟨t, ht, hin.1, heq⟩⟩
          rw [ht] at ht'
          exact Option.some.inj ht' ▸ heq
        rw [mark_iff, mark_iff, hrequired, hstart, htargets, or_assoc]
        exact ⟨Iff.rfl, Iff.rfl⟩
      · have hout := hnone fun t' ht' hle heq => hin (by
          rw [ht] at ht'
          obtain rfl := Option.some.inj ht'
          exact ⟨hle, heq ▸ hj⟩)
        simp [hrequired, hstart, hout]
    · have hout := hnone fun t' ht' => by simp [ht] at ht'
      simp [hrequired, hstart, hout]
  · have hout := hnone fun t ht => absurd (isTerminator_of_directBranchTarget ht) hterm
    simp [markBranch, hterm, hout]

/-- The marks of a section. -/
def marksOf (text : List (BitVec 32)) (base entryPc : BitVec 64)
    (extraRoots : List (BitVec 64)) : Marks :=
  markBranches text base (rootStarts text base entryPc extraRoots)

lemma required_iff (hi : i < wordCount text) :
    (marksOf text base entryPc extraRoots).required i = true ↔
      Rooted text base entryPc extraRoots i := by
  rw [marksOf, markBranches, foldl_iff_exists (Q := fun marks => marks.required i = true)
    fun marks j => (markBranch_iff marks j hi).1]
  simp only [List.mem_range]
  rw [rootStarts_iff hi]
  constructor
  · rintro ((((rfl | hentry) | ⟨addr, haddr, hle, -, heq⟩) | ⟨addr, haddr, heq⟩) |
      ⟨j, hj, t, ht, hle, heq⟩)
    · exact .inl rfl
    · exact .inr ⟨_, .entry, BitVec.le_of_lt hentry.1, hentry.2⟩
    · exact .inr ⟨addr, .exported haddr, hle, heq⟩
    · exact .inr ⟨addr, .built haddr, (mem_collectLoop haddr).1, heq⟩
    · exact .inr ⟨t, .target hj ht, hle, heq⟩
  · rintro (rfl | ⟨addr, hroot, hle, heq⟩)
    · exact .inl (.inl (.inl (.inl rfl)))
    cases hroot with
    | entry =>
      rcases Nat.lt_or_eq_of_le (le_def.1 hle) with hlt | hbase
      · exact .inl (.inl (.inl (.inr ⟨lt_def.2 hlt, heq⟩)))
      · obtain rfl := eq_of_toNat_eq hbase
        refine .inl (.inl (.inl (.inl ?_)))
        simpa [index] using heq.symm
    | exported h => exact .inl (.inl (.inr ⟨addr, h, hle, heq ▸ hi, heq⟩))
    | built h => exact .inl (.inr ⟨addr, h, heq⟩)
    | target hj ht => exact .inr ⟨_, hj, addr, ht, hle, heq⟩

lemma start_iff (hi : i < wordCount text) :
    (marksOf text base entryPc extraRoots).start i = true ↔
      Rooted text base entryPc extraRoots i ∨
        ∃ j, isTerminator (word text j) = true ∧ j + 1 = i := by
  rw [← required_iff hi, marksOf, markBranches,
    foldl_iff_exists (Q := fun marks => marks.start i = true)
      fun marks j => (markBranch_iff marks j hi).2,
    foldl_iff_exists (Q := fun marks => marks.required i = true)
      fun marks j => (markBranch_iff marks j hi).1]
  simp only [List.mem_range]
  constructor
  · rintro (h | ⟨j, hj, h | h⟩)
    · exact .inl (.inl h)
    · exact .inr ⟨j, h⟩
    · exact .inl (.inr ⟨j, hj, h⟩)
  · rintro ((h | ⟨j, hj, h⟩) | ⟨j, h, rfl⟩)
    · exact .inl h
    · exact .inr ⟨j, hj, .inr h⟩
    · exact .inr ⟨j, by omega, .inl ⟨h, rfl⟩⟩

/-! ## Pieces -/

/-- The walk visits the cuts of the section. -/
lemma emitBlocks_eq (text : List (BitVec 32)) (base : BitVec 64) (marks : Marks) (fuel s : Nat) :
    emitBlocks text base marks fuel s =
      ((cuts (resume text marks) (wordCount text) fuel s).filter (kept text marks)).map
        (blockAt text base marks) := by
  induction fuel generalizing s with
  | zero => rfl
  | succ fuel ih =>
    rw [emitBlocks]
    split <;> rename_i hs
    · rw [cuts_of_lt hs, ih, List.filter_cons]
      split <;> rfl
    · rw [cuts_of_le (by omega)]
      rfl

variable (marks : Marks)

lemma blockEnd_of_zero (hzero : word text s = 0#32) : blockEnd text marks s = s + 1 := by
  rw [blockEnd, if_neg (by simp [hzero])]

/-- The words of a block behind its first one are nonzero and not marked, and a block of a
nonzero word ends before a mark or a zero word. -/
lemma blockEnd_spec (hs : s < wordCount text) :
    s < blockEnd text marks s ∧ blockEnd text marks s ≤ wordCount text ∧
      (∀ i, s < i → i < blockEnd text marks s → marks.start i = false ∧ word text i ≠ 0#32) ∧
      (word text s ≠ 0#32 → blockEnd text marks s < wordCount text →
        marks.start (blockEnd text marks s) = true ∨ word text (blockEnd text marks s) = 0#32) := by
  rw [blockEnd]
  split <;> rename_i hzero
  · obtain ⟨hle, hge, hall, hstop⟩ :=
      scan_spec (fun i => !marks.start i && word text i != 0#32) (Nat.succ_le_of_lt hs)
    refine ⟨hle, hge, fun i hi hlt => ?_, fun _ hlt => ?_⟩
    · simpa using hall i hi hlt
    · have := hstop hlt
      simp only [Bool.and_eq_false_iff, Bool.not_eq_false', bne_eq_false_iff_eq] at this
      exact this
  · exact ⟨Nat.lt_succ_self s, hs, fun i hi hlt => absurd hlt (by omega), fun h => absurd h hzero⟩

/-- Behind the block of a zero word, zero words are skipped up to a mark. -/
lemma resume_spec (hs : s < wordCount text) :
    blockEnd text marks s ≤ resume text marks s ∧ resume text marks s ≤ wordCount text ∧
      (∀ i, blockEnd text marks s ≤ i → i < resume text marks s →
        marks.start i = false ∧ word text i = 0#32 ∧ word text s = 0#32) ∧
      (resume text marks s < wordCount text → word text s = 0#32 →
        marks.start (resume text marks s) = true ∨ word text (resume text marks s) ≠ 0#32) := by
  obtain ⟨hlt, hle, -, -⟩ := blockEnd_spec marks hs
  rw [resume]
  split <;> rename_i hzero
  · obtain ⟨hge, hle', hall, hstop⟩ :=
      scan_spec (fun i => word text i == 0#32 && !marks.start i) hle
    refine ⟨hge, hle', fun i hi hlt => ?_, fun hlt _ => ?_⟩
    · have := hall i hi hlt
      simp only [Bool.and_eq_true, beq_iff_eq, Bool.not_eq_true'] at this
      exact ⟨this.2, this.1, hzero⟩
    · have := hstop hlt
      simp only [Bool.and_eq_false_iff, beq_eq_false_iff_ne, Bool.not_eq_false'] at this
      exact this.symm
  · exact ⟨le_rfl, hle, fun i hi hlt => absurd hlt (by omega), fun _ h => absurd h hzero⟩

/-- The pieces of a section. -/
def pieces (text : List (BitVec 32)) (marks : Marks) : List Nat :=
  cuts (resume text marks) (wordCount text) (wordCount text) 0

lemma resume_advances (a : Nat) (ha : a < wordCount text) :
    a < resume text marks a ∧ resume text marks a ≤ wordCount text := by
  obtain ⟨hlt, -, -, -⟩ := blockEnd_spec marks ha
  obtain ⟨hle, hn, -, -⟩ := resume_spec marks ha
  exact ⟨by omega, hn⟩

lemma start_inside (hs : s < wordCount text) (hi : s < i) (hlt : i < resume text marks s) :
    marks.start i = false := by
  obtain ⟨-, -, hblock, -⟩ := blockEnd_spec marks hs
  obtain ⟨-, -, hskip, -⟩ := resume_spec marks hs
  rcases lt_or_ge i (blockEnd text marks s) with h | h
  · exact (hblock i hi h).1
  · exact (hskip i h hlt).1

lemma mem_pieces_of_start (hi : i < wordCount text) (hstart : marks.start i = true) :
    i ∈ pieces text marks := by
  refine mem_cuts_of_stop (resume_advances marks) (by omega) (Nat.zero_le i) hi fun a _ ha => ?_
  by_contra hlt
  have hinside := start_inside marks (Nat.lt_trans ha hi) ha (lt_of_not_ge hlt)
  rw [hinside] at hstart
  cases hstart

lemma pieces_lt (hs : s ∈ pieces text marks) : s < wordCount text :=
  (mem_cuts_bounds (resume_advances marks) hs).2

lemma exists_piece (hi : i < wordCount text) (hword : word text i ≠ 0#32) :
    ∃ s ∈ pieces text marks, kept text marks s = true ∧ s ≤ i ∧ i < blockEnd text marks s := by
  obtain ⟨s, hs, hsi, hlt⟩ :=
    exists_cut (resume_advances marks) (s := 0) (Nat.sub_le ..) (Nat.zero_le i) hi
  obtain ⟨-, -, hskip, -⟩ := resume_spec marks (pieces_lt marks hs)
  have hend : i < blockEnd text marks s := by
    by_contra hge
    exact hword (hskip i (by omega) hlt).2.1
  refine ⟨s, hs, ?_, hsi, hend⟩
  have hzero : word text s ≠ 0#32 := by
    intro hzero
    have hsingle := blockEnd_of_zero marks hzero
    obtain rfl : i = s := by omega
    exact hword hzero
  simp [kept, hzero]

lemma piece_unique {s' : Nat} (hs : s ∈ pieces text marks) (hs' : s' ∈ pieces text marks)
    (hsi : s ≤ i) (hlt : i < blockEnd text marks s) (hsi' : s' ≤ i)
    (hlt' : i < blockEnd text marks s') : s = s' := by
  have hle := (resume_spec marks (pieces_lt marks hs)).1
  have hle' := (resume_spec marks (pieces_lt marks hs')).1
  rcases Nat.lt_trichotomy s s' with h | h | h
  · have := next_le_of_mem_cuts (resume_advances marks) hs hs' h
    omega
  · exact h
  · have := next_le_of_mem_cuts (resume_advances marks) hs' hs h
    omega

lemma last_eq_zero_iff (hs : s < wordCount text) (hi : i + 1 = blockEnd text marks s) :
    word text s = 0#32 ↔ word text i = 0#32 := by
  obtain ⟨hsucc, -, hblock, -⟩ := blockEnd_spec marks hs
  rcases eq_or_lt_of_le (show s ≤ i by omega) with rfl | hlt
  · exact Iff.rfl
  · have hword := (hblock i hlt (by omega)).2
    refine ⟨fun hzero => ?_, fun hzero => absurd hzero hword⟩
    have hsingle := blockEnd_of_zero marks hzero
    omega

/-- The word after a block starts a piece, unless it is a zero word without a mark behind
a zero word. -/
lemma blockEnd_mem_pieces_iff (hs : s ∈ pieces text marks)
    (hlt : blockEnd text marks s < wordCount text) :
    blockEnd text marks s ∈ pieces text marks ↔
      ¬ (word text s = 0#32 ∧ word text (blockEnd text marks s) = 0#32 ∧
        marks.start (blockEnd text marks s) = false) := by
  have hsn := pieces_lt marks hs
  obtain ⟨hsucc, -, -, -⟩ := blockEnd_spec marks hsn
  obtain ⟨hle, hn, hskip, hstop⟩ := resume_spec marks hsn
  rcases eq_or_lt_of_le hle with heq | hgap
  · refine ⟨fun _ hzero => ?_, fun _ => ?_⟩
    · rcases heq ▸ hstop (heq ▸ hlt) hzero.1 with hmark | hword
      · simp [hmark] at hzero
      · exact hword hzero.2.1
    · rw [heq]
      exact next_mem_cuts (resume_advances marks) (Nat.sub_le ..) hs (heq ▸ hlt)
  · obtain ⟨hmark, hword, hzero⟩ := hskip _ le_rfl hgap
    refine ⟨fun hmem => ?_, fun h => absurd ⟨hzero, hword, hmark⟩ h⟩
    have := next_le_of_mem_cuts (resume_advances marks) hs hmem hsucc
    omega

/-! ## The partition -/

/-- The address of a word of the block. -/
def Block.Covers (b : Block) (addr : BitVec 64) : Prop :=
  b.vaddr.toNat ≤ addr.toNat ∧ addr.toNat < b.vaddr.toNat + 4 * b.count

/-- The address of the last word of the block. -/
def Block.EndsAt (b : Block) (addr : BitVec 64) : Prop :=
  addr.toNat + 4 = b.vaddr.toNat + 4 * b.count

/-- The blocks are ascending and disjoint, every nonzero word lies in exactly one, a
terminator is the last word of its block, every root of the section starts a block, and
the word after a block that can fall through starts a block, unless both are zero words
and the second one is not rooted. -/
structure Partition (text : List (BitVec 32)) (base entryPc : BitVec 64)
    (extraRoots : List (BitVec 64)) (blocks : List Block) : Prop where
  ascending : blocks.Pairwise fun b b' =>
    b.vaddr < b'.vaddr ∧ b.vaddr.toNat + 4 * b.count ≤ b'.vaddr.toNat
  placed : ∀ b ∈ blocks, 0 < b.count ∧ ∃ s, b.vaddr = address base s ∧ s + b.count ≤ text.length
  covered : ∀ i < text.length, word text i ≠ 0#32 → ∃! b, b ∈ blocks ∧ b.Covers (address base i)
  terminator : ∀ b ∈ blocks, ∀ i < text.length, b.Covers (address base i) →
    isTerminator (word text i) = true → b.EndsAt (address base i)
  root : ∀ addr, IsRoot text base entryPc extraRoots addr → base ≤ addr →
    (addr - base).toNat < 4 * text.length → (addr - base).toNat % 4 = 0 →
    ∃ b ∈ blocks, b.vaddr = addr
  following : ∀ b ∈ blocks, ∀ i, i + 1 < text.length → b.EndsAt (address base i) →
    noFallthrough (word text i) = false →
    ((∃ b' ∈ blocks, b'.vaddr = address base (i + 1)) ↔
      ¬ (word text i = 0#32 ∧ word text (i + 1) = 0#32 ∧
        ¬ Rooted text base entryPc extraRoots (i + 1)))

lemma toNat_address (base : BitVec 64) (hlt : base.toNat + 4 * i < 2 ^ 64) :
    (address base i).toNat = base.toNat + 4 * i := by
  rw [address, toNat_add, toNat_ofNat]
  omega

lemma address_inj (hi : base.toNat + 4 * i < 2 ^ 64) (hj : base.toNat + 4 * j < 2 ^ 64)
    (h : address base i = address base j) : i = j := by
  have htoNat := congrArg BitVec.toNat h
  rw [toNat_address base hi, toNat_address base hj] at htoNat
  omega

lemma address_index (hoff : (addr - base).toNat % 4 = 0) :
    address base (index base addr) = addr := by
  rw [address, index, Nat.div_mul_cancel (Nat.dvd_of_mod_eq_zero hoff), ofNat_toNat, setWidth_eq]
  bv_omega

lemma discoverBlocks_eq (text : List (BitVec 32)) (base entryPc : BitVec 64)
    (extraRoots : List (BitVec 64)) :
    discoverBlocks text base entryPc extraRoots =
      ((pieces text (marksOf text base entryPc extraRoots)).filter
        (kept text (marksOf text base entryPc extraRoots))).map
        (blockAt text base (marksOf text base entryPc extraRoots)) := by
  rw [discoverBlocks]
  split <;> rename_i hn
  · rw [pieces, hn]
    rfl
  · exact emitBlocks_eq ..

lemma mem_discoverBlocks {b : Block} :
    b ∈ discoverBlocks text base entryPc extraRoots ↔
      ∃ s ∈ pieces text (marksOf text base entryPc extraRoots),
        kept text (marksOf text base entryPc extraRoots) s = true ∧
          blockAt text base (marksOf text base entryPc extraRoots) s = b := by
  rw [discoverBlocks_eq, List.mem_map]
  simp [and_assoc]

lemma exists_block_of_isRoot (hlength : text.length < 2 ^ 32)
    (hroot : IsRoot text base entryPc extraRoots addr) (hle : base ≤ addr)
    (hin : (addr - base).toNat < 4 * text.length) (halign : (addr - base).toNat % 4 = 0) :
    ∃ b ∈ discoverBlocks text base entryPc extraRoots, b.vaddr = addr := by
  have hi : index base addr < wordCount text := by
    rw [show wordCount text = text.length from Nat.mod_eq_of_lt hlength, index]
    omega
  have hrooted : Rooted text base entryPc extraRoots (index base addr) :=
    .inr ⟨addr, hroot, hle, rfl⟩
  have hpiece := mem_pieces_of_start _ hi ((start_iff hi).2 (.inl hrooted))
  refine ⟨_, mem_discoverBlocks.2 ⟨_, hpiece, ?_, rfl⟩, address_index halign⟩
  simp [kept, (required_iff hi).2 hrooted]

/-- The blocks ascend when the addresses of the counted words do not wrap around. -/
lemma pairwise_of_not_wrap (hwrap : base.toNat + 4 * wordCount text ≤ 2 ^ 64) :
    (discoverBlocks text base entryPc extraRoots).Pairwise fun b b' =>
      b.vaddr < b'.vaddr ∧ b.vaddr.toNat + 4 * b.count ≤ b'.vaddr.toNat := by
  rw [discoverBlocks_eq, List.pairwise_map]
  generalize marksOf text base entryPc extraRoots = marks
  refine ((pairwise_cuts (resume_advances marks)).imp_of_mem ?_).filter _
  intro a b ha hb hab
  have ha := pieces_lt marks ha
  have hb := pieces_lt marks hb
  obtain ⟨hsucc, -, -, -⟩ := blockEnd_spec marks ha
  obtain ⟨hle, -, -, -⟩ := resume_spec marks ha
  simp only [blockAt, lt_def, toNat_address base (i := a) (by omega),
    toNat_address base (i := b) (by omega)]
  omega

section
variable (hlength : text.length < 2 ^ 32) (hbase : base.toNat + 4 * text.length ≤ 2 ^ 64)
include hlength hbase

variable {i : Nat}

lemma blockAt_iff {s : Nat} (hs : s < wordCount text) (hi : i < text.length) :
    ((blockAt text base marks s).Covers (address base i) ↔ s ≤ i ∧ i < blockEnd text marks s) ∧
    ((blockAt text base marks s).EndsAt (address base i) ↔ i + 1 = blockEnd text marks s) := by
  have hn : wordCount text = text.length := Nat.mod_eq_of_lt hlength
  obtain ⟨hsucc, -, -, -⟩ := blockEnd_spec marks hs
  have hbs : (address base s).toNat = base.toNat + 4 * s := toNat_address base (by omega)
  have hbi : (address base i).toNat = base.toNat + 4 * i := toNat_address base (by omega)
  constructor
  · simp only [Block.Covers, blockAt, hbs, hbi]
    omega
  · simp only [Block.EndsAt, blockAt, hbs, hbi]
    omega

lemma pairwise_discoverBlocks :
    (discoverBlocks text base entryPc extraRoots).Pairwise fun b b' =>
      b.vaddr < b'.vaddr ∧ b.vaddr.toNat + 4 * b.count ≤ b'.vaddr.toNat := by
  refine pairwise_of_not_wrap ?_
  rw [show wordCount text = text.length from Nat.mod_eq_of_lt hlength]
  exact hbase

lemma existsUnique_covers (hi : i < text.length) (hword : word text i ≠ 0#32) :
    ∃! b, b ∈ discoverBlocks text base entryPc extraRoots ∧ b.Covers (address base i) := by
  have hn : wordCount text = text.length := Nat.mod_eq_of_lt hlength
  simp only [mem_discoverBlocks]
  generalize marksOf text base entryPc extraRoots = marks
  obtain ⟨s, hs, hkept, hsi, hlt⟩ := exists_piece marks (hn ▸ hi) hword
  have hcovers := (blockAt_iff marks hlength hbase (pieces_lt marks hs) hi).1
  refine ⟨_, ⟨⟨s, hs, hkept, rfl⟩, hcovers.2 ⟨hsi, hlt⟩⟩, ?_⟩
  rintro _ ⟨⟨s', hs', -, rfl⟩, hcovers'⟩
  rw [(blockAt_iff marks hlength hbase (pieces_lt marks hs') hi).1] at hcovers'
  rw [piece_unique marks hs hs' hsi hlt hcovers'.1 hcovers'.2]

lemma endsAt_of_isTerminator {b : Block} (hb : b ∈ discoverBlocks text base entryPc extraRoots)
    (hi : i < text.length) (hcovers : b.Covers (address base i))
    (hterm : isTerminator (word text i) = true) : b.EndsAt (address base i) := by
  obtain ⟨s, hs, -, rfl⟩ := mem_discoverBlocks.1 hb
  have hsn := pieces_lt _ hs
  obtain ⟨hsi, hlt⟩ := (blockAt_iff _ hlength hbase hsn hi).1.1 hcovers
  obtain ⟨-, hle, hblock, -⟩ := blockEnd_spec (marksOf text base entryPc extraRoots) hsn
  refine (blockAt_iff _ hlength hbase hsn hi).2.2 ?_
  by_contra hne
  -- the next word would be marked inside the block
  have hstart : (marksOf text base entryPc extraRoots).start (i + 1) = true :=
    (start_iff (by omega)).2 (.inr ⟨i, hterm, rfl⟩)
  rw [(hblock (i + 1) (by omega) (by omega)).1] at hstart
  cases hstart

lemma exists_block_at_iff (hi : i < text.length) :
    (∃ b ∈ discoverBlocks text base entryPc extraRoots, b.vaddr = address base i) ↔
      i ∈ pieces text (marksOf text base entryPc extraRoots) ∧
        kept text (marksOf text base entryPc extraRoots) i = true := by
  simp only [mem_discoverBlocks]
  constructor
  · rintro ⟨_, ⟨s, hs, hkept, rfl⟩, haddr⟩
    have hn : wordCount text = text.length := Nat.mod_eq_of_lt hlength
    have hsn := pieces_lt _ hs
    obtain rfl := address_inj (by omega) (by omega) haddr
    exact ⟨hs, hkept⟩
  · rintro ⟨hs, hkept⟩
    exact ⟨_, ⟨i, hs, hkept, rfl⟩, rfl⟩

lemma exists_following_iff {b : Block} (hb : b ∈ discoverBlocks text base entryPc extraRoots)
    (hi : i + 1 < text.length) (hend : b.EndsAt (address base i))
    (hfall : noFallthrough (word text i) = false) :
    (∃ b' ∈ discoverBlocks text base entryPc extraRoots, b'.vaddr = address base (i + 1)) ↔
      ¬ (word text i = 0#32 ∧ word text (i + 1) = 0#32 ∧
        ¬ Rooted text base entryPc extraRoots (i + 1)) := by
  have hn : wordCount text = text.length := Nat.mod_eq_of_lt hlength
  obtain ⟨s, hs, -, rfl⟩ := mem_discoverBlocks.1 hb
  have hsn := pieces_lt _ hs
  have hblockEnd := (blockAt_iff _ hlength hbase hsn (by omega)).2.1 hend
  have hkept : kept text (marksOf text base entryPc extraRoots) (i + 1) = true := by
    simp [kept, hfall]
  rw [exists_block_at_iff hlength hbase hi, and_iff_left hkept, hblockEnd,
    blockEnd_mem_pieces_iff _ hs (by omega), ← hblockEnd, last_eq_zero_iff _ hsn hblockEnd]
  -- behind a zero word only a root is marked
  refine not_congr (and_congr_right fun hzero => and_congr_right fun _ => ?_)
  rw [← Bool.not_eq_true, start_iff (by omega)]
  refine not_congr ⟨fun h => h.resolve_right ?_, .inl⟩
  rintro ⟨j, hterm, hj⟩
  obtain rfl : j = i := by omega
  rw [hzero] at hterm
  exact absurd hterm (by decide)

end

/-- The blocks of a section of fewer than `2 ^ 32` words inside the address space. -/
theorem discoverBlocks_partition (text : List (BitVec 32)) (base entryPc : BitVec 64)
    (extraRoots : List (BitVec 64)) (hlength : text.length < 2 ^ 32)
    (hbase : base.toNat + 4 * text.length ≤ 2 ^ 64) :
    Partition text base entryPc extraRoots (discoverBlocks text base entryPc extraRoots) where
  ascending := pairwise_discoverBlocks hlength hbase
  placed b hb := by
    obtain ⟨s, hs, -, rfl⟩ := mem_discoverBlocks.1 hb
    obtain ⟨hsucc, hle, -, -⟩ :=
      blockEnd_spec (marksOf text base entryPc extraRoots) (pieces_lt _ hs)
    have hn : wordCount text = text.length := Nat.mod_eq_of_lt hlength
    refine ⟨?_, s, rfl, ?_⟩
    · simp only [blockAt]
      omega
    · simp only [blockAt]
      omega
  covered _ hi hword := existsUnique_covers hlength hbase hi hword
  terminator _ hb _ hi hcovers hterm := endsAt_of_isTerminator hlength hbase hb hi hcovers hterm
  root _ hroot hle hin halign := exists_block_of_isRoot hlength hroot hle hin halign
  following _ hb _ hi hend hfall := exists_following_iff hlength hbase hb hi hend hfall

/-- Two instructions, of which the first is a conditional branch to the second. -/
theorem discoverBlocks_partition_branch :
    Partition [0x54000020, 0xD65F03C0] 0x1000 0x1000 []
      [⟨0x1000, 4, 1, true⟩, ⟨0x1004, 4, 1, false⟩] :=
  discoverBlocks_partition [0x54000020, 0xD65F03C0] 0x1000 0x1000 [] (by decide) (by decide)

/-- The second of two zero words starts no block, though the block of the first does not
end in B, BR or RET. -/
theorem zero_words_not_followed :
    ∃ b ∈ discoverBlocks [0, 0] 0x1000 0x1000 [],
      b.EndsAt (address 0x1000 0) ∧ noFallthrough (word [0, 0] 0) = false ∧
        ∀ b' ∈ discoverBlocks [0, 0] 0x1000 0x1000 [], b'.vaddr ≠ address 0x1000 1 :=
  ⟨⟨0x1000, 4, 1, true⟩, by decide, rfl, by decide, by decide⟩

end Drippu.Recomp
