import Drippu.Recomp.DiscoverBlocks

/-!
# Recomp - Addresses built with ADRP and ADD

The scan for built addresses keeps, for every register, the page of the last ADRP.  Every
instruction that is neither an ADRP nor an ADD drops the page of the register that its low
five bits name, whether the instruction writes that register or only reads it: a store of
the register forgets the page although the register still holds it.

Main results:

- Theorem `collected_iff`: a pair with no write in between is reported unless an
  instruction in between names the register in its low five bits.
-/

namespace Drippu.Recomp

open Function Nat List

/-! ## Decoding -/

variable (d insn : BitVec 32)

def isAdrp : Prop :=
  (insn &&& 0x9F000000#32) = 0x90000000#32

/-- ADD of an immediate that is not shifted, on 64 bits. -/
def isAddImmediate : Prop :=
  (insn &&& 0xFFC00000#32) = 0x91000000#32

instance (insn : BitVec 32) : Decidable (isAdrp insn) :=
  inferInstanceAs (Decidable (_ = _))

instance (insn : BitVec 32) : Decidable (isAddImmediate insn) :=
  inferInstanceAs (Decidable (_ = _))

/-- The low five bits of a word. -/
def destination : BitVec 32 :=
  insn &&& 31

def source : BitVec 32 :=
  (insn >>> 5) &&& 31

/-- The page that the ADRP at an index builds. -/
def adrpPage (base : BitVec 64) (i : Nat) (insn : BitVec 32) : BitVec 64 :=
  let immhi := ((((insn >>> 5) &&& 0x7FFFF) <<< 13).sshiftRight 13).signExtend 64
  let immlo := ((insn >>> 29) &&& 3).setWidth 64
  (address base i &&& ~~~0xFFF#64) + (((immhi <<< 2) ||| immlo) <<< 12)

/-- The immediate of an ADD. -/
def addImmediate : BitVec 64 :=
  ((insn >>> 10) &&& 0xFFF).setWidth 64

lemma not_isAddImmediate_of_isAdrp {insn : BitVec 32} (h : isAdrp insn) :
    ¬ isAddImmediate insn := by
  intro hadd
  have hbit : (insn &&& 0x9F000000#32) = (insn &&& 0xFFC00000#32) &&& 0x9F000000#32 := by
    rw [BitVec.and_assoc]
    rfl
  rw [isAdrp, hbit, hadd] at h
  exact absurd h (by decide)

/-- A page is never the mark of an empty entry: its low bit is clear. -/
lemma adrpPage_ne_noPage (base : BitVec 64) (i : Nat) (insn : BitVec 32) :
    adrpPage base i insn ≠ noPage := by
  intro h
  have hbit := congrArg (fun v => v.getLsbD 0) h
  rw [adrpPage, BitVec.getLsbD_add (by decide)] at hbit
  simp [noPage] at hbit

/-! ## The scan -/

variable {text : List (BitVec 32)} {base : BitVec 64}

/-- The pages held by the registers before the word at an index. -/
def pagesBefore (text : List (BitVec 32)) (base : BitVec 64) : Nat → BitVec 32 → BitVec 64
  | 0 => fun _ => noPage
  | k + 1 => (collectStep (wordCount text) base (pagesBefore text base k) k (word text k)).1

/-- The instruction leaves the page of the register in the table. -/
def keeps : Prop :=
  destination insn = d → isAddImmediate insn ∧ source insn = d

instance (d insn : BitVec 32) : Decidable (keeps d insn) :=
  inferInstanceAs (Decidable (_ → _))

section
variable {n i : Nat} {page : BitVec 32 → BitVec 64} {insn : BitVec 32}

lemma collectStep_of_isAdrp (h : isAdrp insn) :
    collectStep n base page i insn = (update page (destination insn) (adrpPage base i insn), []) :=
  if_pos h

lemma collectStep_of_isAddImmediate (h : isAddImmediate insn) :
    collectStep n base page i insn =
      (if destination insn ≠ source insn then update page (destination insn) noPage
        else page,
      if page (source insn) ≠ noPage ∧ base ≤ page (source insn) + addImmediate insn ∧
          index base (page (source insn) + addImmediate insn) < n ∧
          ((page (source insn) + addImmediate insn) &&& 3) = 0 then
        [page (source insn) + addImmediate insn]
      else []) :=
  (if_neg fun hadrp => not_isAddImmediate_of_isAdrp hadrp h).trans (if_pos h)

lemma collectStep_of_other (hadrp : ¬ isAdrp insn) (hadd : ¬ isAddImmediate insn) :
    collectStep n base page i insn = (update page (destination insn) noPage, []) :=
  (if_neg hadrp).trans (if_neg hadd)

lemma collectStep_page (d : BitVec 32) :
    (collectStep n base page i insn).1 d =
      if isAdrp insn ∧ destination insn = d then adrpPage base i insn
      else if keeps d insn then page d else noPage := by
  by_cases hd : destination insn = d
  · subst hd
    by_cases hadrp : isAdrp insn
    · rw [collectStep_of_isAdrp hadrp, if_pos ⟨hadrp, rfl⟩]
      exact update_self ..
    rw [if_neg fun h => hadrp h.1]
    by_cases hadd : isAddImmediate insn
    · rw [collectStep_of_isAddImmediate hadd]
      by_cases hsame : destination insn = source insn
      · have hkeeps : keeps (destination insn) insn := fun _ => ⟨hadd, hsame.symm⟩
        simp [if_pos hkeeps, if_neg (not_not_intro hsame)]
      · have hkeeps : ¬ keeps (destination insn) insn := fun h => hsame (h rfl).2.symm
        simp [if_neg hkeeps, if_pos (show destination insn ≠ source insn from hsame)]
    · have hkeeps : ¬ keeps (destination insn) insn := fun h => hadd (h rfl).1
      rw [collectStep_of_other hadrp hadd, if_neg hkeeps]
      exact update_self ..
  · have hkeeps : keeps d insn := fun h => absurd h hd
    have hupdate : ∀ v, update page (destination insn) v d = page d :=
      fun v => update_of_ne (Ne.symm hd) v page
    rw [if_neg fun h => hd h.2, if_pos hkeeps]
    by_cases hadrp : isAdrp insn
    · rw [collectStep_of_isAdrp hadrp]
      exact hupdate _
    by_cases hadd : isAddImmediate insn
    · rw [collectStep_of_isAddImmediate hadd]
      split
      · exact hupdate noPage
      · rfl
    · rw [collectStep_of_other hadrp hadd]
      exact hupdate _

lemma mem_collectStep_iff (target : BitVec 64) :
    target ∈ (collectStep n base page i insn).2 ↔
      isAddImmediate insn ∧ page (source insn) ≠ noPage ∧
        target = page (source insn) + addImmediate insn ∧
        base ≤ target ∧ index base target < n ∧ (target &&& 3) = 0 := by
  by_cases hadd : isAddImmediate insn
  · rw [collectStep_of_isAddImmediate hadd]
    dsimp only
    split <;> rename_i hcond
    · rw [mem_singleton]
      constructor
      · rintro rfl
        exact ⟨hadd, hcond.1, rfl, hcond.2⟩
      · exact fun h => h.2.2.1
    · refine ⟨fun h => absurd h not_mem_nil, ?_⟩
      rintro ⟨-, hpage, rfl, hrest⟩
      exact absurd ⟨hpage, hrest⟩ hcond
  · refine ⟨fun h => ?_, fun h => absurd h.1 hadd⟩
    by_cases hadrp : isAdrp insn
    · rw [collectStep_of_isAdrp hadrp] at h
      cases h
    · rw [collectStep_of_other hadrp hadd] at h
      cases h

end

/-- The page of a register is that of the ADRP whose destination no later instruction
dropped. -/
lemma pagesBefore_eq_iff (k : Nat) (d : BitVec 32) {v : BitVec 64} (hv : v ≠ noPage) :
    pagesBefore text base k d = v ↔
      ∃ i < k, isAdrp (word text i) ∧ destination (word text i) = d ∧
        v = adrpPage base i (word text i) ∧ ∀ m, i < m → m < k → keeps d (word text m) := by
  induction k with
  | zero => exact ⟨fun h => absurd h.symm hv, fun ⟨i, hi, _⟩ => absurd hi (Nat.not_lt_zero i)⟩
  | succ k ih =>
    rw [pagesBefore, collectStep_page]
    split <;> rename_i hadrp
    · constructor
      · rintro rfl
        exact ⟨k, lt_succ_self k, hadrp.1, hadrp.2, rfl, fun m hm hlt => absurd hlt (by omega)⟩
      rintro ⟨i, hi, -, -, rfl, hkeeps⟩
      -- an earlier ADRP would have to survive the one at k
      rcases Nat.lt_or_eq_of_le (le_of_lt_succ hi) with hlt | rfl
      · have hadd := (hkeeps k hlt (lt_succ_self k) hadrp.2).1
        exact absurd hadd (not_isAddImmediate_of_isAdrp hadrp.1)
      · rfl
    have hback : (∃ i < k + 1, isAdrp (word text i) ∧ destination (word text i) = d ∧
        v = adrpPage base i (word text i) ∧ ∀ m, i < m → m < k + 1 → keeps d (word text m)) ↔
        keeps d (word text k) ∧ ∃ i < k, isAdrp (word text i) ∧
          destination (word text i) = d ∧ v = adrpPage base i (word text i) ∧
            ∀ m, i < m → m < k → keeps d (word text m) := by
      constructor
      · rintro ⟨i, hi, ha, hd, hval, hkeeps⟩
        have hlt : i < k := by
          refine Nat.lt_of_le_of_ne (le_of_lt_succ hi) ?_
          rintro rfl
          exact hadrp ⟨ha, hd⟩
        exact ⟨hkeeps k hlt (lt_succ_self k), i, hlt, ha, hd, hval,
          fun m hm hmk => hkeeps m hm (lt_succ_of_lt hmk)⟩
      · rintro ⟨hk, i, hi, ha, hd, hval, hkeeps⟩
        refine ⟨i, lt_succ_of_lt hi, ha, hd, hval, fun m hm hmk => ?_⟩
        rcases Nat.lt_or_eq_of_le (le_of_lt_succ hmk) with hlt | rfl
        · exact hkeeps m hm hlt
        · exact hk
    rw [hback]
    split <;> rename_i hk
    · rw [ih, and_iff_right hk]
    · exact ⟨fun h => absurd h.symm hv, fun h => absurd h.1 hk⟩

variable {target : BitVec 64}

lemma mem_collectLoop_iff {n : Nat} (words : List (BitVec 32)) (k : Nat)
    (hwords : ∀ m (hm : m < words.length), words.get ⟨m, hm⟩ = word text (k + m))
    (hn : n = wordCount text) :
    target ∈ collectLoop n base words k (pagesBefore text base k) ↔
      ∃ m < words.length,
        target ∈ (collectStep n base (pagesBefore text base (k + m)) (k + m)
          (word text (k + m))).2 := by
  subst hn
  induction words generalizing k with
  | nil => simp [collectLoop]
  | cons insn words ih =>
    have hinsn : insn = word text k := hwords 0 (succ_pos _)
    subst hinsn
    have hrest := ih (k + 1) fun m hm => by
      rw [add_assoc, add_comm 1 m]
      exact hwords (m + 1) (succ_lt_succ hm)
    rw [collectLoop, mem_append]
    change _ ∨ target ∈ collectLoop _ base words (k + 1) (pagesBefore text base (k + 1)) ↔ _
    rw [hrest]
    constructor
    · rintro (h | ⟨m, hm, h⟩)
      · exact ⟨0, succ_pos _, h⟩
      · refine ⟨m + 1, succ_lt_succ hm, ?_⟩
        rwa [add_assoc, add_comm 1 m] at h
    · rintro ⟨_ | m, hm, h⟩
      · exact .inl h
      · refine .inr ⟨m, lt_of_succ_lt_succ hm, ?_⟩
        rwa [add_assoc, add_comm 1 m]

/-! ## Pairs -/

/-- An ADRP and a later ADD that reads its destination, at the two indices, and the address
that they build.  The register is none of the encodings of XZR and SP. -/
structure Pair (text : List (BitVec 32)) (base : BitVec 64) (i j : Nat) (d : BitVec 32)
    (target : BitVec 64) : Prop where
  later : i < j
  inside : j < text.length
  adrp : isAdrp (word text i)
  writes : destination (word text i) = d
  add : isAddImmediate (word text j)
  reads : source (word text j) = d
  sum : target = adrpPage base i (word text i) + addImmediate (word text j)

/-- The address is that of a word of the section. -/
structure InSection (text : List (BitVec 32)) (base target : BitVec 64) : Prop where
  above : base ≤ target
  below : index base target < text.length
  aligned : (target &&& 3) = 0

/-- The scan reports the address when it reaches the ADD of the pair. -/
def Collected (text : List (BitVec 32)) (base : BitVec 64) (i j : Nat) (d : BitVec 32)
    (target : BitVec 64) : Prop :=
  Pair text base i j d target ∧ j < wordCount text ∧ base ≤ target ∧
    index base target < wordCount text ∧ (target &&& 3) = 0 ∧
    ∀ k, i < k → k < j → keeps d (word text k)

lemma wordCount_le (text : List (BitVec 32)) : wordCount text ≤ text.length :=
  mod_le ..

lemma mem_collectStep_pagesBefore_iff {j : Nat} (hj : j < wordCount text) :
    target ∈ (collectStep (wordCount text) base (pagesBefore text base j) j (word text j)).2 ↔
      ∃ i d, Collected text base i j d target := by
  rw [mem_collectStep_iff]
  constructor
  · rintro ⟨hadd, hpage, hsum, hle, hlt, halign⟩
    obtain ⟨i, hi, hadrp, hd, hval, hkeeps⟩ := (pagesBefore_eq_iff j _ hpage).1 rfl
    rw [hval] at hsum
    exact ⟨i, _, ⟨hi, lt_of_lt_of_le hj (wordCount_le text), hadrp, hd, hadd, rfl, hsum⟩, hj,
      hle, hlt, halign, hkeeps⟩
  · rintro ⟨i, d, hpair, -, hle, hlt, halign, hkeeps⟩
    have hpage : pagesBefore text base j (source (word text j)) =
        adrpPage base i (word text i) := by
      rw [hpair.reads, pagesBefore_eq_iff j d (adrpPage_ne_noPage base i (word text i))]
      exact ⟨i, hpair.later, hpair.adrp, hpair.writes, rfl, hkeeps⟩
    rw [hpage]
    exact ⟨hpair.add, adrpPage_ne_noPage _ _ _, hpair.sum, hle, hlt, halign⟩

/-- The reported addresses are those of the collected pairs. -/
lemma mem_collectAdrpAddTargets_iff :
    target ∈ collectAdrpAddTargets text base ↔ ∃ i j d, Collected text base i j d target := by
  have hlen : (text.take (wordCount text)).length = wordCount text := by
    rw [length_take, min_eq_left (wordCount_le text)]
  have hwords : ∀ m (hm : m < (text.take (wordCount text)).length),
      (text.take (wordCount text)).get ⟨m, hm⟩ = word text (0 + m) := by
    intro m hm
    have hm' : m < text.length := by
      rw [hlen] at hm
      exact lt_of_lt_of_le hm (wordCount_le text)
    simp [word, getElem?_eq_getElem hm']
  have hloop : target ∈ collectAdrpAddTargets text base ↔ _ :=
    mem_collectLoop_iff (text.take (wordCount text)) 0 hwords rfl
  rw [hlen] at hloop
  refine hloop.trans ?_
  simp only [zero_add]
  constructor
  · rintro ⟨j, hj, h⟩
    obtain ⟨i, d, hc⟩ := (mem_collectStep_pagesBefore_iff hj).1 h
    exact ⟨i, j, d, hc⟩
  · rintro ⟨i, j, d, hc⟩
    exact ⟨j, hc.2.1, (mem_collectStep_pagesBefore_iff hc.2.1).2 ⟨i, d, hc⟩⟩

/-! ## Writes of the architecture -/

/-- Which general-purpose registers an instruction writes.  Nothing is assumed about the
instructions other than the two that the scan decodes: these write their destination,
unless it is encoded as 31. -/
structure WriteModel where
  writes : BitVec 32 → BitVec 32 → Prop
  adrp : ∀ insn, isAdrp insn → destination insn ≠ 31#32 → writes insn (destination insn)
  add : ∀ insn, isAddImmediate insn → destination insn ≠ 31#32 → writes insn (destination insn)

/-- An instruction that the scan does not decode and whose low five bits are the register:
it drops the page, even when it does not write the register. -/
def Drops : Prop :=
  ¬ isAdrp insn ∧ ¬ isAddImmediate insn ∧ destination insn = d

/-- Without a write, only the instructions that are not decoded drop the page. -/
lemma keeps_iff_of_not_writes (model : WriteModel) {d insn : BitVec 32} (hd : d ≠ 31#32)
    (hwrites : ¬ model.writes insn d) : keeps d insn ↔ ¬ Drops d insn := by
  constructor
  · rintro hkeeps ⟨-, hadd, hdest⟩
    exact hadd (hkeeps hdest).1
  intro hdrops hdest
  subst hdest
  by_cases hadrp : isAdrp insn
  · exact absurd (model.adrp insn hadrp hd) hwrites
  · by_cases hadd : isAddImmediate insn
    · exact absurd (model.add insn hadd hd) hwrites
    · exact absurd ⟨hadrp, hadd, rfl⟩ hdrops

/-- A pair with no write of its register in between, which builds an address of the
section, is collected exactly when no instruction in between that the scan does not decode
names the register in its low five bits, and the section is within the 32-bit count of its
words.  The collected pairs give the reported addresses. -/
theorem collected_iff (model : WriteModel) (text : List (BitVec 32)) (base : BitVec 64)
    (i j : Nat) (d : BitVec 32) (target : BitVec 64) (hpair : Pair text base i j d target)
    (hd : d ≠ 31#32) (hwrites : ∀ k, i < k → k < j → ¬ model.writes (word text k) d)
    (hsection : InSection text base target) :
    (Collected text base i j d target ↔
      j < wordCount text ∧ index base target < wordCount text ∧
        ∀ k, i < k → k < j → ¬ Drops d (word text k)) ∧
    (target ∈ collectAdrpAddTargets text base ↔ ∃ i j d, Collected text base i j d target) := by
  refine ⟨?_, mem_collectAdrpAddTargets_iff⟩
  have hkeeps : ∀ k, i < k → k < j → (keeps d (word text k) ↔ ¬ Drops d (word text k)) :=
    fun k hik hkj => keeps_iff_of_not_writes model hd (hwrites k hik hkj)
  constructor
  · rintro ⟨-, hj, -, hlt, -, hall⟩
    exact ⟨hj, hlt, fun k hik hkj => (hkeeps k hik hkj).1 (hall k hik hkj)⟩
  · rintro ⟨hj, hlt, hall⟩
    exact ⟨hpair, hj, hsection.above, hlt, hsection.aligned,
      fun k hik hkj => (hkeeps k hik hkj).2 (hall k hik hkj)⟩

/-- The model in which only ADRP and ADD write. -/
def leastWrites : WriteModel where
  writes insn d := (isAdrp insn ∨ isAddImmediate insn) ∧ destination insn = d
  adrp _ h _ := ⟨.inl h, rfl⟩
  add _ h _ := ⟨.inr h, rfl⟩

/-- ADRP X0 and ADD X0, X0, #4 at address 0 build the address of the second word. -/
theorem collected_adjacent : Pair [0x90000000#32, 0x91001000#32] 0#64 0 1 0#32 4#64 ∧
    Collected [0x90000000#32, 0x91001000#32] 0#64 0 1 0#32 4#64 := by
  have hpair : Pair [0x90000000#32, 0x91001000#32] 0#64 0 1 0#32 4#64 := by
    constructor <;> decide
  have hiff := collected_iff leastWrites _ _ _ _ _ _ hpair (by decide)
    (fun k hk hlt => absurd hlt (by omega)) (by constructor <;> decide)
  exact ⟨hpair, hiff.1.2 ⟨by decide, by decide, fun k hk hlt => absurd hlt (by omega)⟩⟩

/-- ADRP X0, a store of X0 through X1, ADD X0, X0, #4: whatever the other instructions
write, a store writes no register, and the address is not reported. -/
theorem store_between_drops :
    Pair [0x90000000#32, 0xF9000020#32, 0x91001000#32] 0#64 0 2 0#32 4#64 ∧
    InSection [0x90000000#32, 0xF9000020#32, 0x91001000#32] 0#64 4#64 ∧
    (∀ model : WriteModel, ¬ model.writes 0xF9000020#32 0#32 → ∀ k, 0 < k → k < 2 →
      ¬ model.writes (word [0x90000000#32, 0xF9000020#32, 0x91001000#32] k) 0#32) ∧
    4#64 ∉ collectAdrpAddTargets [0x90000000#32, 0xF9000020#32, 0x91001000#32] 0#64 := by
  refine ⟨by constructor <;> decide, by constructor <;> decide, fun model h k hk hlt => ?_,
    by decide⟩
  obtain rfl : k = 1 := by omega
  exact h

end Drippu.Recomp
