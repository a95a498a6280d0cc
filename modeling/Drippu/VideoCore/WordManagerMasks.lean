import Drippu.VideoCore.WordManager

/-!
# Video core - Masks and runs of a word manager

The masks that `IterateWords` hands over hold exactly the pages that a range of bytes
touches, and `IteratePages` splits a word into its maximal runs of ones.
-/

namespace Drippu.VideoCore.WordManager

open Library List BitVec

/-! ## Masks -/

lemma getLsbD_extractBits (pageStart pageEnd : Nat) {b : Nat} (hb : b < 64) :
    (extractBits (BitVec.allOnes 64) pageStart pageEnd).getLsbD b =
      decide (pageStart ≤ b ∧ b < pageEnd) := by
  simp only [extractBits, getLsbD_ushiftRight, getLsbD_shiftLeft, getLsbD_allOnes]
  rw [Bool.eq_iff_iff]
  simp only [Bool.and_eq_true, Bool.not_eq_true', decide_eq_true_eq, decide_eq_false_iff_not]
  omega

/-- A range of bytes touches a page. -/
def Touches (offset size q : Nat) : Prop :=
  0 < size ∧ q * bytesPerPage < offset + size ∧ offset < (q + 1) * bytesPerPage

instance (offset size q : Nat) : Decidable (Touches offset size q) :=
  inferInstanceAs (Decidable (_ ∧ _))

/-- The mask of the touched pages of a word. -/
def touchedMask (offset size wordIndex : Nat) : BitVec 64 :=
  extractBits (BitVec.allOnes 64) (offset / bytesPerPage - wordIndex * pagesPerWord)
    ((offset + size + bytesPerPage - 1) / bytesPerPage - wordIndex * pagesPerWord)

variable {offset : Nat} {mask : BitVec 64}

lemma getLsbD_touchedMask {size : Nat} (hsize : 0 < size) (wordIndex : Nat) {b : Nat}
    (hb : b < 64) :
    (touchedMask offset size wordIndex).getLsbD b =
      decide (Touches offset size (wordIndex * pagesPerWord + b)) := by
  rw [touchedMask, getLsbD_extractBits _ _ hb, decide_eq_decide]
  simp only [Touches, bytesPerPage, pagesPerWord]
  omega

lemma wordMasks_eq (n wordIndex first last : Nat) (h : first < (wordIndex + 1) * pagesPerWord) :
    wordMasks n wordIndex (first - wordIndex * pagesPerWord) (last - wordIndex * pagesPerWord) =
      (List.range' wordIndex n).map fun j => (j, extractBits (BitVec.allOnes 64)
        (first - j * pagesPerWord) (last - j * pagesPerWord)) := by
  induction n generalizing wordIndex with
  | zero => rfl
  | succ n ih =>
    have hnext := ih (wordIndex + 1) (h.trans_le (Nat.mul_le_mul_right _ (Nat.le_succ _)))
    rw [Nat.sub_eq_zero_of_le h.le, Nat.succ_mul, ← Nat.sub_sub] at hnext
    rw [wordMasks, hnext, range'_succ, map_cons]

/-- The number of words that a range touches. -/
def touchedWords (offset size : Nat) : Nat :=
  ((offset + size + bytesPerPage - 1) / bytesPerPage + pagesPerWord - 1) / pagesPerWord -
    offset / bytesPerWord

lemma iterateWords_eq {size : Nat} (hsize : 0 < size) (hend : offset + size ≤ sizeBytes) :
    iterateWords offset size =
      (List.range' (offset / bytesPerWord) (touchedWords offset size)).map fun j =>
        (j, touchedMask offset size j) := by
  have hclamp : ∀ x ≤ sizeBytes, signedClamp x = x := fun x hx => by
    simp only [sizeBytes] at hx
    rw [signedClamp, Nat.mod_eq_of_lt (by omega), if_pos (by omega)]
  have hmasks := wordMasks_eq (touchedWords offset size) (offset / bytesPerWord)
    (offset / bytesPerPage) ((offset + size + bytesPerPage - 1) / bytesPerPage)
    (by simp only [bytesPerWord, bytesPerPage, pagesPerWord]; omega)
  rw [iterateWords, hclamp _ (by omega), hclamp _ hend, if_neg (by omega)]
  simp only [getWordPage]
  refine Eq.trans ?_ hmasks
  simp only [touchedWords, numWords, bytesPerWord, bytesPerPage, pagesPerWord, sizeBytes] at hend ⊢
  congr 1 <;> omega

/-! ## Runs of ones -/

lemma countrZero_spec (h : mask ≠ 0#64) :
    mask.getLsbD (countrZero mask) = true ∧ ∀ j < countrZero mask, mask.getLsbD j = false := by
  obtain ⟨-, hle, hall, hstop⟩ := scan_spec (fun i => !mask.getLsbD i) (Nat.zero_le 64)
  have hbelow : ∀ j < countrZero mask, mask.getLsbD j = false := fun j hj => by
    simpa using hall j (Nat.zero_le j) hj
  refine ⟨?_, hbelow⟩
  rcases lt_or_ge (countrZero mask) 64 with hlt | hge
  · simpa [countrZero] using hstop hlt
  · exact absurd (eq_of_getLsbD_eq fun j hj => by simpa using hbelow j (hj.trans_le hge)) h

lemma countrOne_spec (mask : BitVec 64) :
    mask.getLsbD (countrOne mask) = false ∧ ∀ j < countrOne mask, mask.getLsbD j = true := by
  obtain ⟨-, hle, hall, hstop⟩ := scan_spec (fun i => mask.getLsbD i) (Nat.zero_le 64)
  refine ⟨?_, fun j hj => hall j (Nat.zero_le j) hj⟩
  rcases lt_or_ge (countrOne mask) 64 with hlt | hge
  · exact hstop hlt
  · exact getLsbD_of_ge _ _ hge

/-- One turn of the loop takes the first run of ones from an offset on. -/
lemma iteratePagesFrom_step {word : BitVec 64} (hne : word >>> offset ≠ 0#64) (fuel : Nat) :
    ∃ start size, iteratePagesFrom (fuel + 1) (word >>> offset) offset =
        (start, size) :: iteratePagesFrom fuel (word >>> (start + size)) (start + size) ∧
      offset ≤ start ∧ 0 < size ∧ start + size ≤ 64 ∧
      (∀ x, offset ≤ x → x < start → word.getLsbD x = false) ∧
      (∀ x, start ≤ x → x < start + size → word.getLsbD x = true) ∧
      word.getLsbD (start + size) = false := by
  let start := offset + countrZero (word >>> offset)
  let shifted := word >>> offset >>> countrZero (word >>> offset)
  let size := countrOne shifted
  obtain ⟨hset, hbelow⟩ := countrZero_spec hne
  obtain ⟨hclear, hones⟩ := countrOne_spec shifted
  have hshifted : shifted = word >>> start := (shiftRight_add word _ _).symm
  rw [getLsbD_ushiftRight] at hset
  simp only [getLsbD_ushiftRight] at hbelow
  rw [hshifted, getLsbD_ushiftRight, ← hshifted] at hclear
  have hones' : ∀ j < size, word.getLsbD (start + j) = true := fun j hj => by
    have := hones j hj
    rwa [hshifted, getLsbD_ushiftRight] at this
  have hpos : 0 < size := by
    by_contra hzero
    have hsize : size = 0 := by omega
    rw [show countrOne shifted = size from rfl, hsize, add_zero, hset] at hclear
    cases hclear
  have hend : start + size ≤ 64 := by
    have := lt_of_getLsbD (hones' (size - 1) (by omega))
    omega
  have hrest : (if size < pagesPerWord then shifted >>> size else 0#64) =
      word >>> (start + size) := by
    split <;> rename_i hlt
    · rw [hshifted, ← shiftRight_add]
    · -- a run of 64 ones is the whole word
      simp only [pagesPerWord] at hlt
      exact (ushiftRight_eq_zero (by omega)).symm
  refine ⟨start, size, ?_, Nat.le_add_right _ _, hpos, hend, fun x hx hlt => ?_,
    fun x hx hlt => ?_, hclear⟩
  · rw [iteratePagesFrom, if_neg hne, ← hrest]
  · have := hbelow (x - offset) (by omega)
    rwa [Nat.add_sub_cancel' hx] at this
  · have := hones' (x - start) (by omega)
    rwa [Nat.add_sub_cancel' hx] at this

/-- The loop from an offset on finds the runs of the bits from there on. -/
lemma iteratePagesFrom_spec (word : BitVec 64) {fuel : Nat} (hfuel : 64 - offset ≤ fuel) :
    Runs.Maximal (iteratePagesFrom fuel (word >>> offset) offset) ∧
      (∀ x, Runs.Covered (iteratePagesFrom fuel (word >>> offset) offset) x ↔
        offset ≤ x ∧ word.getLsbD x = true) ∧
      ∀ r ∈ iteratePagesFrom fuel (word >>> offset) offset,
        offset ≤ r.1 ∧ word.getLsbD r.1 = true ∧ r.1 + r.2 ≤ 64 := by
  have hempty : ∀ offset, word >>> offset = 0#64 →
      ∀ x, ¬ (offset ≤ x ∧ word.getLsbD x = true) := by
    rintro offset hzero x ⟨hx, hbit⟩
    have hclear := congrArg (fun v : BitVec 64 => v.getLsbD (x - offset)) hzero
    rw [getLsbD_ushiftRight, Nat.add_sub_cancel' hx, hbit] at hclear
    simp at hclear
  induction fuel generalizing offset with
  | zero =>
    have hzero : word >>> offset = 0#64 := ushiftRight_eq_zero (by omega)
    exact ⟨⟨nofun, List.Pairwise.nil⟩,
      fun x => ⟨nofun, fun h => absurd h (hempty offset hzero x)⟩, nofun⟩
  | succ fuel ih =>
    by_cases hzero : word >>> offset = 0#64
    · rw [iteratePagesFrom, if_pos hzero]
      exact ⟨⟨nofun, List.Pairwise.nil⟩,
        fun x => ⟨nofun, fun h => absurd h (hempty offset hzero x)⟩, nofun⟩
    obtain ⟨start, size, heq, hstart, hpos, hend, hbefore, hones, hclear⟩ :=
      iteratePagesFrom_step hzero fuel
    have hfuel' : 64 - (start + size) ≤ fuel := by omega
    obtain ⟨hmax, hcovered, hruns⟩ := ih hfuel'
    rw [heq]
    refine ⟨⟨forall_mem_cons.2 ⟨hpos, hmax.pos⟩, pairwise_cons.2
      ⟨fun r hr => ?_, hmax.sorted⟩⟩, fun x => ?_, forall_mem_cons.2
      ⟨⟨hstart, hones start le_rfl (by omega), hend⟩, fun r hr => ?_⟩⟩
    · -- the bit behind the run is clear, so that no run starts there
      obtain ⟨hle, hset, -⟩ := hruns r hr
      refine lt_of_le_of_ne hle fun hstop => ?_
      rw [← hstop, hclear] at hset
      cases hset
    · rw [Runs.covered_cons, hcovered]
      constructor
      · rintro (⟨hx, hlt⟩ | ⟨hx, hbit⟩)
        · exact ⟨hstart.trans hx, hones x hx hlt⟩
        · exact ⟨by omega, hbit⟩
      · rintro ⟨hx, hbit⟩
        rcases lt_or_ge x start with hlt | hge
        · rw [hbefore x hx hlt] at hbit
          cases hbit
        · rcases lt_or_ge x (start + size) with hlt | hge'
          · exact .inl ⟨hge, hlt⟩
          · exact .inr ⟨hge', hbit⟩
    · obtain ⟨hle, hrest⟩ := hruns r hr
      exact ⟨by omega, hrest⟩

/-- The runs of a word are maximal and hold exactly its ones. -/
lemma iteratePages_spec (word : BitVec 64) :
    Runs.Maximal (iteratePages word) ∧
      (∀ x, Runs.Covered (iteratePages word) x ↔ word.getLsbD x = true) ∧
      ∀ r ∈ iteratePages word, r.1 + r.2 ≤ 64 := by
  obtain ⟨hmax, hcovered, hruns⟩ := iteratePagesFrom_spec word (Nat.sub_le 64 0)
  exact ⟨hmax, fun x => (hcovered x).trans (by simp), fun r hr => (hruns r hr).2.2⟩

/-! ## Runs of several words -/

/-- A run moved to its word. -/
def toPages (wordIndex : Nat) (r : Nat × Nat) : Nat × Nat :=
  (wordIndex * pagesPerWord + r.1, r.2)

variable (w : Nat × BitVec 64) (words : List (Nat × BitVec 64))

/-- The runs of some words. -/
def wordRuns : List (Nat × Nat) :=
  words.flatMap fun w => (iteratePages w.2).map (toPages w.1)

lemma covered_toPages (x : Nat) :
    Runs.Covered ((iteratePages w.2).map (toPages w.1)) x ↔
      x / pagesPerWord = w.1 ∧ w.2.getLsbD (x % pagesPerWord) = true := by
  obtain ⟨-, hcovered, hruns⟩ := iteratePages_spec w.2
  simp only [pagesPerWord]
  constructor
  · rintro ⟨_, hmem, hx⟩
    obtain ⟨r, hr, rfl⟩ := mem_map.1 hmem
    have hle := hruns r hr
    simp only [Runs.Has, toPages, pagesPerWord] at hx
    refine ⟨by omega, (hcovered _).1 ⟨r, hr, ?_⟩⟩
    simp only [Runs.Has]
    omega
  · rintro ⟨hword, hbit⟩
    obtain ⟨r, hr, hx⟩ := (hcovered _).2 hbit
    refine ⟨_, mem_map_of_mem hr, ?_⟩
    simp only [Runs.Has, toPages, pagesPerWord] at hx ⊢
    omega

lemma covered_wordRuns (x : Nat) :
    Runs.Covered (wordRuns words) x ↔
      ∃ w ∈ words, x / pagesPerWord = w.1 ∧ w.2.getLsbD (x % pagesPerWord) = true := by
  rw [wordRuns, Runs.covered_flatMap]
  simp [covered_toPages]

lemma exists_getLsbD {word : BitVec 64} (h : word ≠ 0#64) : ∃ b < 64, word.getLsbD b = true :=
  ⟨_, lt_of_getLsbD (countrZero_spec h).1, (countrZero_spec h).1⟩

lemma exists_covered_wordRuns :
    (∃ x, Runs.Covered (wordRuns words) x) ↔ ∃ w ∈ words, w.2 ≠ 0#64 := by
  simp only [covered_wordRuns]
  constructor
  · rintro ⟨x, w, hw, -, hbit⟩
    refine ⟨w, hw, fun hzero => ?_⟩
    rw [hzero, getLsbD_zero] at hbit
    cases hbit
  · rintro ⟨w, hw, hne⟩
    obtain ⟨b, hb, hbit⟩ := exists_getLsbD hne
    have hdiv : (w.1 * pagesPerWord + b) / pagesPerWord = w.1 := by
      simp only [pagesPerWord]
      omega
    have hmod : (w.1 * pagesPerWord + b) % pagesPerWord = b := by
      simp only [pagesPerWord]
      omega
    exact ⟨w.1 * pagesPerWord + b, w, hw, hdiv, by rw [hmod]; exact hbit⟩

/-- The words are visited in order, so that their runs ascend. -/
lemma ascending_wordRuns {words : List (Nat × BitVec 64)}
    (hsorted : words.Pairwise fun v w => v.1 < w.1) : Runs.Ascending (wordRuns words) := by
  induction words with
  | nil => exact .nil
  | cons w words ih =>
    obtain ⟨hw, hsorted⟩ := pairwise_cons.1 hsorted
    obtain ⟨hmax, -, hruns⟩ := iteratePages_spec w.2
    refine Runs.Ascending.append ⟨fun _ hmem => ?_, ?_⟩ (ih hsorted) fun _ hmem _ ht => ?_
    · obtain ⟨r, hr, rfl⟩ := mem_map.1 hmem
      exact hmax.pos r hr
    · refine pairwise_map.2 (hmax.sorted.imp fun hlt => ?_)
      simp only [toPages]
      omega
    · obtain ⟨r, hr, rfl⟩ := mem_map.1 hmem
      obtain ⟨v, hv, ht⟩ := mem_flatMap.1 ht
      obtain ⟨t, -, rfl⟩ := mem_map.1 ht
      have := hw v hv
      have := hruns r hr
      simp only [toPages, pagesPerWord]
      omega

/-! ## Hulls -/

lemma countlZero_spec (h : mask ≠ 0#64) :
    countlZero mask < 64 ∧ mask.getLsbD (63 - countlZero mask) = true ∧
      ∀ j, mask.getLsbD j = true → j ≤ 63 - countlZero mask := by
  obtain ⟨-, hle, hall, hstop⟩ := scan_spec (fun i => !mask.getLsbD (63 - i)) (Nat.zero_le 64)
  have habove : ∀ i < countlZero mask, mask.getLsbD (63 - i) = false := fun i hi => by
    simpa using hall i (Nat.zero_le i) hi
  have hlt : countlZero mask < 64 := by
    by_contra hge
    obtain ⟨b, hb, hbit⟩ := exists_getLsbD h
    have hclear := habove (63 - b) (by omega)
    rw [show 63 - (63 - b) = b by omega, hbit] at hclear
    cases hclear
  refine ⟨hlt, by simpa [countlZero] using hstop hlt, fun j hj => ?_⟩
  by_contra hgt
  have hj64 := lt_of_getLsbD hj
  have hclear := habove (63 - j) (by omega)
  rw [show 63 - (63 - j) = j by omega, hj] at hclear
  cases hclear

lemma isHull_word (h : w.2 ≠ 0#64) :
    Runs.IsHull (fun x => x / pagesPerWord = w.1 ∧ w.2.getLsbD (x % pagesPerWord) = true)
      (w.1 * pagesPerWord + countrZero w.2) (w.1 * pagesPerWord + (63 - countlZero w.2)) := by
  obtain ⟨hset, hbelow⟩ := countrZero_spec h
  obtain ⟨hlt, hlast, habove⟩ := countlZero_spec h
  have hfirst := lt_of_getLsbD hset
  have hat : ∀ b < 64, (w.1 * pagesPerWord + b) / pagesPerWord = w.1 ∧
      (w.1 * pagesPerWord + b) % pagesPerWord = b := fun b hb => by
    simp only [pagesPerWord]
    omega
  refine ⟨⟨(hat _ hfirst).1, by rw [(hat _ hfirst).2]; exact hset⟩,
    ⟨(hat _ (by omega)).1, by rw [(hat _ (by omega)).2]; exact hlast⟩, ?_⟩
  rintro x ⟨hword, hbit⟩
  have hle := habove _ hbit
  have hge : countrZero w.2 ≤ x % pagesPerWord := by
    by_contra hlt
    rw [hbelow _ (not_le.1 hlt)] at hbit
    cases hbit
  simp only [pagesPerWord] at *
  omega

/-- One turn of the loop of `ModifiedRegion`. -/
def hullStep (r : Nat × Nat) (w : Nat × BitVec 64) : Nat × Nat :=
  if w.2 ≠ 0#64 then
    (min r.1 (w.1 * pagesPerWord + countrZero w.2),
      w.1 * pagesPerWord + (pagesPerWord - countlZero w.2))
  else r

lemma foldl_hullStep {words : List (Nat × BitVec 64)}
    (hsorted : words.Pairwise fun v w => v.1 < w.1) (hsmall : ∀ w ∈ words, w.1 < numWords) :
    (words.foldl hullStep (2 ^ 64 - 1, 0) = (2 ^ 64 - 1, 0) ∧
        ∀ x, ¬ Runs.Covered (wordRuns words) x) ∨
      ∃ lo hi, words.foldl hullStep (2 ^ 64 - 1, 0) = (lo, hi + 1) ∧
        Runs.IsHull (Runs.Covered (wordRuns words)) lo hi := by
  induction words using List.reverseRecOn with
  | nil => exact .inl ⟨rfl, fun x => Runs.covered_nil⟩
  | append_singleton words w ih =>
    obtain ⟨hsorted, -, hbefore⟩ := pairwise_append.1 hsorted
    have hcovered : ∀ x, Runs.Covered (wordRuns (words ++ [w])) x ↔
        Runs.Covered (wordRuns words) x ∨
          (x / pagesPerWord = w.1 ∧ w.2.getLsbD (x % pagesPerWord) = true) := fun x => by
      simp [covered_wordRuns]
    have hfold := ih hsorted fun v hv => hsmall v (by simp [hv])
    rw [foldl_append, foldl_cons, foldl_nil]
    by_cases hzero : w.2 = 0#64
    · have hsame : ∀ x, Runs.Covered (wordRuns words) x ↔
          Runs.Covered (wordRuns (words ++ [w])) x := fun x => by
        rw [hcovered, hzero]
        simp
      rw [hullStep, if_neg (absurd hzero)]
      rcases hfold with ⟨heq, hnone⟩ | ⟨lo, hi, heq, hhull⟩
      · exact .inl ⟨heq, fun x hx => hnone x ((hsame x).2 hx)⟩
      · exact .inr ⟨lo, hi, heq, hhull.congr hsame⟩
    have hword := isHull_word w hzero
    have hlast := (countlZero_spec hzero).1
    have hw := hsmall w (by simp)
    have hpages : w.1 * pagesPerWord + (pagesPerWord - countlZero w.2) =
        w.1 * pagesPerWord + (63 - countlZero w.2) + 1 := by
      simp only [pagesPerWord]
      omega
    rw [hullStep, if_pos hzero, hpages]
    rcases hfold with ⟨heq, hnone⟩ | ⟨lo, hi, heq, hhull⟩
    · refine .inr ⟨_, _, ?_, hword.congr fun x => ?_⟩
      · have hfirst := lt_of_getLsbD (countrZero_spec hzero).1
        rw [heq, min_eq_right]
        simp only [numWords, pagesPerWord, sizeBytes, bytesPerWord, bytesPerPage] at hw ⊢
        omega
      · rw [hcovered]
        exact ⟨.inr, fun h => h.resolve_left (hnone x)⟩
    -- the pages of the earlier words are below this word
    have hhi : hi ≤ w.1 * pagesPerWord + (63 - countlZero w.2) := by
      obtain ⟨v, hv, hindex, -⟩ := (covered_wordRuns words hi).1 hhull.hi_mem
      have := hbefore v hv w (by simp)
      simp only [pagesPerWord] at hindex ⊢
      omega
    have hunion := hhull.union hword
    rw [max_eq_right hhi] at hunion
    exact .inr ⟨_, _, by rw [heq], hunion.congr fun x => (hcovered x).symm⟩

end Drippu.VideoCore.WordManager
