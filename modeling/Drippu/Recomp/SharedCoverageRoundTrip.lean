import Drippu.Recomp.JsonReads
import Drippu.Recomp.SharedCoverage

/-!
# Recomp - Shared coverage files round trip

Coverage that is in bounds is read back as it was written: the writer produces the text of a
JSON object, which the reader takes apart again, and the validator accepts every part.  What
`toShared` exports is in bounds.

Main results:

- Theorem `shared_round_trip`: exported coverage is imported as it was.
- Theorem `export_eq`: names and encodings do not show in an export.
-/

namespace Drippu.RecompGaps

open Library List SortedMap Option Nat Prod

/-! ## Identifiers -/

lemma plain_append {s t : Text} (hs : Plain s) (ht : Plain t) : Plain (s ++ t) := by
  intro c hc
  exact (mem_append.1 hc).elim (hs c) (ht c)

lemma upper_hexDigit : ∀ d < 16, hexDigit d.digitChar.toUpper = some d := by
  decide

lemma plain_digitChar : ∀ d < 16, d.digitChar ≠ '"' ∧ d.digitChar ≠ '\\' ∧
    0x20 ≤ d.digitChar.toNat ∧ d.digitChar.toUpper ≠ '"' ∧ d.digitChar.toUpper ≠ '\\' ∧
    0x20 ≤ d.digitChar.toUpper.toNat := by
  decide

variable {text : Text} (n levels : Nat)

lemma plain_hex : Plain (hex n) := by
  intro c hc
  obtain ⟨d, hd, rfl⟩ := mem_toDigits (b := 16) (by decide) n c hc
  obtain ⟨h₁, h₂, h₃, -⟩ := plain_digitChar d hd
  exact ⟨h₁, h₂, h₃⟩

lemma titleIdHex_eq :
    titleIdHex n = List.replicate (16 - (hex n).length) '0' ++ (hex n).map Char.toUpper := by
  rw [titleIdHex, List.leftpad, length_map]

lemma length_titleIdHex {n : Nat} (hn : n < 2 ^ 64) : (titleIdHex n).length = 16 := by
  have hle := length_hex hn
  rw [titleIdHex_eq, length_append, length_replicate, length_map]
  omega

lemma plain_titleIdHex : Plain (titleIdHex n) := by
  rw [titleIdHex_eq]
  refine plain_append (fun c hc => ?_) fun c hc => ?_
  · rw [eq_of_mem_replicate hc]
    decide
  · obtain ⟨c', hc', rfl⟩ := mem_map.1 hc
    obtain ⟨d, hd, rfl⟩ := mem_toDigits (b := 16) (by decide) n c' hc'
    obtain ⟨-, -, -, hplain⟩ := plain_digitChar d hd
    exact hplain

lemma parseHex_titleIdHex {n : Nat} (hn : n < 2 ^ 64) : parseHex (titleIdHex n) = some n := by
  have hlength := length_titleIdHex hn
  have hzeros : ∀ k, (List.replicate k '0').foldlM
      (fun v c => (hexDigit c).map fun d => v * 16 % 2 ^ 64 + d) 0 = some 0 := by
    intro k
    induction k with
    | zero => rfl
    | succ k ih =>
      rw [List.replicate_succ, foldlM_cons]
      exact ih
  rw [parseHex, if_neg]
  · rw [titleIdHex_eq, foldlM_append, hzeros]
    exact foldlM_hex Char.toUpper upper_hexDigit hn
  · rintro (hnil | hlong)
    · rw [hnil] at hlength
      cases hlength
    · omega

lemma mapM_lowerHexDigit {out : Text} (h : text.mapM lowerHexDigit = some out) :
    out.length = text.length ∧ ∀ c ∈ out, ('0' ≤ c ∧ c ≤ '9') ∨ ('a' ≤ c ∧ c ≤ 'f') := by
  induction text generalizing out with
  | nil =>
    obtain rfl : [] = out := some.inj h
    exact ⟨rfl, nofun⟩
  | cons c text ih =>
    rw [mapM_cons] at h
    obtain ⟨l, hl, h⟩ := bind_eq_some_iff.1 h
    obtain ⟨rest, hrest, h⟩ := bind_eq_some_iff.1 h
    obtain rfl : l :: rest = out := some.inj h
    obtain ⟨hlength, hdigits⟩ := ih hrest
    refine ⟨congrArg (· + 1) hlength, forall_mem_cons.2 ⟨?_, hdigits⟩⟩
    simp only [lowerHexDigit, ite_none_right_eq_some, some.injEq] at hl
    rw [← hl.2]
    exact hl.1

lemma plain_lowerHex {c : Char} (h : ('0' ≤ c ∧ c ≤ '9') ∨ ('a' ≤ c ∧ c ≤ 'f')) :
    c ≠ '"' ∧ c ≠ '\\' ∧ 0x20 ≤ c.toNat := by
  refine ⟨?_, ?_, ?_⟩
  · rintro rfl
    exact absurd h (by decide)
  · rintro rfl
    exact absurd h (by decide)
  · have hle : '0' ≤ c := h.elim And.left fun h => le_trans (by decide) h.1
    exact le_trans (by decide) (show '0'.toNat ≤ c.toNat from hle)

lemma plain_of_canonical {id : Text} (h : isCanonicalBuildId id = true) : Plain id := by
  obtain ⟨hlength, hid⟩ : id.length = 64 ∧ normalizeBuildId id = id := of_decide_eq_true h
  have hne : id ≠ [] := fun hnil => by
    rw [hnil] at hlength
    cases hlength
  rw [normalizeBuildId] at hid
  split at hid
  · exact (hne hid.symm).elim
  split at hid
  · exact (hne hid.symm).elim
  rename_i out hout
  split at hid
  · exact (hne hid.symm).elim
  obtain ⟨hout, hdigits⟩ := mapM_lowerHexDigit hout
  have hpad : out.rightpad 64 '0' = out := by
    rw [List.rightpad, hout, hlength, tsub_self, List.replicate_zero, append_nil]
  rw [hpad] at hid
  rw [← hid]
  exact fun c hc => plain_lowerHex (hdigits c hc)

/-! ## The file as JSON -/

lemma blank_space : Blank " ".toList := by
  decide

lemma blank_line : Blank "\n".toList := by
  decide

lemma plain_buildId : Plain "build_id".toList := by
  decide

lemma plain_hits : Plain "hits".toList := by
  decide

lemma plain_offsets : Plain "offsets".toList := by
  decide

section
variable {α : Type} {first ws : Text} {write : α → Text} {value : α → Value}

/-- The items of a written array, with the white space in front of them. -/
def spacedItems (first ws : Text) (write : α → Text) (value : α → Value) :
    List α → List (Text × Value)
  | [] => []
  | a :: rest => (first ++ write a, value a) :: rest.map fun b => (ws ++ write b, value b)

lemma map_snd_spacedItems (l : List α) :
    (spacedItems first ws write value l).map snd = l.map value := by
  cases l <;> simp [spacedItems]

lemma writeItems_eq {first others : String} (h : others.toList = ',' :: ws) (l : List α) :
    writeItems first others write l =
      itemsText ((spacedItems first.toList ws write value l).map fst) := by
  cases l <;> simp [writeItems, spacedItems, itemsText, h, flatMap_map]

lemma reads_items {levels : Nat} {first others : String} (hfirst : Blank first.toList)
    (hothers : others.toList = ',' :: ws) (hws : Blank ws) {l : List α}
    (h : ∀ a ∈ l, Reads (levels + 1) (write a) (value a)) {after : Text} (hafter : Blank after) :
    Reads (levels + 2) ('[' :: (writeItems first others write l ++ (after ++ [']'])))
      (.array (l.map value)) := by
  have hitems : ∀ e ∈ spacedItems first.toList ws write value l, Reads (levels + 1) e.1 e.2 := by
    cases l with
    | nil => exact nofun
    | cons a l =>
      obtain ⟨ha, hl⟩ := forall_mem_cons.1 h
      refine forall_mem_cons.2 ⟨ha.blank hfirst, fun e he => ?_⟩
      obtain ⟨b, hb, rfl⟩ := mem_map.1 he
      exact (hl b hb).blank hws
  have hread := reads_array hafter hitems
  rw [map_snd_spacedItems] at hread
  rw [writeItems_eq hothers]
  exact hread

end

def offsetValue (e : Nat × Nat) : Value := .array [.string (hex e.1), .number (decimal e.2)]

lemma reads_offset (e : Nat × Nat) : Reads (levels + 2) (writeOffset e) (offsetValue e) := by
  have htext : writeOffset e = arrayText [quote (hex e.1), " ".toList ++ decimal e.2] [] := by
    simp [writeOffset, arrayText, itemsText, quote]
  rw [htext]
  have hitems : ∀ i ∈ [(quote (hex e.1), Value.string (hex e.1)),
      (" ".toList ++ decimal e.2, .number (decimal e.2))], Reads (levels + 1) i.1 i.2 := by
    simp only [forall_mem_cons, not_mem_nil, false_implies, implies_true, and_true]
    exact ⟨reads_string levels (plain_hex e.1), (reads_decimal levels e.2).blank blank_space⟩
  exact reads_array blank_nil hitems

def moduleValue (e : Text × SharedModule) : Value :=
  .object [("build_id".toList, .string e.1), ("hits".toList, .number (decimal e.2.hits)),
    ("offsets".toList, .array (e.2.offsets.entries.map offsetValue))]

lemma reads_module {e : Text × SharedModule} (h : Plain e.1) :
    Reads (levels + 4) (writeModule e) (moduleValue e) := by
  have htext : writeModule e = objectText
      [⟨[], "build_id".toList, " ".toList ++ quote e.1, .string e.1⟩,
        ⟨" ".toList, "hits".toList, " ".toList ++ decimal e.2.hits, .number (decimal e.2.hits)⟩,
        ⟨" ".toList, "offsets".toList, " ".toList ++
          ('[' :: (writeItems "" ", " writeOffset e.2.offsets.entries ++ ([] ++ [']']))),
          .array (e.2.offsets.entries.map offsetValue)⟩] [] := by
    unfold writeModule
    simp [objectText, itemsText, Member.write, quote]
  rw [htext]
  refine reads_object blank_nil _ _ ?_
  simp only [forall_mem_cons, not_mem_nil, false_implies, implies_true, and_true]
  refine ⟨⟨blank_nil, plain_buildId, (reads_string _ h).blank blank_space⟩,
    ⟨blank_space, plain_hits, (reads_decimal _ _).blank blank_space⟩,
    ⟨blank_space, plain_offsets, Reads.blank ?_ blank_space⟩⟩
  exact reads_items (by decide) rfl blank_space (fun e _ => reads_offset levels e) blank_nil

def withoutImageValue (e : Text × Nat) : Value :=
  .object [("build_id".toList, .string e.1), ("hits".toList, .number (decimal e.2))]

lemma reads_withoutImage {e : Text × Nat} (h : Plain e.1) :
    Reads (levels + 2) (writeWithoutImage e) (withoutImageValue e) := by
  have htext : writeWithoutImage e = objectText
      [⟨[], "build_id".toList, " ".toList ++ quote e.1, .string e.1⟩,
        ⟨" ".toList, "hits".toList, " ".toList ++ decimal e.2, .number (decimal e.2)⟩] [] := by
    unfold writeWithoutImage
    simp [objectText, itemsText, Member.write, quote]
  rw [htext]
  refine reads_object blank_nil _ _ ?_
  simp only [forall_mem_cons, not_mem_nil, false_implies, implies_true, and_true]
  exact ⟨⟨blank_nil, plain_buildId, (reads_string _ h).blank blank_space⟩,
    ⟨blank_space, plain_hits, (reads_decimal _ _).blank blank_space⟩⟩

variable (d : SharedCoverage) (key : String) {α : Type}

/-- The white space behind the last of some modules. -/
def afterModules (l : List α) : Text := if l = [] then [] else "\n  ".toList

lemma blank_afterModules (l : List α) : Blank (afterModules l) := by
  rw [afterModules]
  split
  · exact blank_nil
  · decide

lemma writeModules_eq (write : α → Text) (l : List α) :
    writeModules write l =
      '[' :: (writeItems "\n    " ",\n    " write l ++ (afterModules l ++ [']'])) := by
  unfold writeModules afterModules
  split <;> simp

lemma reads_modules {levels : Nat} {write : α → Text} {value : α → Value} {l : List α}
    (h : ∀ a ∈ l, Reads (levels + 1) (write a) (value a)) :
    Reads (levels + 2) (writeModules write l) (.array (l.map value)) := by
  have hothers : ",\n    ".toList = ',' :: "\n    ".toList := by simp
  rw [writeModules_eq]
  exact reads_items (by decide) hothers (by decide) h (blank_afterModules l)

/-- A field of the file. -/
def field (text : Text) (value : Value) : Member :=
  ⟨"\n  ".toList, key.toList, " ".toList ++ text, value⟩

lemma field_write (text : Text) (value : Value) :
    (field key text value).write = "\n".toList ++ writeField key text := by
  simp [field, Member.write, writeField, quote]

/-- A count of the file. -/
def countField (count : Nat) : Member :=
  field key (decimal count) (.number (decimal count))

def sharedMembers : List Member :=
  [field "schema" (quote kSharedSchemaName.toList) (.string kSharedSchemaName.toList),
    countField "schema_version" kSharedSchemaVersion,
    field "description" (quote kSharedDescription.toList) (.string kSharedDescription.toList),
    field "title_id" (quote d.titleId) (.string d.titleId),
    countField "runs" d.runs,
    countField "hybrid_runs" d.hybridRuns,
    countField "strict_static_runs" d.strictRuns,
    countField "clean_runs" d.cleanRuns,
    field "truncated" (if d.truncated then "true".toList else "false".toList) (.bool d.truncated),
    countField "unattributed_misses" d.unattributedMisses,
    countField "unsupported_instruction_kinds" d.unsupportedInstructionKinds,
    countField "unsupported_instruction_hits" d.unsupportedInstructionHits,
    field "modules" (writeModules writeModule d.modules.entries)
      (.array (d.modules.entries.map moduleValue)),
    field "modules_without_image" (writeModules writeWithoutImage d.modulesWithoutImage.entries)
      (.array (d.modulesWithoutImage.entries.map withoutImageValue))]

/-- The file as a JSON value. -/
def sharedValue : Value :=
  .object ((sharedMembers d).map fun m => (m.key, m.value))

lemma separator_eq : ",\n".toList = ',' :: "\n".toList := by
  simp

lemma opening_eq : "\x7b\n".toList = '{' :: "\n".toList := by
  simp

lemma closing_eq : "\x7d\n".toList = '}' :: "\n".toList := by
  simp

lemma serializeShared_eq :
    serializeShared d = objectText (sharedMembers d) "\n".toList ++ "\n".toList := by
  unfold serializeShared sharedMembers objectText countField
  simp only [separator_eq, opening_eq, closing_eq, map_cons, map_nil, field_write,
    itemsText, flatMap_cons, flatMap_nil, List.append_assoc, List.cons_append,
    nil_append, append_nil]

/-! ## Bounds -/

/-- Offsets with their counts in the bounds of the schema. -/
def BoundedOffsets (offsets : SortedMap Nat Nat) : Prop :=
  offsets.size ≤ kMaxOffsetsPerModule ∧
    ∀ o ∈ offsets.entries, validSharedOffset o.1 = true ∧ o.2 ≤ kMaxSharedCount

/-- A module in the bounds of the schema. -/
def BoundedModule (e : Text × SharedModule) : Prop :=
  isCanonicalBuildId e.1 = true ∧ e.2.hits ≤ kMaxSharedCount ∧ BoundedOffsets e.2.offsets

/-- Coverage in the bounds of the schema. -/
structure Valid (d : SharedCoverage) : Prop where
  titleId : ∃ id, id ≠ 0 ∧ id < 2 ^ 64 ∧ d.titleId = titleIdHex id
  counts : ∀ c ∈ [d.runs, d.hybridRuns, d.strictRuns, d.cleanRuns, d.unattributedMisses,
    d.unsupportedInstructionKinds, d.unsupportedInstructionHits], c ≤ kMaxSharedCount
  modules : d.modules.size ≤ kMaxModules
  module : ∀ e ∈ d.modules.entries, isCanonicalBuildId e.1 = true ∧ e.2.hits ≤ kMaxSharedCount ∧
    e.2.offsets.size ≤ kMaxOffsetsPerModule ∧
    ∀ o ∈ e.2.offsets.entries, validSharedOffset o.1 = true ∧ o.2 ≤ kMaxSharedCount
  withoutImages : d.modulesWithoutImage.size ≤ kMaxModules
  withoutImage : ∀ e ∈ d.modulesWithoutImage.entries, isCanonicalBuildId e.1 = true ∧
    e.2 ≤ kMaxSharedCount

lemma plain_shared : Plain kSharedSchemaName.toList ∧ Plain kSharedDescription.toList := by
  decide

lemma field_ok {levels : Nat} {key : String} (hkey : Plain key.toList) {value : Value}
    (h : Reads (levels + 1) text value) : (field key text value).Ok (levels + 1) :=
  ⟨by change Blank "\n  ".toList; decide, hkey, h.blank blank_space⟩

lemma countField_ok {key : String} (hkey : Plain key.toList) (count : Nat) :
    (countField key count).Ok (levels + 1) :=
  field_ok hkey (reads_decimal levels count)

lemma document_serializeShared {d : SharedCoverage} (h : Valid d) :
    document (serializeShared d) = .ok (sharedValue d) := by
  obtain ⟨id, -, -, hid⟩ := h.titleId
  have htitle : Plain d.titleId := hid ▸ plain_titleIdHex id
  have hmembers : ∀ m ∈ sharedMembers d, m.Ok (15 + 1) := by
    unfold sharedMembers
    simp only [forall_mem_cons, not_mem_nil, false_implies, implies_true, and_true]
    refine ⟨field_ok (by decide) (reads_string _ plain_shared.1), countField_ok _ (by decide) _,
      field_ok (by decide) (reads_string _ plain_shared.2),
      field_ok (by decide) (reads_string _ htitle), countField_ok _ (by decide) _,
      countField_ok _ (by decide) _, countField_ok _ (by decide) _, countField_ok _ (by decide) _,
      field_ok (by decide) (reads_bool _ _), countField_ok _ (by decide) _,
      countField_ok _ (by decide) _, countField_ok _ (by decide) _,
      field_ok (by decide) (reads_modules fun e he => ?_),
      field_ok (by decide) (reads_modules fun e he => ?_)⟩
    · exact reads_module 11 (plain_of_canonical (h.module e he).1)
    · exact reads_withoutImage 13 (plain_of_canonical (h.withoutImage e he).1)
  have hread : parse maxLevels (objectText (sharedMembers d) "\n".toList ++ "\n".toList) =
      .ok (sharedValue d, "\n".toList) :=
    reads_object blank_line _ _ hmembers _ (by rintro _ ⟨⟩; decide)
  rw [document, serializeShared_eq, hread]
  rfl

/-! ## The validator -/

lemma sharedCount_decimal {count : Nat} (h : count ≤ kMaxSharedCount) (what : String) :
    sharedCount (some (.number (decimal count))) what = .ok count := by
  have hmax : kMaxSharedCount ≤ maxU64 := by decide
  rw [sharedCount, asCount_decimal (h.trans hmax)]
  exact if_pos h

lemma parseOffset_value {offsets : SortedMap Nat Nat} {e : Nat × Nat}
    (hvalid : validSharedOffset e.1 = true) (hcount : e.2 ≤ kMaxSharedCount)
    (hnew : offsets.contains e.1 = false) :
    parseOffset offsets (offsetValue e) = .ok (offsets.emplace e.1 e.2) := by
  obtain ⟨hlt, -⟩ : e.1 < kMaxSharedOffset ∧ e.1 % 4 = 0 := of_decide_eq_true hvalid
  have hshort : (hex e.1).length ≤ 8 := by
    rw [hex, length_toDigits_le_iff (by decide) (by decide)]
    exact hlt
  have hparse : parseHex (hex e.1) = some e.1 := parseHex_hex (hlt.trans (by decide))
  unfold parseOffset offsetValue
  simp only [if_neg (not_lt.2 hshort), hparse, hvalid, Bool.not_true, Bool.false_eq_true, if_false,
    sharedCount_decimal hcount, bind, Except.bind, hnew]

lemma parseModule_value {modules : SortedMap Text SharedModule} {e : Text × SharedModule}
    (h : BoundedModule e) (hnew : modules.contains e.1 = false) :
    parseModule modules (moduleValue e) = .ok (modules.emplace e.1 e.2) := by
  obtain ⟨hid, hhits, hsize, hoffsets⟩ := h
  have hkeys : keysAre ["build_id", "hits", "offsets"] "a module" (moduleValue e).keys [] =
      .ok () := rfl
  have hbuildId : (moduleValue e).get "build_id" = some (.string e.1) := rfl
  have hhits' : (moduleValue e).get "hits" = some (.number (decimal e.2.hits)) := rfl
  have hpairs : (moduleValue e).get "offsets" =
      some (.array (e.2.offsets.entries.map offsetValue)) := rfl
  have hloop : (e.2.offsets.entries.map offsetValue).foldlM parseOffset .empty = .ok e.2.offsets :=
    foldlM_emplace e.2.offsets fun _ o ho hnew =>
      parseOffset_value (hoffsets o ho).1 (hoffsets o ho).2 hnew
  have hobject : isObject (moduleValue e) = true := rfl
  rw [parseModule, hobject]
  simp only [Bool.not_true, Bool.false_eq_true, if_false, hkeys, bind, Except.bind, buildIdOf,
    hbuildId, hid, if_true, hnew, hhits', sharedCount_decimal hhits, hpairs, length_map]
  have hbounded : ¬ kMaxOffsetsPerModule < e.2.offsets.entries.length := not_lt.2 hsize
  rw [if_neg hbounded, hloop]

lemma parseWithoutImage_value {modules : SortedMap Text Nat} {e : Text × Nat}
    (hid : isCanonicalBuildId e.1 = true) (hhits : e.2 ≤ kMaxSharedCount)
    (hnew : modules.contains e.1 = false) :
    parseWithoutImage modules (withoutImageValue e) = .ok (modules.emplace e.1 e.2) := by
  have hkeys : keysAre ["build_id", "hits"] "a module without image" (withoutImageValue e).keys
      [] = .ok () := rfl
  have hbuildId : (withoutImageValue e).get "build_id" = some (.string e.1) := rfl
  have hhits' : (withoutImageValue e).get "hits" = some (.number (decimal e.2)) := rfl
  have hobject : isObject (withoutImageValue e) = true := rfl
  rw [parseWithoutImage, hobject]
  simp only [Bool.not_true, Bool.false_eq_true, if_false, hkeys, bind, Except.bind, buildIdOf,
    hbuildId, hid, if_true, hnew, hhits', sharedCount_decimal hhits]

section
variable {d : SharedCoverage}

lemma rootCount_sharedValue {count : Nat}
    (hget : (sharedValue d).get key = some (.number (decimal count)))
    (hcount : count ≤ kMaxSharedCount) : rootCount (sharedValue d) key = .ok count := by
  rw [rootCount, hget]
  exact sharedCount_decimal hcount key

lemma boundedList_map {value : α → Value} {l : List α} (h : l.length ≤ kMaxModules)
    (what : String) : boundedList (some (.array (l.map value))) what = .ok (l.map value) := by
  rw [boundedList, if_neg]
  rw [length_map]
  exact not_lt.2 h

lemma checkSchema_sharedValue : checkSchema (sharedValue d) = .ok () := rfl

lemma checkVersion_sharedValue : checkVersion (sharedValue d) = .ok () := rfl

lemma checkDescription_sharedValue : checkDescription (sharedValue d) = .ok () := rfl

lemma parseTruncated_sharedValue : parseTruncated (sharedValue d) = .ok d.truncated := rfl

lemma parseTitleId_sharedValue (h : Valid d) : parseTitleId (sharedValue d) = .ok d.titleId := by
  obtain ⟨id, hne, hlt, hid⟩ := h.titleId
  have hget : (sharedValue d).get "title_id" = some (.string d.titleId) := rfl
  rw [parseTitleId, hget, hid]
  simp only [length_titleIdHex hlt, parseHex_titleIdHex hlt, ne_eq, not_true_eq_false, if_false,
    if_neg hne]

variable (h : Valid d)
include h

lemma boundedList_modules :
    boundedList ((sharedValue d).get "modules") "modules" =
      .ok (d.modules.entries.map moduleValue) :=
  boundedList_map h.modules _

lemma boundedList_withoutImages :
    boundedList ((sharedValue d).get "modules_without_image") "modules_without_image" =
      .ok (d.modulesWithoutImage.entries.map withoutImageValue) :=
  boundedList_map h.withoutImages _

lemma foldlM_parseModule :
    (d.modules.entries.map moduleValue).foldlM parseModule .empty = .ok d.modules := by
  refine foldlM_emplace d.modules fun _ e he hnew => ?_
  exact parseModule_value (h.module e he) hnew

lemma foldlM_parseWithoutImage :
    (d.modulesWithoutImage.entries.map withoutImageValue).foldlM parseWithoutImage .empty =
      .ok d.modulesWithoutImage := by
  refine foldlM_emplace d.modulesWithoutImage fun _ e he hnew => ?_
  exact parseWithoutImage_value (h.withoutImage e he).1 (h.withoutImage e he).2 hnew

lemma parseRoot_sharedValue : parseRoot (sharedValue d) = .ok d := by
  have hcounts := h.counts
  simp only [forall_mem_cons, not_mem_nil, false_implies, implies_true, and_true] at hcounts
  obtain ⟨hruns, hhybrid, hstrict, hclean, hmisses, hkinds, hhits⟩ := hcounts
  have hobject : isObject (sharedValue d) = true := rfl
  have hkeys : keysAre sharedFields "the file" (sharedValue d).keys [] = .ok () := rfl
  unfold parseRoot
  rw [hobject, hkeys, checkSchema_sharedValue, checkVersion_sharedValue,
    checkDescription_sharedValue, parseTitleId_sharedValue h,
    rootCount_sharedValue "runs" rfl hruns,
    rootCount_sharedValue "hybrid_runs" rfl hhybrid,
    rootCount_sharedValue "strict_static_runs" rfl hstrict,
    rootCount_sharedValue "clean_runs" rfl hclean,
    rootCount_sharedValue "unattributed_misses" rfl hmisses,
    rootCount_sharedValue "unsupported_instruction_kinds" rfl hkinds,
    rootCount_sharedValue "unsupported_instruction_hits" rfl hhits, parseTruncated_sharedValue,
    boundedList_modules h, boundedList_withoutImages h]
  simp only [Bool.not_true, Bool.false_eq_true, if_false, bind, Except.bind, foldlM_parseModule h,
    foldlM_parseWithoutImage h]
  rfl

lemma parseShared_serializeShared (hsize : (serializeShared d).length ≤ kMaxFileBytes) :
    parseShared (serializeShared d) = .ok d := by
  rw [parseShared, if_neg (not_lt.2 hsize), document_serializeShared h]
  simp only [bind, Except.bind, parseRoot_sharedValue h]

lemma parseImport_serializeShared (hsize : (serializeShared d).length ≤ kMaxFileBytes) :
    parseImport (serializeShared d) = (parseShared (serializeShared d), false) := by
  have hshared : isShared (sharedValue d) = true := rfl
  rw [parseImport, if_neg (not_lt.2 hsize), document_serializeShared h]
  simp only [hshared, if_true]

end

/-! ## Export -/

lemma cap_le (value : Nat) : cap value ≤ kMaxSharedCount := min_le_right _ _

lemma hexDigit_lt {c : Char} {v : Nat} (h : hexDigit c = some v) : v < 16 := by
  have hsub : ∀ {a b : Char}, c ≤ b → c.toNat - a.toNat ≤ b.toNat - a.toNat := fun h =>
    Nat.sub_le_sub_right h _
  unfold hexDigit at h
  split_ifs at h with hdecimal hlower hupper <;> cases h
  · exact (hsub hdecimal.2).trans_lt (by decide)
  · exact add_lt_of_lt_sub ((hsub hlower.2).trans_lt (by decide))
  · exact add_lt_of_lt_sub ((hsub hupper.2).trans_lt (by decide))

lemma parseHex_lt {id : Nat} (h : parseHex text = some id) : id < 2 ^ 64 := by
  have hloop : ∀ (s : Text) v, v < 2 ^ 64 → ∀ out,
      s.foldlM (fun v c => (hexDigit c).map fun digit => v * 16 % 2 ^ 64 + digit) v = some out →
        out < 2 ^ 64 := by
    intro s
    induction s with
    | nil =>
      rintro v hv out ⟨⟩
      exact hv
    | cons c s ih =>
      intro v hv out hout
      rw [foldlM_cons] at hout
      obtain ⟨next, hnext, hout⟩ := bind_eq_some_iff.1 hout
      obtain ⟨digit, hdigit, rfl⟩ := map_eq_some_iff.1 hnext
      have hlt := hexDigit_lt hdigit
      exact ih _ (by omega) out hout
  unfold parseHex at h
  split at h
  · cases h
  · exact hloop text 0 (by decide) id h

lemma mem_emplace {κ : Type} [LinearOrder κ] {P : κ × α → Prop} {m : SortedMap κ α} {key : κ}
    {value : α} (h : ∀ e ∈ m.entries, P e) (hnew : P (key, value)) :
    ∀ e ∈ (m.emplace key value).entries, P e := by
  intro e he
  rcases mem_insertEntry he with rfl | he
  · exact hnew
  · exact h e he

lemma toSharedOffsets_bounded (offsets : SortedMap Nat Nat) :
    BoundedOffsets (toSharedOffsets offsets) := by
  refine List.foldlRecOn (motive := BoundedOffsets) offsets.entries _ ⟨zero_le _, nofun⟩ ?_
  rintro target ⟨hsize, hentries⟩ e -
  split
  · rename_i hif
    refine ⟨(target.size_emplace_le _ _).trans hif.2, mem_emplace hentries ⟨hif.1, cap_le e.2⟩⟩
  · exact ⟨hsize, hentries⟩

lemma toSharedModules_bounded (l : List (Text × ModuleGaps)) (out : SortedMap Text SharedModule)
    (truncated : Bool) (hsize : out.size ≤ kMaxModules)
    (hout : ∀ e ∈ out.entries, BoundedModule e) :
    (toSharedModules l out truncated).1.size ≤ kMaxModules ∧
      ∀ e ∈ (toSharedModules l out truncated).1.entries, BoundedModule e := by
  induction l generalizing out with
  | nil => exact ⟨hsize, hout⟩
  | cons e l ih =>
    rw [toSharedModules]
    split
    · exact ih out hsize hout
    rename_i hid
    split
    · exact ⟨hsize, hout⟩
    · rename_i hfull
      have hid : isCanonicalBuildId e.1 = true := by simpa using hid
      refine ih _ ((out.size_emplace_le _ _).trans (not_le.1 hfull)) (mem_emplace hout ?_)
      exact ⟨hid, cap_le _, toSharedOffsets_bounded e.2.offsets⟩

/-- An export is in bounds when the title is known. -/
lemma toShared_valid {d : GapData} {id : Nat} (hlength : d.titleId.length = 16)
    (hid : parseHex d.titleId = some id) (hne : id ≠ 0) : Valid (toShared d) := by
  have hmodules := toSharedModules_bounded d.modules.entries .empty d.truncated
    (zero_le _) nofun
  have hwithout : (toShared d).modulesWithoutImage.size ≤ kMaxModules ∧
      ∀ e ∈ (toShared d).modulesWithoutImage.entries, isCanonicalBuildId e.1 = true ∧
        e.2 ≤ kMaxSharedCount := by
    refine List.foldlRecOn (motive := fun out : SortedMap Text Nat => out.size ≤ kMaxModules ∧
      ∀ e ∈ out.entries, isCanonicalBuildId e.1 = true ∧ e.2 ≤ kMaxSharedCount)
      d.noImage.entries _ ⟨zero_le _, nofun⟩ ?_
    rintro out ⟨hsize, hentries⟩ e -
    split
    · rename_i hif
      exact ⟨(out.size_emplace_le _ _).trans hif.2, mem_emplace hentries ⟨hif.1, cap_le _⟩⟩
    · exact ⟨hsize, hentries⟩
  refine ⟨⟨id, hne, parseHex_lt hid, ?_⟩, ?_, hmodules.1, hmodules.2, hwithout.1, hwithout.2⟩
  · simp only [toShared, hlength, hid, if_true, if_pos hne]
  · simp only [toShared, forall_mem_cons, cap_le, not_mem_nil, false_implies,
      implies_true, and_true]

/-- Exported coverage of a known title is imported as it was, unless the file is too large. -/
theorem shared_round_trip (d : GapData) (hlength : d.titleId.length = 16) (id : Nat)
    (hid : parseHex d.titleId = some id) (hne : id ≠ 0)
    (hsize : (serializeShared (toShared d)).length ≤ kMaxFileBytes) :
    parseShared (serializeShared (toShared d)) = .ok (toShared d) ∧
      parseImport (serializeShared (toShared d)) =
        (parseShared (serializeShared (toShared d)), false) := by
  have hvalid := toShared_valid hlength hid hne
  exact ⟨parseShared_serializeShared hvalid hsize, parseImport_serializeShared hvalid hsize⟩

/-- A title with one module that was missing an offset twice. -/
def sampleGaps : GapData where
  titleId := "0100000000010000".toList
  runs := 3
  hybridRuns := 1
  strictRuns := 2
  cleanRuns := 0
  lastRunStrict := true
  truncated := false
  unattributedMisses := 1
  modules := empty.emplace (List.replicate 64 'a')
    ⟨"main".toList, List.replicate 64 'a', 2, empty.emplace 0x1000 2⟩
  noImage := .empty
  unimplemented := .empty
  importedUnsupportedKinds := 0
  importedUnsupportedHits := 0

theorem shared_round_trip_sample :
    parseShared (serializeShared (toShared sampleGaps)) = .ok (toShared sampleGaps) ∧
      parseImport (serializeShared (toShared sampleGaps)) =
        (parseShared (serializeShared (toShared sampleGaps)), false) :=
  shared_round_trip sampleGaps (by decide) 0x100000000010000 (by decide) (by decide)
    (by decide +kernel)

/-! ## What an export depends on -/

/-- The hits of all recorded encodings. -/
def GapData.opcodeHits (d : GapData) : Nat := (d.unimplemented.entries.map snd).sum

/-- Counts are kept in 64 bits. -/
def GapData.CountsFit (d : GapData) : Prop :=
  d.importedUnsupportedHits ≤ maxU64 ∧ ∀ e ∈ d.unimplemented.entries, e.2 ≤ maxU64

/-- Two stores that may differ in names, in the encodings, in the mode of the last run and in the
offsets of modules without an image.  The sums of the hits agree as far as 64 bits go. -/
structure SameExport (d d' : GapData) : Prop where
  titleId : d.titleId = d'.titleId
  runs : d.runs = d'.runs
  hybridRuns : d.hybridRuns = d'.hybridRuns
  strictRuns : d.strictRuns = d'.strictRuns
  cleanRuns : d.cleanRuns = d'.cleanRuns
  truncated : d.truncated = d'.truncated
  unattributedMisses : d.unattributedMisses = d'.unattributedMisses
  importedUnsupportedKinds : d.importedUnsupportedKinds = d'.importedUnsupportedKinds
  importedUnsupportedHits : d.importedUnsupportedHits = d'.importedUnsupportedHits
  modules : (d.modules.entries.map fun e => (e.1, e.2.hits, e.2.offsets)) =
    d'.modules.entries.map fun e => (e.1, e.2.hits, e.2.offsets)
  noImage : (d.noImage.entries.map fun e => (e.1, e.2.hits)) =
    d'.noImage.entries.map fun e => (e.1, e.2.hits)
  opcodes : d.unimplemented.size = d'.unimplemented.size
  opcodeHits : min d.opcodeHits maxU64 = min d'.opcodeHits maxU64

lemma foldl_satAdd {l : List (Nat × Nat)} (hl : ∀ e ∈ l, e.2 ≤ maxU64) {hits : Nat}
    (hhits : hits ≤ maxU64) :
    l.foldl (fun hits e => satAdd hits e.2) hits = min (hits + (l.map snd).sum) maxU64 := by
  induction l generalizing hits with
  | nil => simp [hhits]
  | cons e l ih =>
    obtain ⟨he, hl⟩ := forall_mem_cons.1 hl
    have hadd : satAdd hits e.2 = min (hits + e.2) maxU64 := by
      rw [satAdd]
      split <;> omega
    rw [foldl_cons, ih hl (by omega), hadd, map_cons, sum_cons]
    omega

lemma toSharedModules_congr {l l' : List (Text × ModuleGaps)}
    (h : (l.map fun e => (e.1, e.2.hits, e.2.offsets)) =
      l'.map fun e => (e.1, e.2.hits, e.2.offsets))
    (out : SortedMap Text SharedModule) (truncated : Bool) :
    toSharedModules l out truncated = toSharedModules l' out truncated := by
  induction l generalizing l' out with
  | nil => rw [map_eq_nil_iff.1 h.symm]
  | cons e l ih =>
    cases l' with
    | nil => cases h
    | cons e' l' =>
      simp only [map_cons, List.cons.injEq, mk.injEq] at h
      obtain ⟨⟨hid, hhits, hoffsets⟩, hrest⟩ := h
      simp only [toSharedModules, hid, hhits, hoffsets, ih hrest]

/-- Names and encodings do not show in the shared file. -/
theorem export_eq (d d' : GapData) (hd : d.CountsFit) (hd' : d'.CountsFit) (h : SameExport d d') :
    serializeShared (toShared d) = serializeShared (toShared d') := by
  have hhits : d.unimplemented.entries.foldl (fun hits e => satAdd hits e.2)
      d.importedUnsupportedHits = d'.unimplemented.entries.foldl (fun hits e => satAdd hits e.2)
      d'.importedUnsupportedHits := by
    have hsum := h.opcodeHits
    rw [foldl_satAdd hd.2 hd.1, foldl_satAdd hd'.2 hd'.1, h.importedUnsupportedHits]
    simp only [GapData.opcodeHits] at hsum
    omega
  have hnoImage (l : List (Text × ModuleGaps)) (out : SortedMap Text Nat) :
      l.foldl (fun out e =>
        if isCanonicalBuildId e.1 ∧ out.size < kMaxModules then out.emplace e.1 (cap e.2.hits)
        else out) out =
      (l.map fun e => (e.1, e.2.hits)).foldl (fun out e =>
        if isCanonicalBuildId e.1 ∧ out.size < kMaxModules then out.emplace e.1 (cap e.2)
        else out) out := by
    rw [foldl_map]
  simp only [toShared, GapData.unsupportedInstructionKinds, hhits, hnoImage, h.titleId, h.runs,
    h.hybridRuns, h.strictRuns, h.cleanRuns, h.truncated, h.unattributedMisses, h.noImage,
    h.opcodes, h.importedUnsupportedKinds, toSharedModules_congr h.modules]

/-- The sample under another name and after a run of the other mode. -/
theorem export_sample :
    serializeShared (toShared sampleGaps) = serializeShared (toShared { sampleGaps with
      lastRunStrict := false
      modules := empty.emplace (List.replicate 64 'a')
        ⟨"sdk".toList, [], 2, empty.emplace 0x1000 2⟩ }) :=
  export_eq _ _ ⟨by decide, nofun⟩ ⟨by decide, nofun⟩
    ⟨rfl, rfl, rfl, rfl, rfl, rfl, rfl, rfl, rfl, rfl, rfl, rfl, rfl⟩

end Drippu.RecompGaps
