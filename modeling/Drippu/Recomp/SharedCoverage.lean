import Mathlib.Data.Char
import Drippu.Library.SortedMap
import Drippu.Recomp.JsonReader

/-!
# Recomp - Shared coverage files

The coverage gaps of a title are kept in a local diagnostic store, `GapData`.  What is
passed between players is `SharedCoverage`: identifiers, offsets and counts.  It is
written as JSON and read by a strict validator; local files of the older format are read
through the same conversion.
-/

namespace Drippu.RecompGaps

open Library

/-! ## Bounds -/

def kMaxModules : Nat := 64

def kMaxOffsetsPerModule : Nat := 65536

def kMaxOpcodes : Nat := 4096

def kMaxFileBytes : Nat := 64 * 2 ^ 20

def kMaxSharedCount : Nat := 2 ^ 53 - 1

def kMaxSharedOffset : Nat := 2 ^ 32

def kSchemaName : String := "suyu-recomp-gaps"

def kSchemaVersion : Nat := 1

def kSharedSchemaName : String := "suyu-shared-coverage"

def kSharedSchemaVersion : Nat := 1

def kSharedDescription : String := "Execution metadata; no raw instruction bytes included."

/-! ## Data -/

structure ModuleGaps where
  name : Text
  buildId : Text
  hits : Nat
  offsets : SortedMap Nat Nat

structure GapData where
  titleId : Text
  runs : Nat
  hybridRuns : Nat
  strictRuns : Nat
  cleanRuns : Nat
  lastRunStrict : Bool
  truncated : Bool
  unattributedMisses : Nat
  modules : SortedMap Text ModuleGaps
  noImage : SortedMap Text ModuleGaps
  unimplemented : SortedMap Nat Nat
  importedUnsupportedKinds : Nat
  importedUnsupportedHits : Nat

structure SharedModule where
  hits : Nat
  offsets : SortedMap Nat Nat

structure SharedCoverage where
  titleId : Text
  runs : Nat
  hybridRuns : Nat
  strictRuns : Nat
  cleanRuns : Nat
  truncated : Bool
  unattributedMisses : Nat
  unsupportedInstructionKinds : Nat
  unsupportedInstructionHits : Nat
  modules : SortedMap Text SharedModule
  modulesWithoutImage : SortedMap Text Nat

/-! ## Identifiers -/

def satAdd (a b : Nat) : Nat := if maxU64 - b < a then maxU64 else a + b

/-- `%016llX`. -/
def titleIdHex (titleId : Nat) : Text :=
  ((hex titleId).map Char.toUpper).leftpad 16 '0'

/-- A lower-case hexadecimal digit. -/
def lowerHexDigit (c : Char) : Option Char :=
  let l := if 'A' ≤ c ∧ c ≤ 'F' then Char.ofNat (c.toNat - 'A'.toNat + 'a'.toNat) else c
  if ('0' ≤ l ∧ l ≤ '9') ∨ ('a' ≤ l ∧ l ≤ 'f') then some l else none

/-- Lower-cased and padded with zeros to 64 digits; empty for anything that does not identify
a module. -/
def normalizeBuildId (text : Text) : Text :=
  if text = [] ∨ 64 < text.length then []
  else
    match text.mapM lowerHexDigit with
    | none => []
    | some out => if out.all (· = '0') then [] else out.rightpad 64 '0'

def isNameChar (c : Char) : Bool :=
  ('a' ≤ c ∧ c ≤ 'z') || ('A' ≤ c ∧ c ≤ 'Z') || ('0' ≤ c ∧ c ≤ '9') || c == '.' || c == '_' ||
    c == '-'

/-- The part behind the last separator, with the characters of a name, at most 64. -/
def sanitizeName (name : Text) : Text :=
  let base := (name.reverse.takeWhile fun c => !(c == '/' || c == '\\' || c == ':')).reverse
  (base.filter isNameChar).take 64

def isCanonicalBuildId (id : Text) : Bool := id.length = 64 ∧ normalizeBuildId id = id

def validSharedOffset (offset : Nat) : Bool := offset < kMaxSharedOffset ∧ offset % 4 = 0

/-! ## Export -/

def cap (value : Nat) : Nat := min value kMaxSharedCount

def GapData.unsupportedInstructionKinds (d : GapData) : Nat :=
  max d.unimplemented.size d.importedUnsupportedKinds

variable (json : Text) (offsets : SortedMap Nat Nat) (root : Value)

/-- The offsets of a module that are shared. -/
def toSharedOffsets : SortedMap Nat Nat :=
  offsets.entries.foldl (fun target e =>
    if validSharedOffset e.1 ∧ target.size < kMaxOffsetsPerModule then
      target.emplace e.1 (cap e.2)
    else target) .empty

/-- The loop over the modules; it stops when there are too many. -/
def toSharedModules : List (Text × ModuleGaps) → SortedMap Text SharedModule → Bool →
    SortedMap Text SharedModule × Bool
  | [], out, truncated => (out, truncated)
  | e :: rest, out, truncated =>
    if !isCanonicalBuildId e.1 then toSharedModules rest out truncated
    else if kMaxModules ≤ out.size then (out, true)
    else
      toSharedModules rest (out.emplace e.1 ⟨cap e.2.hits, toSharedOffsets e.2.offsets⟩) truncated

def toShared (d : GapData) : SharedCoverage :=
  let modules := toSharedModules d.modules.entries .empty d.truncated
  { titleId :=
      match if d.titleId.length = 16 then parseHex d.titleId else none with
      | some id => if id ≠ 0 then titleIdHex id else []
      | none => []
    runs := cap d.runs
    hybridRuns := cap d.hybridRuns
    strictRuns := cap d.strictRuns
    cleanRuns := cap d.cleanRuns
    truncated := modules.2
    unattributedMisses := cap d.unattributedMisses
    unsupportedInstructionKinds := cap d.unsupportedInstructionKinds
    unsupportedInstructionHits :=
      cap (d.unimplemented.entries.foldl (fun hits e => satAdd hits e.2) d.importedUnsupportedHits)
    modules := modules.1
    modulesWithoutImage := d.noImage.entries.foldl (fun out e =>
      if isCanonicalBuildId e.1 ∧ out.size < kMaxModules then out.emplace e.1 (cap e.2.hits)
      else out) .empty }

/-- The loops of the writer put one text in front of the first item and another in front of
the others. -/
def writeItems {α : Type} (first others : String) (write : α → Text) : List α → Text
  | [] => []
  | a :: rest => first.toList ++ write a ++ rest.flatMap fun b => others.toList ++ write b

def writeOffset (e : Nat × Nat) : Text :=
  "[\"".toList ++ hex e.1 ++ "\", ".toList ++ decimal e.2 ++ "]".toList

def writeModule (e : Text × SharedModule) : Text :=
  "\x7b\"build_id\": \"".toList ++ e.1 ++ "\", \"hits\": ".toList ++ decimal e.2.hits ++
    ", \"offsets\": [".toList ++ writeItems "" ", " writeOffset e.2.offsets.entries ++
    "]\x7d".toList

def writeWithoutImage (e : Text × Nat) : Text :=
  "\x7b\"build_id\": \"".toList ++ e.1 ++ "\", \"hits\": ".toList ++ decimal e.2 ++ "\x7d".toList

/-- A field of the file. -/
def writeField (key : String) (text : Text) : Text :=
  "  \"".toList ++ key.toList ++ "\": ".toList ++ text

/-- A list of modules, with its bracket on a line of its own unless it is empty. -/
def writeModules {α : Type} (write : α → Text) (l : List α) : Text :=
  "[".toList ++ writeItems "\n    " ",\n    " write l ++
    (if l = [] then "]".toList else "\n  ]".toList)

def serializeShared (d : SharedCoverage) : Text :=
  "\x7b\n".toList ++
  writeField "schema" (quote kSharedSchemaName.toList) ++ ",\n".toList ++
  writeField "schema_version" (decimal kSharedSchemaVersion) ++ ",\n".toList ++
  writeField "description" (quote kSharedDescription.toList) ++ ",\n".toList ++
  writeField "title_id" (quote d.titleId) ++ ",\n".toList ++
  writeField "runs" (decimal d.runs) ++ ",\n".toList ++
  writeField "hybrid_runs" (decimal d.hybridRuns) ++ ",\n".toList ++
  writeField "strict_static_runs" (decimal d.strictRuns) ++ ",\n".toList ++
  writeField "clean_runs" (decimal d.cleanRuns) ++ ",\n".toList ++
  writeField "truncated" (if d.truncated then "true".toList else "false".toList) ++ ",\n".toList ++
  writeField "unattributed_misses" (decimal d.unattributedMisses) ++ ",\n".toList ++
  writeField "unsupported_instruction_kinds" (decimal d.unsupportedInstructionKinds) ++
    ",\n".toList ++
  writeField "unsupported_instruction_hits" (decimal d.unsupportedInstructionHits) ++
    ",\n".toList ++
  writeField "modules" (writeModules writeModule d.modules.entries) ++ ",\n".toList ++
  writeField "modules_without_image"
    (writeModules writeWithoutImage d.modulesWithoutImage.entries) ++ "\n".toList ++
  "\x7d\n".toList

/-! ## The strict reader -/

/-- `KeysAre`: exactly these keys, each at most once. -/
def keysAre (allowed : List String) (inside : String) : List Text → List Text → Except String Unit
  | [], _ => .ok ()
  | key :: rest, seen =>
    if key ∉ allowed.map String.toList then
      .error ("unsupported field '" ++ String.ofList (sanitizeName key) ++ "' in " ++ inside)
    else if key ∈ seen then
      .error ("duplicate field '" ++ String.ofList (sanitizeName key) ++ "' in " ++ inside)
    else keysAre allowed inside rest (seen ++ [key])

/-- The keys of an object; other values have none. -/
def Value.keys : Value → List Text
  | .object members => members.map Prod.fst
  | _ => []

def sharedCount (v : Option Value) (what : String) : Except String Nat :=
  match asCount v with
  | some count => if count ≤ kMaxSharedCount then .ok count else .error (what ++ " is not a count")
  | none => .error (what ++ " is not a count")

/-- The items of a list of modules. -/
def boundedList (list : Option Value) (what : String) : Except String (List Value) :=
  match list with
  | some (.array items) =>
    if kMaxModules < items.length then .error (what ++ " has too many modules") else .ok items
  | _ => .error (what ++ " is not an array")

def buildIdOf (item : Value) : Except String Text :=
  match item.get "build_id" with
  | some (.string text) => if isCanonicalBuildId text then .ok text else .error "bad build_id"
  | _ => .error "bad build_id"

/-- One offset with its count. -/
def parseOffset (pair : Value) : Except String (SortedMap Nat Nat) :=
  match pair with
  | .array [.string text, count] =>
    if 8 < text.length then .error "bad offset entry"
    else
      match parseHex text with
      | some offset =>
        if !validSharedOffset offset then .error "bad offset entry"
        else do
          let count ← sharedCount (some count) "offset count"
          if offsets.contains offset then .error "duplicate offset"
          else .ok (offsets.emplace offset count)
      | none => .error "bad offset entry"
  | _ => .error "bad offset entry"

def isObject : Value → Bool
  | .object _ => true
  | _ => false

/-- One module with its offsets. -/
def parseModule (modules : SortedMap Text SharedModule) (item : Value) :
    Except String (SortedMap Text SharedModule) :=
  if !isObject item then .error "module entry is not an object"
  else do
    keysAre ["build_id", "hits", "offsets"] "a module" item.keys []
    let id ← buildIdOf item
    if modules.contains id then .error "duplicate build_id"
    else
      let hits ← sharedCount (item.get "hits") "hits"
      match item.get "offsets" with
      | some (.array pairs) =>
        if kMaxOffsetsPerModule < pairs.length then .error "offsets is not a bounded array"
        else
          let offsets ← pairs.foldlM parseOffset .empty
          .ok (modules.emplace id ⟨hits, offsets⟩)
      | _ => .error "offsets is not a bounded array"

/-- One module without an image. -/
def parseWithoutImage (modules : SortedMap Text Nat) (item : Value) :
    Except String (SortedMap Text Nat) :=
  if !isObject item then .error "module entry is not an object"
  else do
    keysAre ["build_id", "hits"] "a module without image" item.keys []
    let id ← buildIdOf item
    if modules.contains id then .error "duplicate build_id"
    else
      let hits ← sharedCount (item.get "hits") "hits"
      .ok (modules.emplace id hits)

def checkSchema : Except String Unit :=
  match root.get "schema" with
  | some (.string text) =>
    if text = kSharedSchemaName.toList then .ok () else .error "not a suyu shared coverage file"
  | _ => .error "not a suyu shared coverage file"

def checkVersion : Except String Unit :=
  if asCount (root.get "schema_version") = some kSharedSchemaVersion then .ok ()
  else .error "unsupported schema_version"

/-- The description may be missing. -/
def checkDescription : Except String Unit :=
  match root.get "description" with
  | none => .ok ()
  | some (.string text) =>
    if text = kSharedDescription.toList then .ok () else .error "description is not the schema's"
  | some _ => .error "description is not the schema's"

def parseTitleId : Except String Text :=
  match root.get "title_id" with
  | some (.string text) =>
    if text.length ≠ 16 then .error "bad title_id"
    else
      match parseHex text with
      | some titleId => if titleId = 0 then .error "bad title_id" else .ok (titleIdHex titleId)
      | none => .error "bad title_id"
  | _ => .error "bad title_id"

def parseTruncated : Except String Bool :=
  match root.get "truncated" with
  | some (.bool b) => .ok b
  | _ => .error "truncated is not a boolean"

def sharedFields : List String :=
  ["schema", "schema_version", "description", "title_id", "runs", "hybrid_runs",
    "strict_static_runs", "clean_runs", "truncated", "unattributed_misses",
    "unsupported_instruction_kinds", "unsupported_instruction_hits", "modules",
    "modules_without_image"]

/-- A count of the file. -/
def rootCount (key : String) : Except String Nat :=
  sharedCount (root.get key) key

/-- The fields of the file. -/
def parseRoot : Except String SharedCoverage :=
  if !isObject root then .error "not a JSON object"
  else do
    keysAre sharedFields "the file" root.keys []
    checkSchema root
    checkVersion root
    checkDescription root
    let titleId ← parseTitleId root
    let runs ← rootCount root "runs"
    let hybridRuns ← rootCount root "hybrid_runs"
    let strictRuns ← rootCount root "strict_static_runs"
    let cleanRuns ← rootCount root "clean_runs"
    let unattributedMisses ← rootCount root "unattributed_misses"
    let kinds ← rootCount root "unsupported_instruction_kinds"
    let hits ← rootCount root "unsupported_instruction_hits"
    let truncated ← parseTruncated root
    let modules ← boundedList (root.get "modules") "modules"
    let modules ← modules.foldlM parseModule .empty
    let without ← boundedList (root.get "modules_without_image") "modules_without_image"
    let without ← without.foldlM parseWithoutImage .empty
    return ⟨titleId, runs, hybridRuns, strictRuns, cleanRuns, truncated, unattributedMisses, kinds,
      hits, modules, without⟩

def parseShared : Except String SharedCoverage :=
  if kMaxFileBytes < json.length then .error "file is too large"
  else do
    let root ← document json
    parseRoot root

/-! ## The local format -/

def countOr0 (v : Option Value) : Nat := (asCount v).getD 0

def addOffset (offset hits : Nat) (truncated : Bool) : SortedMap Nat Nat × Bool :=
  if offsets.contains offset then (offsets.modify offset (satAdd · hits), truncated)
  else if kMaxOffsetsPerModule ≤ offsets.size then (offsets, true)
  else (offsets.emplace offset hits, truncated)

/-- `FindOrAddModule`: the map afterwards, or nothing when it is full. -/
def findOrAddModule (map : SortedMap Text ModuleGaps) (buildId name : Text) :
    Option (SortedMap Text ModuleGaps) :=
  if !map.contains buildId ∧ kMaxModules ≤ map.size then none
  else
    let map := map.emplace buildId ⟨[], buildId, 0, .empty⟩
    some (map.modify buildId fun m =>
      if m.name = [] then { m with name := sanitizeName name } else m)

def addOpcode (opcodes : SortedMap Nat Nat) (insn hits : Nat) (truncated : Bool) :
    SortedMap Nat Nat × Bool :=
  if opcodes.contains insn then (opcodes.modify insn (satAdd · hits), truncated)
  else if kMaxOpcodes ≤ opcodes.size then (opcodes, true)
  else (opcodes.emplace insn hits, truncated)

/-- A pair of a hexadecimal number and a count. -/
def countPair (pair : Value) : Option (Nat × Nat) :=
  match pair with
  | .array [.string text, count] => do
    let number ← parseHex text
    let count ← asCount (some count)
    return (number, count)
  | _ => none

/-- The offsets of one module. -/
def readOffsets (pairs : List Value) (offsets : SortedMap Nat Nat) (truncated : Bool) :
    Except String (SortedMap Nat Nat × Bool) :=
  pairs.foldlM (fun st pair =>
    match countPair pair with
    | some (offset, hits) => .ok (addOffset st.1 offset hits st.2)
    | none => .error "bad offset entry") (offsets, truncated)

/-- The text of a string; other values have none. -/
def textOf : Option Value → Text
  | some (.string text) => text
  | _ => []

/-- One module of `ReadModules`.  A module that nobody can match is skipped. -/
def readModule (withOffsets : Bool) (st : SortedMap Text ModuleGaps × Bool) (item : Value) :
    Except String (SortedMap Text ModuleGaps × Bool) :=
  if !isObject item then .error "module entry is not an object"
  else
    let buildId := normalizeBuildId (textOf (item.get "build_id"))
    if buildId = [] then .ok st
    else
      match findOrAddModule st.1 buildId (textOf (item.get "name")) with
      | none => .ok (st.1, true)
      | some map =>
        let map := map.modify buildId fun m =>
          { m with hits := satAdd m.hits (countOr0 (item.get "hits")) }
        if !withOffsets then .ok (map, st.2)
        else
          match item.get "offsets" with
          | none => .ok (map, st.2)
          | some (.array pairs) => do
            let offsets := ((map.find? buildId).map ModuleGaps.offsets).getD .empty
            let (offsets, truncated) ← readOffsets pairs offsets st.2
            .ok (map.modify buildId fun m => { m with offsets := offsets }, truncated)
          | some _ => .error "offsets is not an array"

def readModules (withOffsets : Bool) (list : Option Value) (truncated : Bool) :
    Except String (SortedMap Text ModuleGaps × Bool) :=
  match list with
  | none => .ok (.empty, truncated)
  | some (.array items) => items.foldlM (readModule withOffsets) (.empty, truncated)
  | some _ => .error "module list is not an array"

/-- A flag that is false when it is missing. -/
def flagOf : Option Value → Bool
  | some (.bool b) => b
  | _ => false

def checkGapSchema : Except String Unit :=
  match root.get "schema" with
  | some (.string text) =>
    if text = kSchemaName.toList then .ok () else .error "not a suyu coverage file"
  | _ => .error "not a suyu coverage file"

def checkGapVersion : Except String Unit :=
  match asCount (root.get "schema_version") with
  | none => .error "missing schema_version"
  | some version =>
    if version = 0 then .error "missing schema_version"
    else if kSchemaVersion < version then
      .error ("schema_version " ++ toString version ++ " is newer than this suyu reads (" ++
        toString kSchemaVersion ++ ")")
    else .ok ()

def parseGapTitleId : Except String Text :=
  match root.get "title_id" with
  | some (.string text) =>
    if text = [] then .ok []
    else
      match parseHex text with
      | some id => .ok (titleIdHex id)
      | none => .error "bad title_id"
  | _ => .ok []

def readOpcodes (list : Option Value) (truncated : Bool) :
    Except String (SortedMap Nat Nat × Bool) :=
  match list with
  | none => .ok (.empty, truncated)
  | some (.array pairs) => pairs.foldlM (fun st pair =>
    match countPair pair with
    | some (insn, hits) =>
      if 0xFFFFFFFF < insn then .error "bad opcode entry"
      else .ok (addOpcode st.1 insn hits st.2)
    | none => .error "bad opcode entry") (.empty, truncated)
  | some _ => .error "unimplemented_opcodes is not an array"

/-- `Parse`, the reader of the local format. -/
def parseGaps : Except String GapData :=
  if kMaxFileBytes < json.length then .error "file is too large"
  else do
    let root ← document json
    if !isObject root then .error "not a JSON object"
    else
      checkGapSchema root
      checkGapVersion root
      let titleId ← parseGapTitleId root
      let (modules, truncated) ←
        readModules true (root.get "modules") (flagOf (root.get "truncated"))
      let (noImage, truncated) ← readModules false (root.get "modules_without_image") truncated
      let (opcodes, truncated) ← readOpcodes (root.get "unimplemented_opcodes") truncated
      return {
        titleId := titleId
        runs := countOr0 (root.get "runs")
        hybridRuns := countOr0 (root.get "hybrid_runs")
        strictRuns := countOr0 (root.get "strict_static_runs")
        cleanRuns := countOr0 (root.get "clean_runs")
        lastRunStrict := flagOf (root.get "last_run_strict_static")
        truncated := truncated
        unattributedMisses := countOr0 (root.get "unattributed_misses")
        modules := modules
        noImage := noImage
        unimplemented := opcodes
        importedUnsupportedKinds := countOr0 (root.get "imported_unsupported_instruction_kinds")
        importedUnsupportedHits := countOr0 (root.get "imported_unsupported_instruction_hits") }

/-! ## Import -/

/-- Whether a file says that it is a shared one. -/
def isShared : Bool :=
  match root.get "schema" with
  | some (.string text) => text = kSharedSchemaName.toList
  | _ => false

/-- `ParseImport`: what was read, and whether it was a legacy file. -/
def parseImport : Except String SharedCoverage × Bool :=
  if kMaxFileBytes < json.length then (.error "file is too large", false)
  else
    match document json with
    | .error e => (.error e, false)
    | .ok root =>
      if isShared root then (parseShared json, false)
      else
        match parseGaps json with
        | .error e => (.error e, false)
        | .ok old => (.ok (toShared old), true)

end Drippu.RecompGaps
