import Drippu.FileSys.IpsLayer

/-!
# File system - The IPS formats

The formats are stated by their encoding: a magic, records and an end marker.  A patch is
complete when the marker follows its records, and cut when what follows is a proper part of
the marker or of one more record.

`PatchIPS` departs from the format in two places.  A literal record that crosses the end
of the input is refused, because the clipped read is compared with the whole size of the
record.  And a cut marker is accepted when the last bytes of the offset of the last record,
which are still in the buffer, complete it.

Main results:

- Theorem `patchIPS_format_iff`: when the result is the one the format asks for.
-/

namespace Drippu.FileSys

open Library List Nat

/-! ## The formats -/

inductive Format where
  | ips
  | ips32
  deriving DecidableEq, Repr

namespace Format

def type : Format → IPSFileType
  | ips => .ips
  | ips32 => .ips32

def magic : Format → List UInt8
  | ips => patchMagic
  | ips32 => ips32Magic

/-- The length of an offset field. -/
def width : Format → Nat
  | ips => 3
  | ips32 => 4

def marker : Format → List UInt8
  | ips => eof
  | ips32 => eeof

@[simp]
lemma length_marker (f : Format) : f.marker.length = f.width := by
  cases f <;> rfl

end Format

inductive Body where
  | literal (data : List UInt8)
  | run (length : Nat) (value : UInt8)
  deriving DecidableEq, Repr

namespace Body

/-- The bytes the record puts into the input. -/
def bytes : Body → List UInt8
  | literal data => data
  | run length value => replicate length value

/-- The sizes a record can state: a literal record of size zero would be read as a run. -/
def Encodable : Body → Prop
  | literal data => data ≠ [] ∧ data.length < 2 ^ 16
  | run length _ => length < 2 ^ 16

instance : DecidablePred Encodable
  | literal _ => inferInstanceAs (Decidable (_ ∧ _))
  | run _ _ => inferInstanceAs (Decidable (_ < _))

def encode : Body → List UInt8
  | literal data => beBytes 2 data.length ++ data
  | run length value => beBytes 2 0 ++ beBytes 2 length ++ [value]

end Body

/-- A record.  An offset whose bytes are the end marker cannot be written. -/
structure Record (f : Format) where
  offset : Nat
  body : Body
  offset_lt : offset < 256 ^ f.width
  not_marker : beBytes f.width offset ≠ f.marker
  encodable : body.Encodable

variable {f : Format}

namespace Record

def encode (r : Record f) : List UInt8 :=
  beBytes f.width r.offset ++ r.body.encode

/-- The effect of a record, clipped at the end of the input. -/
def apply (input : List UInt8) (r : Record f) : List UInt8 :=
  splice input r.offset (r.body.bytes.take (input.length - r.offset))

lemma length_apply {input : List UInt8} {r : Record f} (h : r.offset ≤ input.length) :
    (r.apply input).length = input.length := by
  apply length_splice
  rw [length_take]
  omega

end Record

def encodeAll {f : Format} (rs : List (Record f)) : List UInt8 :=
  rs.flatMap Record.encode

def applyAll {f : Format} (input : List UInt8) (rs : List (Record f)) : List UInt8 :=
  rs.foldl Record.apply input

/-- What stands at a record boundary of a patch that ends too early. -/
inductive Cut (f : Format) where
  | marker (n : Nat) (h : n < f.width)
  | record (r : Record f) (n : Nat) (h : n < r.encode.length)

def Cut.bytes {f : Format} : Cut f → List UInt8
  | marker n _ => f.marker.take n
  | record r n _ => r.encode.take n

/-! ## Reading the fields -/

variable {a b n size : Nat}

lemma shiftLeft_or {i m : Nat} (hm : 2 ^ i = m) (h : b < m) : a <<< i ||| b = a * m + b := by
  subst hm
  rw [← shiftLeft_add_eq_or_of_lt h, shiftLeft_eq]

lemma three_fields {c : Nat} (hb : b < 256) (hc : c < 256) :
    a <<< 16 ||| b <<< 8 ||| c = (a * 256 + b) * 256 + c := by
  have hlow := shiftLeft_or (a := b) (i := 8) (m := 256) rfl hc
  have hall := shiftLeft_or (a := a) (i := 16) (m := 65536) rfl (show b * 256 + c < 65536 by omega)
  rw [Nat.or_assoc, hlow, hall]
  omega

lemma four_fields {c d : Nat} (hb : b < 256) (hc : c < 256) (hd : d < 256) :
    a <<< 24 ||| b <<< 16 ||| c <<< 8 ||| d = ((a * 256 + b) * 256 + c) * 256 + d := by
  have hlow := three_fields (a := b) hc hd
  have hall := shiftLeft_or (a := a) (i := 24) (m := 16777216) rfl
    (show (b * 256 + c) * 256 + d < 16777216 by omega)
  rw [Nat.or_assoc, Nat.or_assoc, ← Nat.or_assoc (b <<< 16), hlow, hall]
  omega

lemma realOffset_eq (f : Format) {temp : List UInt8} (h : temp.length = f.width) :
    realOffset f.type temp = beValue temp := by
  cases f with
  | ips =>
    obtain ⟨a, b, c, rfl⟩ := length_eq_three.1 h
    simp only [realOffset, Format.type, beValue, foldl]
    rw [three_fields b.toNat_lt c.toNat_lt, zero_mul, zero_add]
  | ips32 =>
    obtain ⟨a, temp, rfl⟩ := exists_cons_of_length_eq_add_one h
    obtain ⟨b, c, d, rfl⟩ := length_eq_three.1 (succ.inj h)
    simp only [realOffset, Format.type, beValue, foldl]
    rw [four_fields b.toNat_lt c.toNat_lt d.toNat_lt, zero_mul, zero_add]

lemma isEOF_iff (f : Format) (temp : List UInt8) : isEOF f.type temp ↔ temp = f.marker := by
  cases f <;> simp [isEOF, Format.type, Format.marker]

lemma swap16_bytes (ha : a < 256) (b : Nat) : swap16 (a + b * 256) = b + a * 256 := by
  rw [swap16, add_mul_div_right _ _ (by decide), add_mul_mod_self_right,
    mod_eq_of_lt ha, div_eq_of_lt ha, zero_add]

lemma readU16_beBytes (h : n < 2 ^ 16) (rest : List UInt8) :
    ∃ size, readU16 (beBytes 2 n ++ rest) = some size ∧ swap16 size = n := by
  refine ⟨_, rfl, ?_⟩
  rw [UInt8.toNat_ofNat', UInt8.toNat_ofNat', swap16_bytes (by omega)]
  omega

/-! ## One record -/

lemma drop_beBytes (k n : Nat) (bytes : List UInt8) : (beBytes k n ++ bytes).drop k = bytes := by
  simp

variable {bytes inData input : List UInt8}

lemma readU16_short (h : bytes.length < 2) : readU16 bytes = none := by
  match bytes, h with
  | [], _ | [_], _ => rfl

lemma patchRecord_short (offset : Nat) (h : bytes.length < 2) :
    patchRecord inData offset bytes = .ok none := by
  rw [patchRecord, readU16_short h]

/-- A literal record whose data field is followed by any bytes, also by too few. -/
lemma patchRecord_literal (hpos : n ≠ 0) (hn : n < 2 ^ 16) (inData : List UInt8) (offset : Nat)
    (bytes : List UInt8) :
    patchRecord inData offset (beBytes 2 n ++ bytes) =
      (store inData offset (bytes.take (clipped inData offset n))).map fun inData' =>
        if (bytes.take (clipped inData offset n)).length ≠ n then none
        else some (inData', bytes.drop n) := by
  obtain ⟨size, hread, hsize⟩ := readU16_beBytes hn bytes
  simp [patchRecord, hread, hsize, hpos]

lemma patchRecord_run_short (offset : Nat) (h : bytes.length < 3) :
    patchRecord inData offset (beBytes 2 0 ++ bytes) = .ok none := by
  obtain ⟨size, hread, hsize⟩ := readU16_beBytes (n := 0) (by decide) bytes
  simp only [patchRecord, hread, hsize, if_true, drop_beBytes]
  rcases bytes with _ | ⟨_, _ | ⟨_, _ | ⟨_, _⟩⟩⟩
  · rfl
  · rfl
  · rfl
  · exact absurd h (by simp)

lemma patchRecord_run (hn : n < 2 ^ 16) (inData : List UInt8) (offset : Nat) (value : UInt8)
    (rest : List UInt8) :
    patchRecord inData offset (beBytes 2 0 ++ (beBytes 2 n ++ value :: rest)) =
      (store inData offset (replicate (clipped inData offset n) value)).map fun inData' =>
        some (inData', rest) := by
  obtain ⟨nil, hnil, hz⟩ := readU16_beBytes (n := 0) (by decide) (beBytes 2 n ++ value :: rest)
  obtain ⟨size, hread, hsize⟩ := readU16_beBytes hn (value :: rest)
  simp [patchRecord, hnil, hz, hread, hsize]

lemma clipped_of_lt {offset : Nat} (hsize : size < 2 ^ 16)
    (h : inData.length < (offset + size) % 2 ^ 32) :
    clipped inData offset size = inData.length - offset ∧ inData.length < offset + size := by
  rw [clipped, if_pos h, mod_eq_of_lt (by omega)]
  exact ⟨rfl, by omega⟩

lemma clipped_of_le {offset : Nat} (h : (offset + size) % 2 ^ 32 ≤ inData.length) :
    clipped inData offset size = size := by
  rw [clipped, if_neg (by omega)]

/-- How the loop leaves at a record. -/
inductive Failure where
  | null
  | fault
  deriving DecidableEq, Repr

def Failure.result : Failure → Except Fault (Option (List UInt8))
  | null => .ok none
  | fault => .error .writeOutOfBounds

namespace Record

/-- How a record fails on an input of a given size, if it does.  The comparison with the size
is the one of the code, on a sum of 32 bits. -/
def failure (size : Nat) (r : Record f) : Option Failure :=
  if size < r.offset then some .null
  else
    match r.body with
    | .literal data =>
      if size < (r.offset + data.length) % 2 ^ 32 then some .null
      else if size < r.offset + data.length then some .fault
      else none
    | .run length _ =>
      if size < (r.offset + length) % 2 ^ 32 then none
      else if size < r.offset + length then some .fault
      else none

end Record

lemma store_of_le {pos : Nat} (h : pos + bytes.length ≤ inData.length) :
    store inData pos bytes = .ok (splice inData pos bytes) :=
  if_pos h

lemma store_of_lt {pos : Nat} (h : inData.length < pos + bytes.length) :
    store inData pos bytes = .error .writeOutOfBounds :=
  if_neg (by omega)

lemma patchRecord_encode {r : Record f} (hoffset : r.offset ≤ inData.length) (rest : List UInt8) :
    patchRecord inData r.offset (r.body.encode ++ rest) =
      match r.failure inData.length with
      | some .null => .ok none
      | some .fault => .error .writeOutOfBounds
      | none => .ok (some (r.apply inData, rest)) := by
  have henc := r.encodable
  simp only [Record.failure, Record.apply, if_neg (not_lt.mpr hoffset)]
  cases hbody : r.body with
  | literal data =>
    rw [hbody] at henc
    obtain ⟨hne, hlen⟩ := henc
    have hpos : data.length ≠ 0 := by simpa using hne
    simp only [Body.encode, Body.bytes, append_assoc]
    rw [patchRecord_literal hpos hlen]
    by_cases hlt : inData.length < (r.offset + data.length) % 2 ^ 32
    · -- the clipped read is shorter than the size of the record
      obtain ⟨hclip, hcross⟩ := clipped_of_lt hlen hlt
      have htake : ((data ++ rest).take (clipped inData r.offset data.length)).length ≤
          inData.length - r.offset := by
        rw [hclip, length_take]
        omega
      rw [if_pos hlt, store_of_le (by omega), Except.map, if_pos (by omega)]
    · rw [if_neg hlt, clipped_of_le (by omega), take_left, drop_left]
      by_cases hcross : inData.length < r.offset + data.length
      · rw [if_pos hcross, store_of_lt hcross, Except.map]
      · rw [if_neg hcross, store_of_le (by omega), Except.map, if_neg (by simp),
          take_of_length_le (by omega)]
  | run length value =>
    rw [hbody] at henc
    simp only [Body.encode, Body.bytes, append_assoc, singleton_append]
    rw [patchRecord_run henc]
    by_cases hlt : inData.length < (r.offset + length) % 2 ^ 32
    · obtain ⟨hclip, hcross⟩ := clipped_of_lt henc hlt
      rw [if_pos hlt, hclip, store_of_le (by simp; omega), Except.map, take_replicate,
        min_eq_left (by omega)]
    rw [if_neg hlt, clipped_of_le (by omega)]
    by_cases hcross : inData.length < r.offset + length
    · rw [if_pos hcross, store_of_lt (by simpa using hcross), Except.map]
    · rw [if_neg hcross, store_of_le (by simp; omega), Except.map, take_replicate,
        min_eq_right (by omega)]

/-! ## The record loop -/

variable {temp : List UInt8}

section
variable (htemp : temp.length = f.width)
include htemp

/-- A field at the front of the patch is read into the whole buffer. -/
lemma patchLoop_field {field : List UInt8}
    (hfield : field.length = f.width) (hne : field ≠ f.marker) (ips : List UInt8) :
    patchLoop f.type inData temp (field ++ ips) =
      if inData.length < beValue field then .ok none
      else
        match patchRecord inData (beValue field) ips with
        | .error e => .error e
        | .ok none => .ok none
        | .ok (some (inData', ips')) => patchLoop f.type inData' field ips' := by
  have htake : (field ++ ips).take temp.length = field := by
    rw [htemp, ← hfield, take_left]
  have hdrop : (field ++ ips).drop temp.length = ips := by
    rw [htemp, ← hfield, drop_left]
  have hrest : temp.drop field.length = [] := drop_of_length_le (by omega)
  have heof : isEOF f.type field = false := by
    rw [← Bool.not_eq_true, isEOF_iff]
    exact hne
  have hloop := patchLoop_eq f.type inData temp _ htake (by rw [hrest, append_nil])
  rw [if_pos ⟨by omega, heof⟩, realOffset_eq f hfield, hdrop] at hloop
  exact hloop

lemma patchLoop_marker (ips : List UInt8) :
    patchLoop f.type inData temp (f.marker ++ ips) = .ok (some inData) := by
  have htake : (f.marker ++ ips).take temp.length = f.marker := by
    rw [htemp, ← f.length_marker, take_left]
  have hrest : temp.drop f.marker.length = [] := drop_of_length_le (by simp [htemp])
  have heof : isEOF f.type f.marker = true := (isEOF_iff f _).mpr rfl
  rw [patchLoop_eq _ _ _ _ htake (by rw [hrest, append_nil]), heof]
  simp

lemma patchLoop_short {ips : List UInt8} (hips : ips.length < f.width) :
    patchLoop f.type inData temp ips =
      if ips ++ temp.drop ips.length = f.marker then .ok (some inData) else .ok none := by
  have htake : ips.take temp.length = ips := take_of_length_le (by omega)
  have hlen : ips.length ≠ temp.length := by omega
  rw [patchLoop_eq _ _ _ _ htake rfl]
  simp only [hlen, false_and, if_false]
  by_cases h : ips ++ temp.drop ips.length = f.marker
  · rw [if_pos h, if_neg (by simpa using (isEOF_iff f _).mpr h)]
  · rw [if_neg h, if_pos (by rw [← Bool.not_eq_true, isEOF_iff]; exact h)]

lemma patchLoop_encode (r : Record f) (rest : List UInt8) :
    patchLoop f.type inData temp (r.encode ++ rest) =
      match r.failure inData.length with
      | some failure => failure.result
      | none => patchLoop f.type (r.apply inData) (beBytes f.width r.offset) rest := by
  rw [Record.encode, append_assoc,
    patchLoop_field htemp (length_beBytes _ _) r.not_marker, beValue_beBytes r.offset_lt]
  by_cases hoffset : inData.length < r.offset
  · simp [Record.failure, hoffset, Failure.result]
  · rw [if_neg hoffset, patchRecord_encode (not_lt.mp hoffset)]
    cases r.failure inData.length with
    | none => rfl
    | some failure => cases failure <;> rfl

end

/-- How the records of a patch fail, if they do. -/
def firstFailure (size : Nat) (rs : List (Record f)) : Option Failure :=
  rs.findSome? (Record.failure size)

/-- The buffer behind the records. -/
def lastField (temp : List UInt8) (rs : List (Record f)) : List UInt8 :=
  rs.foldl (fun _ r => beBytes f.width r.offset) temp

lemma length_lastField (htemp : temp.length = f.width) (rs : List (Record f)) :
    (lastField temp rs).length = f.width := by
  induction rs generalizing temp with
  | nil => exact htemp
  | cons r rs ih => exact ih (length_beBytes _ _)

lemma Record.offset_le_of_failure {size : Nat} {r : Record f} (h : r.failure size = none) :
    r.offset ≤ size := by
  by_contra hlt
  simp [Record.failure, not_le.mp hlt] at h

lemma length_applyAll {rs : List (Record f)} (h : ∀ r ∈ rs, r.offset ≤ inData.length) :
    (applyAll inData rs).length = inData.length := by
  induction rs generalizing inData with
  | nil => rfl
  | cons r rs ih =>
    have hr := Record.length_apply (h r mem_cons_self)
    rw [applyAll, foldl_cons, ← applyAll, ih, hr]
    intro s hs
    rw [hr]
    exact h s (mem_cons_of_mem r hs)

lemma patchLoop_records (htemp : temp.length = f.width) (rs : List (Record f)) (rest : List UInt8) :
    patchLoop f.type inData temp (encodeAll rs ++ rest) =
      match firstFailure inData.length rs with
      | some failure => failure.result
      | none => patchLoop f.type (applyAll inData rs) (lastField temp rs) rest := by
  induction rs generalizing inData temp with
  | nil => rfl
  | cons r rs ih =>
    rw [encodeAll, flatMap_cons, ← encodeAll, append_assoc, patchLoop_encode htemp,
      firstFailure, findSome?_cons, ← firstFailure]
    cases hr : r.failure inData.length with
    | some failure => rfl
    | none =>
      -- the copy keeps its length, so the later records are judged by the same size
      have hlen := Record.length_apply (Record.offset_le_of_failure hr)
      rw [ih (length_beBytes _ _), hlen]
      rfl

/-! ## Patches that end too early -/

namespace Cut

/-- The bytes left complete the end of the buffer to a marker. -/
def Stale (cut : Cut f) (temp : List UInt8) : Prop :=
  cut.bytes.length < f.width ∧ cut.bytes ++ temp.drop cut.bytes.length = f.marker

/-- The bytes left of a literal record are written behind the end of the input: the sum the
code compares has wrapped. -/
def Overruns (size : Nat) : Cut f → Prop
  | marker _ _ => False
  | record r n _ =>
    match r.body with
    | .literal data =>
      r.offset ≤ size ∧ (r.offset + data.length) % 2 ^ 32 ≤ size ∧
        size + (f.width + 2) < r.offset + n
    | .run _ _ => False

end Cut

lemma take_append_of_le {α : Type} {xs ys : List α} (h : xs.length ≤ n) :
    (xs ++ ys).take n = xs ++ ys.take (n - xs.length) := by
  rw [take_append, take_of_length_le h]

lemma patchRecord_cut {r : Record f} {n : Nat} (hn : f.width ≤ n)
    (hcut : n < r.encode.length) (hoffset : r.offset ≤ inData.length) :
    patchRecord inData r.offset (r.body.encode.take (n - f.width)) = .ok none ∧
        ¬ (Cut.record r n hcut).Overruns inData.length ∨
      patchRecord inData r.offset (r.body.encode.take (n - f.width)) = .error .writeOutOfBounds ∧
        (Cut.record r n hcut).Overruns inData.length := by
  have henc := r.encodable
  have hlen := hcut
  rw [Record.encode, length_append, length_beBytes] at hlen
  simp only [Cut.Overruns]
  cases hbody : r.body with
  | literal data =>
    rw [hbody] at henc hlen
    obtain ⟨hne, hsize⟩ := henc
    have hpos : data.length ≠ 0 := by simpa using hne
    simp only [Body.encode, length_append, length_beBytes] at hlen ⊢
    by_cases hshort : n - f.width < 2
    · refine .inl ⟨patchRecord_short _ ?_, by omega⟩
      rw [length_take]
      omega
    rw [take_append_of_le (by rw [length_beBytes]; omega), length_beBytes,
      patchRecord_literal hpos hsize]
    have htaken : ((data.take (n - f.width - 2)).take (clipped inData r.offset data.length)).length
        ≠ data.length := by
      simp only [length_take]
      omega
    by_cases hlt : inData.length < (r.offset + data.length) % 2 ^ 32
    · obtain ⟨hclip, -⟩ := clipped_of_lt hsize hlt
      refine .inl ⟨?_, by omega⟩
      rw [store_of_le (by simp only [hclip, length_take]; omega), Except.map, if_pos htaken]
    rw [clipped_of_le (not_lt.mp hlt)] at htaken ⊢
    by_cases hover : inData.length < r.offset + (n - f.width - 2)
    · refine .inr ⟨?_, hoffset, not_lt.mp hlt, by omega⟩
      rw [store_of_lt (by simp only [length_take]; omega), Except.map]
    · refine .inl ⟨?_, by omega⟩
      rw [store_of_le (by simp only [length_take]; omega), Except.map, if_pos htaken]
  | run length value =>
    rw [hbody] at hlen
    simp only [Body.encode, length_append, length_beBytes, length_singleton] at hlen ⊢
    refine .inl ⟨?_, not_false⟩
    by_cases hshort : n - f.width < 2
    · apply patchRecord_short
      rw [length_take]
      omega
    · rw [append_assoc, take_append_of_le (by rw [length_beBytes]; omega), length_beBytes]
      apply patchRecord_run_short
      simp only [length_take]
      omega

/-- The loop at a cut: null, unless the buffer completes the marker or a write overruns. -/
lemma patchLoop_cut (htemp : temp.length = f.width) (cut : Cut f) :
    patchLoop f.type inData temp cut.bytes = .ok none ↔
      ¬ cut.Stale temp ∧ ¬ cut.Overruns inData.length := by
  by_cases hshort : cut.bytes.length < f.width
  · have hover : ¬ cut.Overruns inData.length := by
      cases cut with
      | marker n h => exact not_false
      | record r n h =>
        simp only [Cut.bytes, length_take] at hshort
        simp only [Cut.Overruns]
        cases r.body with
        | literal data => omega
        | run length value => exact not_false
    rw [patchLoop_short htemp hshort]
    by_cases hstale : cut.bytes ++ temp.drop cut.bytes.length = f.marker
    · simp [Cut.Stale, hshort, hstale]
    · simp [Cut.Stale, hstale, hover]
  have hstale : ¬ cut.Stale temp := fun h => hshort h.1
  cases cut with
  | marker n h =>
    simp only [Cut.bytes, length_take, Format.length_marker] at hshort
    omega
  | record r n h =>
    simp only [Cut.bytes, length_take] at hshort
    have hn : f.width ≤ n := by omega
    rw [Cut.bytes, Record.encode, take_append_of_le (by rwa [length_beBytes]), length_beBytes,
      patchLoop_field htemp (length_beBytes _ _) r.not_marker, beValue_beBytes r.offset_lt]
    by_cases hoffset : inData.length < r.offset
    · have hover : ¬ (Cut.record r n h).Overruns inData.length := by
        simp only [Cut.Overruns]
        cases r.body with
        | literal data => omega
        | run length value => exact not_false
      simp [hoffset, hstale, hover]
    · rw [if_neg hoffset]
      rcases patchRecord_cut hn h (not_lt.mp hoffset) with ⟨hres, hover⟩ | ⟨hres, hover⟩
      · simp [hres, hstale, hover]
      · simp [hres, hover]

/-! ## The result -/

lemma patchIPS_magic (f : Format) (hne : input ≠ []) (body : List UInt8) :
    patchIPS input (f.magic ++ body) = patchLoop f.type input (replicate f.width 0) body := by
  have hlen : input.length ≠ 0 := by simpa using hne
  cases f <;> simp [patchIPS, identifyMagic, Format.magic, Format.type, Format.width, patchMagic,
    ips32Magic, hlen]

/-- The records `PatchIPS` applies as the format asks: literal records inside the input, and
runs whose end, where it lies behind the input, does not wrap in 32 bits. -/
def Record.Fits {f : Format} (size : Nat) (r : Record f) : Prop :=
  match r.body with
  | .literal data => r.offset + data.length ≤ size
  | .run length _ => r.offset + length ≤ size ∨ r.offset + length < 2 ^ 32

lemma Record.failure_eq_none_iff {r : Record f} (h : r.offset ≤ size) :
    r.failure size = none ↔ r.Fits size := by
  have henc := r.encodable
  simp only [Record.failure, Record.Fits, if_neg (not_lt.mpr h)]
  cases hbody : r.body with
  | literal data =>
    dsimp only
    split
    · simp; omega
    · split
      · simp; omega
      · simp; omega
  | run length value =>
    rw [hbody] at henc
    have hlength : length < 2 ^ 16 := henc
    dsimp only
    split
    · simp; omega
    · split
      · simp; omega
      · simp; omega

lemma firstFailure_eq_none_iff {rs : List (Record f)} :
    firstFailure size rs = none ↔ ∀ r ∈ rs, r.failure size = none := by
  simp [firstFailure]

lemma patchIPS_complete (hne : input ≠ []) (rs : List (Record f)) (rest : List UInt8) :
    patchIPS input (f.magic ++ (encodeAll rs ++ (f.marker ++ rest))) =
      match firstFailure input.length rs with
      | some failure => failure.result
      | none => .ok (some (applyAll input rs)) := by
  have htemp : (replicate f.width (0 : UInt8)).length = f.width := length_replicate
  rw [patchIPS_magic f hne, patchLoop_records htemp]
  cases firstFailure input.length rs with
  | some failure => rfl
  | none => exact patchLoop_marker (length_lastField htemp rs) rest

/-- The result for a cut patch is null, unless the loop fails differently at a record before
the cut or at the cut itself. -/
lemma patchIPS_cut (hne : input ≠ []) (rs : List (Record f)) (cut : Cut f) :
    patchIPS input (f.magic ++ (encodeAll rs ++ cut.bytes)) = .ok none ↔
      firstFailure input.length rs = some .null ∨
        firstFailure input.length rs = none ∧
          ¬ cut.Stale (lastField (replicate f.width 0) rs) ∧
          ¬ cut.Overruns input.length := by
  have htemp : (replicate f.width (0 : UInt8)).length = f.width := length_replicate
  rw [patchIPS_magic f hne, patchLoop_records htemp]
  cases hfail : firstFailure input.length rs with
  | some failure => cases failure <;> simp [Failure.result]
  | none =>
    have hlen : (applyAll input rs).length = input.length :=
      length_applyAll fun r hr =>
        Record.offset_le_of_failure (firstFailure_eq_none_iff.mp hfail r hr)
    rw [patchLoop_cut (length_lastField htemp rs), hlen]
    simp

/-- On a complete patch the records are applied in order and clipped exactly when each of them
fits; on a cut patch the result is null exactly when the stale buffer does not complete the
marker and no write overruns the input. -/
theorem patchIPS_format_iff (f : Format) {input : List UInt8} (hne : input ≠ [])
    (rs : List (Record f)) :
    ((∀ r ∈ rs, r.offset ≤ input.length) → ∀ rest,
      (patchIPS input (f.magic ++ (encodeAll rs ++ (f.marker ++ rest))) =
          .ok (some (applyAll input rs)) ↔
        ∀ r ∈ rs, r.Fits input.length)) ∧
    ∀ cut : Cut f,
      (patchIPS input (f.magic ++ (encodeAll rs ++ cut.bytes)) = .ok none ↔
        firstFailure input.length rs = some .null ∨
          firstFailure input.length rs = none ∧
            ¬ cut.Stale (lastField (replicate f.width 0) rs) ∧
            ¬ cut.Overruns input.length) := by
  refine ⟨fun hoffsets rest => ?_, patchIPS_cut hne rs⟩
  have hfits : firstFailure input.length rs = none ↔ ∀ r ∈ rs, r.Fits input.length := by
    rw [firstFailure_eq_none_iff]
    exact forall₂_congr fun r hr => Record.failure_eq_none_iff (hoffsets r hr)
  rw [patchIPS_complete hne, ← hfits]
  cases firstFailure input.length rs with
  | some failure => cases failure <;> simp [Failure.result]
  | none => simp

/-- Two bytes at the start of an input. -/
def literalAtStart : Record .ips where
  offset := 0
  body := .literal [0xAA, 0xBB]
  offset_lt := by decide
  not_marker := by decide
  encodable := by decide

/-- An empty run whose offset ends in the last byte of the marker. -/
def emptyRun : Record .ips where
  offset := 0x46
  body := .run 0 0
  offset_lt := by decide
  not_marker := by decide
  encodable := by decide

theorem patchIPS_format_sample :
    patchIPS [0, 0] (patchMagic ++ (encodeAll [literalAtStart] ++ (eof ++ []))) =
        .ok (some [0xAA, 0xBB]) ∧
      patchIPS [0, 0] (patchMagic ++ (encodeAll [literalAtStart] ++ eof.take 2)) = .ok none := by
  have h := patchIPS_format_iff .ips (show ([0, 0] : List UInt8) ≠ [] by decide) [literalAtStart]
  refine ⟨(h.1 (by decide) []).mpr ?_,
    (h.2 (.marker 2 (by decide))).mpr (.inr ⟨rfl, ?_, not_false⟩)⟩
  · simp [Record.Fits, literalAtStart]
  · rintro ⟨-, hmarker⟩
    exact absurd hmarker (by decide)

/-- A literal record that crosses the end of the input is refused instead of clipped, and a
patch whose marker is cut is accepted when the last offset ends like the marker. -/
theorem patchIPS_departs :
    patchIPS [0] (patchMagic ++ (encodeAll [literalAtStart] ++ (eof ++ []))) = .ok none ∧
      applyAll [0] [literalAtStart] = [0xAA] ∧
      patchIPS (replicate 70 0) (patchMagic ++ (encodeAll [emptyRun] ++ eof.take 2)) =
        .ok (some (replicate 70 0)) := by
  refine ⟨patchIPS_complete (f := .ips) (by decide) [literalAtStart] [], rfl, ?_⟩
  have htemp : (replicate Format.ips.width (0 : UInt8)).length = 3 := rfl
  have hne : replicate 70 (0 : UInt8) ≠ [] := by decide
  refine (patchIPS_magic .ips hne (encodeAll [emptyRun] ++ eof.take 2)).trans ?_
  rw [patchLoop_records htemp]
  exact patchLoop_short (f := .ips) rfl (by decide)

end Drippu.FileSys
