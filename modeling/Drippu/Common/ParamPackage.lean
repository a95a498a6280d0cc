import Drippu.Library.Delimited

/-!
# Common - Parameter packages

A parameter package is a map from strings to strings that is written as one string: pairs of
a key and a value, with the two separators and the escape character escaped.  A pair whose
value is empty is written with nothing behind its separator, and the reader, which sees only
one part, drops it.

Main results:

- Theorem `round_trip_iff`: the map is the same exactly when no value is empty.
-/

namespace Drippu.Common

open Library List

abbrev Text := List Char

def keyValueSeparator : Char := ':'

def paramSeparator : Char := ','

def escapeCharacter : Char := '$'

def keyValueSeparatorEscape : Text := ['$', '0']

def paramSeparatorEscape : Text := ['$', '1']

def escapeCharacterEscape : Text := ['$', '2']

def emptyPlaceholder : Text := "[empty]".toList

/-- The entries of the map in the order in which it is traversed. -/
structure ParamPackage where
  data : List (Text × Text)
  nodup : (data.map Prod.fst).Nodup

namespace ParamPackage

def empty : ParamPackage := ⟨[], nodup_nil⟩

def find? (p : ParamPackage) (key : Text) : Option Text := p.data.lookup key

/-- `insert_or_assign`. -/
def set (p : ParamPackage) (key value : Text) : ParamPackage :=
  if h : key ∈ p.data.map Prod.fst then
    { data := p.data.map fun e => if e.1 = key then (key, value) else e
      nodup := by
        have hkeys : (p.data.map fun e => if e.1 = key then (key, value) else e).map Prod.fst =
            p.data.map Prod.fst := by
          rw [map_map]
          refine map_congr_left fun e _ => ?_
          by_cases he : e.1 = key
          · simp [he]
          · simp [he]
        rw [hkeys]
        exact p.nodup }
  else
    { data := p.data ++ [(key, value)]
      nodup := by
        rw [map_append]
        exact List.Nodup.append p.nodup (nodup_singleton _) (disjoint_singleton.2 h) }

/-! ## Serialization -/

def escape (part : Text) : Text :=
  let part := replaceAll part [escapeCharacter] escapeCharacterEscape
  let part := replaceAll part [paramSeparator] paramSeparatorEscape
  replaceAll part [keyValueSeparator] keyValueSeparatorEscape

def unescape (part : Text) : Text :=
  let part := replaceAll part keyValueSeparatorEscape [keyValueSeparator]
  let part := replaceAll part paramSeparatorEscape [paramSeparator]
  replaceAll part escapeCharacterEscape [escapeCharacter]

def writePair (e : Text × Text) : Text := escape e.1 ++ keyValueSeparator :: escape e.2

def serialize (p : ParamPackage) : Text :=
  if p.data = [] then emptyPlaceholder
  else (p.data.flatMap fun e => writePair e ++ [paramSeparator]).dropLast

/-- A pair that does not have two parts is skipped. -/
def readPair (p : ParamPackage) (pair : Text) : ParamPackage :=
  match split keyValueSeparator pair with
  | [key, value] => p.set (unescape key) (unescape value)
  | _ => p

/-- The constructor from a serialized package. -/
def ofText (serialized : Text) : ParamPackage :=
  if serialized = emptyPlaceholder then empty
  else (split paramSeparator serialized).foldl readPair empty

/-! ## Escapes -/

/-- How a character is written. -/
def code (a : Char) : Text :=
  if a = '$' then ['$', '2'] else if a = ',' then ['$', '1'] else if a = ':' then ['$', '0']
  else [a]

lemma code_of_ne {a : Char} (hdollar : a ≠ '$') (hcomma : a ≠ ',') (hcolon : a ≠ ':') :
    code a = [a] := by
  rw [code, if_neg hdollar, if_neg hcomma, if_neg hcolon]

variable (p : ParamPackage) (e : Text × Text) (part : Text) (a : Char)

lemma escape_eq : escape part = part.flatMap code := by
  unfold escape
  rw [replaceAll_singleton _ _ (by decide), replaceAll_singleton _ _ (by decide),
    replaceAll_singleton _ _ (by decide), flatMap_assoc, flatMap_assoc]
  refine flatMap_congr fun a _ => ?_
  by_cases hdollar : a = '$'
  · subst hdollar
    decide
  by_cases hcomma : a = ','
  · subst hcomma
    decide
  by_cases hcolon : a = ':'
  · subst hcolon
    decide
  · rw [code_of_ne hdollar hcomma hcolon]
    simp [escapeCharacter, paramSeparator, keyValueSeparator, hdollar, hcomma, hcolon]

/-- The codes after the separator of keys and values has been restored. -/
def code₁ (a : Char) : Text :=
  if a = '$' then ['$', '2'] else if a = ',' then ['$', '1'] else [a]

/-- The codes after both separators have been restored. -/
def code₂ (a : Char) : Text := if a = '$' then ['$', '2'] else [a]

lemma isCode_code : IsCode '$' (code a) := by
  unfold code
  split
  · exact .inr ⟨'2', by decide, rfl⟩
  split
  · exact .inr ⟨'1', by decide, rfl⟩
  · split
    · exact .inr ⟨'0', by decide, rfl⟩
    · exact .inl ⟨a, ‹_›, rfl⟩

lemma isCode_code₁ : IsCode '$' (code₁ a) := by
  unfold code₁
  split
  · exact .inr ⟨'2', by decide, rfl⟩
  · split
    · exact .inr ⟨'1', by decide, rfl⟩
    · exact .inl ⟨a, ‹_›, rfl⟩

lemma isCode_code₂ : IsCode '$' (code₂ a) := by
  unfold code₂
  split
  · exact .inr ⟨'2', by decide, rfl⟩
  · exact .inl ⟨a, ‹_›, rfl⟩

lemma restore_code : (if code a = ['$', '0'] then [':'] else code a) = code₁ a := by
  unfold code code₁
  split
  · decide
  split
  · decide
  · split
    · rename_i hcolon
      rw [if_pos rfl, hcolon]
    · exact if_neg (by simp)

lemma restore_code₁ : (if code₁ a = ['$', '1'] then [','] else code₁ a) = code₂ a := by
  unfold code₁ code₂
  split
  · decide
  · split
    · rename_i hcomma
      rw [if_pos rfl, hcomma]
    · exact if_neg (by simp)

lemma restore_code₂ : (if code₂ a = ['$', '2'] then ['$'] else code₂ a) = [a] := by
  unfold code₂
  split
  · rename_i hdollar
    rw [if_pos rfl, hdollar]
  · exact if_neg (by simp)

lemma unescape_escape : unescape (escape part) = part := by
  have hcolon : replaceAll (part.flatMap code) keyValueSeparatorEscape [keyValueSeparator] =
      part.flatMap code₁ :=
    (replaceAll_codes isCode_code part).trans (flatMap_congr fun a _ => restore_code a)
  have hcomma : replaceAll (part.flatMap code₁) paramSeparatorEscape [paramSeparator] =
      part.flatMap code₂ :=
    (replaceAll_codes isCode_code₁ part).trans (flatMap_congr fun a _ => restore_code₁ a)
  have hdollar : replaceAll (part.flatMap code₂) escapeCharacterEscape [escapeCharacter] =
      part.flatMap fun a => [a] :=
    (replaceAll_codes isCode_code₂ part).trans (flatMap_congr fun a _ => restore_code₂ a)
  rw [unescape, escape_eq, hcolon, hcomma, hdollar, flatMap_singleton']

lemma separator_not_mem_code : ':' ∉ code a ∧ ',' ∉ code a := by
  unfold code
  split
  · decide
  split
  · decide
  · split
    · decide
    · rename_i hcomma hcolon
      exact ⟨by simpa using Ne.symm hcolon, by simpa using Ne.symm hcomma⟩

lemma separator_not_mem_escape : ':' ∉ escape part ∧ ',' ∉ escape part := by
  rw [escape_eq]
  refine ⟨fun hmem => ?_, fun hmem => ?_⟩
  · obtain ⟨a, -, ha⟩ := mem_flatMap.1 hmem
    exact (separator_not_mem_code a).1 ha
  · obtain ⟨a, -, ha⟩ := mem_flatMap.1 hmem
    exact (separator_not_mem_code a).2 ha

lemma escape_eq_nil_iff : escape part = [] ↔ part = [] := by
  refine ⟨fun h => ?_, fun h => ?_⟩
  · rw [← unescape_escape part, h]
    decide
  · rw [h]
    decide

/-! ## Pairs -/

lemma split_writePair :
    split keyValueSeparator (writePair e) =
      escape e.1 :: if e.2 = [] then [] else [escape e.2] := by
  have hlast := split_last (separator_not_mem_escape e.2).1
  simp only [escape_eq_nil_iff] at hlast
  exact (split_append (separator_not_mem_escape e.1).1 _).trans (congrArg _ hlast)

/-- A pair is read as it was written, or skipped when its value is empty. -/
lemma readPair_writePair : p.readPair (writePair e) = if e.2 = [] then p else p.set e.1 e.2 := by
  rw [readPair, split_writePair]
  split
  · rename_i key value heq
    by_cases hvalue : e.2 = []
    · rw [if_pos hvalue] at heq
      cases heq
    · rw [if_neg hvalue] at heq
      cases heq
      rw [if_neg hvalue, unescape_escape, unescape_escape]
  · rename_i hno
    by_cases hvalue : e.2 = []
    · rw [if_pos hvalue]
    · exact absurd (by rw [if_neg hvalue]) (hno (escape e.1) (escape e.2))

lemma separator_not_mem_writePair : ',' ∉ writePair e := by
  intro hmem
  rcases mem_append.1 hmem with hkey | hvalue
  · exact (separator_not_mem_escape e.1).2 hkey
  · rcases mem_cons.1 hvalue with hcolon | hvalue
    · exact absurd hcolon (by decide)
    · exact (separator_not_mem_escape e.2).2 hvalue

lemma separator_mem_writePair : ':' ∈ writePair e :=
  mem_append.2 (.inr mem_cons_self)

lemma split_serialize {p : ParamPackage} (h : p.data ≠ []) :
    split paramSeparator p.serialize = p.data.map writePair := by
  have hpieces : ∀ s ∈ p.data.map writePair, ',' ∉ s ∧ s ≠ [] := by
    intro s hs
    obtain ⟨e, -, rfl⟩ := mem_map.1 hs
    exact ⟨separator_not_mem_writePair e, ne_nil_of_mem (separator_mem_writePair e)⟩
  rw [serialize, if_neg h]
  have hsplit := split_terminated hpieces
  rw [flatMap_map] at hsplit
  exact hsplit

lemma serialize_ne_placeholder {p : ParamPackage} (h : p.data ≠ []) :
    p.serialize ≠ emptyPlaceholder := by
  intro heq
  have hsplit := split_serialize h
  rw [heq] at hsplit
  obtain ⟨e, rest, hdata⟩ := exists_cons_of_ne_nil h
  have hmem := separator_mem_writePair e
  rw [hdata, map_cons] at hsplit
  -- the placeholder is one piece, without a separator
  rw [← (List.cons.inj hsplit).1] at hmem
  exact absurd hmem (by decide)

lemma data_set_of_not_mem {p : ParamPackage} {key : Text} (h : key ∉ p.data.map Prod.fst)
    (value : Text) : (p.set key value).data = p.data ++ [(key, value)] := by
  rw [set, dif_neg h]

lemma data_foldl_readPair (l : List (Text × Text)) (p : ParamPackage)
    (h : ((p.data ++ l).map Prod.fst).Nodup) :
    ((l.map writePair).foldl readPair p).data = p.data ++ l.filter fun e => e.2 ≠ [] := by
  induction l generalizing p with
  | nil => simp
  | cons e l ih =>
    have hnodup : (p.data.map Prod.fst ++ e.1 :: l.map Prod.fst).Nodup := by simpa using h
    obtain ⟨hnew, hrest⟩ := nodup_middle.1 hnodup |> nodup_cons.1
    rw [map_cons, foldl_cons, readPair_writePair]
    by_cases hvalue : e.2 = []
    · rw [if_pos hvalue, ih p (by simpa using hrest), filter_cons_of_neg (by simpa)]
    · have hset := data_set_of_not_mem (p := p) (fun hmem => hnew (mem_append_left _ hmem)) e.2
      rw [if_neg hvalue, ih _ (by rw [hset]; simpa using h), hset,
        filter_cons_of_pos (by simpa), List.append_assoc]
      rfl

/-- The reader returns the entries with a value. -/
lemma data_ofText_serialize : (ofText p.serialize).data = p.data.filter fun e => e.2 ≠ [] := by
  by_cases h : p.data = []
  · rw [serialize, if_pos h, ofText, if_pos rfl, h]
    rfl
  · rw [ofText, if_neg (serialize_ne_placeholder h), split_serialize h,
      data_foldl_readPair p.data empty p.nodup]
    rfl

/-! ## Round trip -/

lemma find?_eq_some_iff (key value : Text) : p.find? key = some value ↔ (key, value) ∈ p.data := by
  rw [find?, lookup_eq_some_iff]
  refine ⟨fun ⟨front, back, hdata, _⟩ => ?_, fun hmem => ?_⟩
  · rw [hdata]
    exact mem_append_right _ mem_cons_self
  obtain ⟨front, back, hdata⟩ := append_of_mem hmem
  refine ⟨front, back, hdata, fun e he => ?_⟩
  have hnodup := p.nodup
  rw [hdata, map_append, map_cons] at hnodup
  have hfront : key ∉ front.map Prod.fst := fun hkey =>
    (nodup_cons.1 (nodup_middle.1 hnodup)).1 (mem_append_left _ hkey)
  exact bne_iff_ne.2 fun heq => hfront (heq ▸ mem_map_of_mem he)

/-- The package that is read back is the same map exactly when no value is empty. -/
theorem round_trip_iff (p : ParamPackage) :
    (∀ key, (ofText p.serialize).find? key = p.find? key) ↔ ∀ key, p.find? key ≠ some [] := by
  have hdata := data_ofText_serialize p
  constructor
  · intro hsame key hfind
    rw [← hsame key, find?_eq_some_iff, hdata] at hfind
    exact of_decide_eq_true (mem_filter.1 hfind).2 rfl
  · intro hvalues key
    have hall : ∀ e ∈ p.data, decide (e.2 ≠ []) = true := fun e he =>
      decide_eq_true fun hempty => hvalues e.1 ((find?_eq_some_iff p e.1 []).2 (hempty ▸ he))
    rw [filter_eq_self.2 hall] at hdata
    rw [find?, find?, hdata]

/-- A key with an empty value is lost. -/
theorem round_trip_empty_value :
    (empty.set ['k'] []).serialize = ['k', ':'] ∧ (ofText ['k', ':']).find? ['k'] = none ∧
      (empty.set ['k'] []).find? ['k'] = some [] := by
  decide

end ParamPackage
end Drippu.Common
