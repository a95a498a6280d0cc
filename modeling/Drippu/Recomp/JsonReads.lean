import Mathlib.Data.Char
import Drippu.Recomp.JsonReader

/-!
# Recomp - What the JSON reader reads

A text is read as a value when the reader returns the value in front of every rest that
cannot continue a number.  The texts of strings, numbers and flags are read as such, and
the texts of arrays and objects when those of their items and members are.  White space
between the parts does not matter.
-/

namespace Drippu.RecompGaps

open Library List Nat

/-! ## White space -/

/-- Only white space. -/
def Blank (ws : Text) : Prop := ∀ c ∈ ws, isSpace c = true

instance (ws : Text) : Decidable (Blank ws) :=
  decidableBAll _ ws

lemma blank_nil : Blank [] := nofun

variable {text ws : Text}

lemma skip_blank (h : Blank ws) (s : Text) : skip (ws ++ s) = skip s :=
  dropWhile_append_of_pos h

variable {c : Char}

lemma skip_blank_cons (hws : Blank ws) (hc : isSpace c = false) (s : Text) :
    skip (ws ++ c :: s) = c :: s := by
  rw [skip_blank hws, skip_cons hc]

/-! ## Reading -/

/-- The rest does not continue a number. -/
def Stops (rest : Text) : Prop := ∀ c ∈ rest.head?, isNumberChar c = false

/-- A text is read as a value. -/
def Reads (levels : Nat) (text : Text) (v : Value) : Prop :=
  ∀ rest, Stops rest → parse levels (text ++ rest) = .ok (v, rest)

variable {levels n : Nat}

lemma Reads.blank {v : Value} (h : Reads (levels + 1) text v) (hws : Blank ws) :
    Reads (levels + 1) (ws ++ text) v := by
  intro rest hrest
  rw [← parse_skip, append_assoc, skip_blank hws, parse_skip]
  exact h rest hrest

lemma stops_blank (h : Blank ws) (hc : isNumberChar c = false) (rest : Text) :
    Stops (ws ++ c :: rest) := by
  cases ws with
  | nil =>
    intro d hd
    rwa [← Option.some.inj hd]
  | cons a ws =>
    intro d hd
    rw [← Option.some.inj hd]
    have ha := h a mem_cons_self
    simp only [isSpace, Bool.or_eq_true, beq_iff_eq] at ha
    rcases ha with ((rfl | rfl) | rfl) | rfl <;> decide

/-! ## Strings -/

/-- A text that stands for itself in a string. -/
def Plain (text : Text) : Prop := ∀ c ∈ text, c ≠ '"' ∧ c ≠ '\\' ∧ 0x20 ≤ c.toNat

instance (text : Text) : Decidable (Plain text) :=
  decidableBAll _ text

lemma readString_plain (h : Plain text) (out rest : Text) :
    readString (text ++ '"' :: rest) out = .ok (out ++ text, rest) := by
  induction text generalizing out with
  | nil =>
    rw [nil_append, readString.eq_def, append_nil]
    rfl
  | cons c text ih =>
    obtain ⟨⟨hquote, hslash, hcontrol⟩, htext⟩ := forall_mem_cons.1 h
    rw [cons_append, readString.eq_def]
    simp only
    rw [if_neg hquote, if_neg (not_lt.2 hcontrol), if_pos hslash, ih htext, append_assoc]
    rfl

lemma reads_string (levels : Nat) (h : Plain text) :
    Reads (levels + 1) (quote text) (.string text) := by
  intro rest _
  have hskip : skip (quote text ++ rest) = '"' :: (text ++ '"' :: rest) := by
    rw [quote, cons_append, skip_cons (by decide)]
    simp
  rw [← parse_skip, hskip]
  exact congrArg (Except.map _) (readString_plain h [] rest)

/-! ## Numbers and flags -/

lemma isNumberChar_digit (h : '0' ≤ c ∧ c ≤ '9') : isNumberChar c = true := by
  simp [isNumberChar, h.1, h.2]

lemma readNumber_digits (hne : text ≠ []) (h : ∀ c ∈ text, '0' ≤ c ∧ c ≤ '9') {rest : Text}
    (hrest : Stops rest) : readNumber (text ++ rest) = .ok (text, rest) := by
  cases text with
  | nil => exact (hne rfl).elim
  | cons c text =>
    have hc : c ≠ '-' := by
      rintro rfl
      exact absurd (h '-' mem_cons_self).1 (by decide)
    have hdrop : (c :: text ++ rest).dropWhile isNumberChar = rest := by
      rw [dropWhile_append_of_pos fun d hd => isNumberChar_digit (h d hd)]
      cases rest with
      | nil => rfl
      | cons d rest =>
        rw [dropWhile_cons_of_neg]
        rw [hrest d rfl]
        exact Bool.false_ne_true
    have hlength : (c :: text ++ rest).length - rest.length = (c :: text).length := by
      rw [length_append]
      omega
    rw [readNumber]
    · rw [hdrop, if_neg (by simp only [length_append, length_cons]; omega), hlength, take_left]
    · intro s heq
      exact hc (cons.inj heq).1

lemma parse_number (levels : Nat) (hspace : isSpace c = false)
    (hc : c ∉ ['{', '[', '"', 't', 'f', 'n']) (s : Text) :
    parse (levels + 1) (c :: s) = (readNumber (c :: s)).map fun r => (.number r.1, r.2) := by
  rw [parse, skip_cons hspace]
  split
  · rename_i heq
    cases heq
  iterate 6
    · rename_i heq
      refine (hc ?_).elim
      rw [(cons.inj heq).1]
      decide
  · rfl

lemma reads_number (levels : Nat) (hne : text ≠ []) (h : ∀ c ∈ text, '0' ≤ c ∧ c ≤ '9') :
    Reads (levels + 1) text (.number text) := by
  intro rest hrest
  have hread := readNumber_digits hne h hrest
  cases text with
  | nil => exact (hne rfl).elim
  | cons c text =>
    have hc := h c mem_cons_self
    have hspecial : ∀ d ∈ [' ', '\t', '\n', '\r', '{', '[', '"', 't', 'f', 'n'], c ≠ d := by
      rintro d hd rfl
      simp only [mem_cons, not_mem_nil, or_false] at hd
      rcases hd with rfl | rfl | rfl | rfl | rfl | rfl | rfl | rfl | rfl | rfl <;>
        exact absurd hc (by decide)
    have hspace : isSpace c = false := by
      simp [isSpace, hspecial]
    have hnumber : c ∉ ['{', '[', '"', 't', 'f', 'n'] := fun hmem =>
      hspecial c (mem_append_right [' ', '\t', '\n', '\r'] hmem) rfl
    rw [cons_append, parse_number levels hspace hnumber, ← cons_append, hread]
    rfl

lemma reads_bool (levels : Nat) (b : Bool) :
    Reads (levels + 1) (if b then "true".toList else "false".toList) (.bool b) := by
  intro rest _
  cases b with
  | false =>
    rw [if_neg Bool.false_ne_true, parse]
    simp [skip, isSpace, literal]
  | true =>
    rw [if_pos rfl, parse]
    simp [skip, isSpace, literal]

/-! ## Arrays -/

lemma Reads.skip_ne {v : Value} (h : Reads (levels + 1) text v) {rest : Text} (hrest : Stops rest)
    (s : Text) : skip (text ++ rest) ≠ ']' :: s := by
  intro hskip
  have hread := h rest hrest
  have hfail : readNumber (']' :: s) = fail .unexpectedCharacter (']' :: s) := if_pos rfl
  rw [← parse_skip, hskip, parse_number levels (by decide) (by decide), hfail] at hread
  cases hread

/-- The items of an array, separated by commas. -/
def itemsText : List Text → Text
  | [] => []
  | item :: items => item ++ items.flatMap fun item => ',' :: item

def arrayText (items : List Text) (ws : Text) : Text :=
  '[' :: (itemsText items ++ (ws ++ [']']))

lemma stops_cons (h : isNumberChar c = false) (rest : Text) : Stops (c :: rest) :=
  stops_blank blank_nil h rest

lemma itemsText_cons (item : Text) (items : List Text) :
    itemsText (item :: items) = item ++ if items = [] then [] else ',' :: itemsText items := by
  cases items with
  | nil => rfl
  | cons item' items => simp [itemsText]

lemma readItems_eq (hws : Blank ws) (e : Text × Value) (items : List (Text × Value))
    (h : ∀ e' ∈ e :: items, Reads (levels + 1) e'.1 e'.2) {fuel : Nat} (hfuel : items.length ≤ fuel)
    (acc : List Value) (rest : Text) :
    readItems (parse (levels + 1)) (fuel + 1)
        (itemsText ((e :: items).map Prod.fst) ++ (ws ++ ']' :: rest)) acc =
      .ok (.array (acc ++ (e :: items).map Prod.snd), rest) := by
  induction items generalizing e fuel acc with
  | nil =>
    have hread := h e mem_cons_self (ws ++ ']' :: rest) (stops_blank hws (by decide) rest)
    have hskip := skip_blank_cons (c := ']') hws (by decide) rest
    rw [readItems, map_singleton, itemsText_cons, if_pos rfl, append_nil, hread]
    simp only [bind, Except.bind, hskip]
    rfl
  | cons e' items ih =>
    obtain ⟨fuel, rfl⟩ := exists_eq_succ_of_ne_zero (ne_zero_of_lt hfuel)
    obtain ⟨he, hitems⟩ := forall_mem_cons.1 h
    have hread := he (',' :: (itemsText ((e' :: items).map Prod.fst) ++ (ws ++ ']' :: rest)))
      (stops_cons (by decide) _)
    rw [readItems, map_cons, itemsText_cons, if_neg (by simp), append_assoc, cons_append, hread]
    simp only [bind, Except.bind]
    rw [skip_cons (by decide)]
    simp only
    rw [ih e' hitems (by simpa using hfuel)]
    simp

/-- There are at most as many further items as characters. -/
lemma length_itemsText {α : Type} (f : α → Text) (a : α) (as : List α) (rest : Text) :
    as.length ≤ (itemsText ((a :: as).map f) ++ rest).length := by
  induction as generalizing a with
  | nil => exact zero_le _
  | cons a' as ih =>
    have hlen := ih a'
    rw [map_cons, itemsText_cons, if_neg (by simp), append_assoc, length_append, cons_append,
      length_cons, length_cons]
    omega

lemma reads_array (hws : Blank ws) {items : List (Text × Value)}
    (h : ∀ e ∈ items, Reads (levels + 1) e.1 e.2) :
    Reads (levels + 2) (arrayText (items.map Prod.fst) ws) (.array (items.map Prod.snd)) := by
  intro rest _
  cases items with
  | nil =>
    have hskip := skip_blank_cons (c := ']') hws (by decide) rest
    rw [parse, arrayText, cons_append, skip_cons (by decide)]
    simp [itemsText, hskip]
  | cons e items =>
    have htext : arrayText ((e :: items).map Prod.fst) ws ++ rest =
        '[' :: (itemsText ((e :: items).map Prod.fst) ++ (ws ++ ']' :: rest)) := by
      simp [arrayText]
    have hne : ∀ s, skip (itemsText ((e :: items).map Prod.fst) ++ (ws ++ ']' :: rest)) ≠
        ']' :: s := by
      obtain ⟨he, -⟩ := forall_mem_cons.1 h
      intro s
      rw [map_cons, itemsText_cons, append_assoc]
      refine he.skip_ne ?_ s
      split
      · exact stops_blank hws (by decide) rest
      · exact stops_cons (by decide) _
    rw [htext, parse, skip_cons (by decide)]
    simp only
    rw [readItems_skip, readItems_eq hws e items h (length_itemsText ..)]
    rfl

/-! ## Objects -/

/-- A member of an object: white space, its key and the text of its value. -/
structure Member where
  before : Text
  key : Text
  text : Text
  value : Value

def Member.write (m : Member) : Text := m.before ++ (quote m.key ++ (':' :: m.text))

/-- A member is read as its key and its value. -/
structure Member.Ok (levels : Nat) (m : Member) : Prop where
  before : Blank m.before
  key : Plain m.key
  text : Reads levels m.text m.value

def objectText (members : List Member) (ws : Text) : Text :=
  '{' :: (itemsText (members.map Member.write) ++ (ws ++ ['}']))

lemma skip_member {m : Member} (h : m.Ok levels) (rest : Text) :
    skip (m.write ++ rest) = '"' :: (m.key ++ '"' :: ':' :: (m.text ++ rest)) := by
  rw [Member.write, append_assoc, quote, cons_append, cons_append,
    skip_blank_cons h.before (by decide)]
  simp

lemma readMembers_eq (hws : Blank ws) (m : Member) (members : List Member)
    (h : ∀ m' ∈ m :: members, m'.Ok (levels + 1)) {fuel : Nat} (hfuel : members.length ≤ fuel)
    (acc : List (Text × Value)) (rest : Text) :
    readMembers (parse (levels + 1)) (fuel + 1)
        (itemsText ((m :: members).map Member.write) ++ (ws ++ '}' :: rest)) acc =
      .ok (.object (acc ++ (m :: members).map fun m => (m.key, m.value)), rest) := by
  induction members generalizing m fuel acc with
  | nil =>
    have hm := h m mem_cons_self
    have hread := hm.text (ws ++ '}' :: rest) (stops_blank hws (by decide) rest)
    have hskip := skip_blank_cons (c := '}') hws (by decide) rest
    rw [readMembers, map_singleton, itemsText_cons, if_pos rfl, append_nil, skip_member hm]
    simp only [readString_plain hm.key, bind, Except.bind, nil_append]
    rw [skip_cons (by decide)]
    simp only [hread, hskip]
    rfl
  | cons m' members ih =>
    obtain ⟨fuel, rfl⟩ := exists_eq_succ_of_ne_zero (ne_zero_of_lt hfuel)
    obtain ⟨hm, hmembers⟩ := forall_mem_cons.1 h
    have hread := hm.text
      (',' :: (itemsText ((m' :: members).map Member.write) ++ (ws ++ '}' :: rest)))
      (stops_cons (by decide) _)
    rw [readMembers, map_cons, itemsText_cons, if_neg (by simp), append_assoc,
      cons_append, skip_member hm]
    simp only [readString_plain hm.key, bind, Except.bind, nil_append]
    rw [skip_cons (by decide)]
    simp only [hread]
    rw [skip_cons (by decide)]
    simp only
    rw [ih m' hmembers (by simpa using hfuel)]
    simp

lemma reads_object (hws : Blank ws) (m : Member) (members : List Member)
    (h : ∀ m' ∈ m :: members, m'.Ok (levels + 1)) :
    Reads (levels + 2) (objectText (m :: members) ws)
      (.object ((m :: members).map fun m => (m.key, m.value))) := by
  intro rest _
  have htext : objectText (m :: members) ws ++ rest =
      '{' :: (itemsText ((m :: members).map Member.write) ++ (ws ++ '}' :: rest)) := by
    simp [objectText]
  have hne : ∀ s, skip (itemsText ((m :: members).map Member.write) ++ (ws ++ '}' :: rest)) ≠
      '}' :: s := by
    intro s heq
    rw [map_cons, itemsText_cons, append_assoc, skip_member (h m mem_cons_self)] at heq
    exact absurd (cons.inj heq).1 (by decide)
  rw [htext, parse, skip_cons (by decide)]
  simp only
  rw [readMembers_skip, readMembers_eq hws m members h (length_itemsText ..)]
  rfl

/-! ## Numerals -/

lemma digitChar_decimal : ∀ d < 10, '0' ≤ d.digitChar ∧ d.digitChar ≤ '9' ∧
    d.digitChar.toNat - '0'.toNat = d := by
  decide

lemma hexDigit_digitChar : ∀ d < 16, hexDigit d.digitChar = some d := by
  decide

lemma foldlM_hex (digit : Char → Char) (hdigit : ∀ d < 16, hexDigit (digit d.digitChar) = some d)
    (hn : n < 2 ^ 64) :
    ((toDigits 16 n).map digit).foldlM
      (fun v c => (hexDigit c).map fun d => v * 16 % 2 ^ 64 + d) 0 = some n := by
  have hread := toDigits_induction (b := 16) (by decide)
    (P := fun text n => n < 2 ^ 64 → (text.map digit).foldlM
      (fun v c => (hexDigit c).map fun d => v * 16 % 2 ^ 64 + d) 0 = some n) ?_ ?_ n
  · exact hread hn
  · intro d hd _
    simp [hdigit d hd]
  intro n d text _ hd ih hlt
  rw [map_append, foldlM_append, ih (by omega)]
  simp only [map_cons, map_nil, foldlM_cons, foldlM_nil, hdigit d hd,
    Option.map_some, bind, Option.bind, pure]
  congr 1
  omega

lemma length_hex (hn : n < 2 ^ 64) : (hex n).length ≤ 16 := by
  rw [hex, length_toDigits_le_iff (by decide) (by decide)]
  exact hn

lemma parseHex_hex (hn : n < 2 ^ 64) : parseHex (hex n) = some n := by
  have hread := foldlM_hex id hexDigit_digitChar hn
  rw [map_id] at hread
  rw [parseHex, if_neg, hex, hread]
  rintro (hnil | hlong)
  · exact toDigits_ne_nil hnil
  · exact not_lt.2 (length_hex hn) hlong

lemma decimal_digits (n : Nat) : ∀ c ∈ decimal n, '0' ≤ c ∧ c ≤ '9' := by
  intro c hc
  obtain ⟨d, hd, rfl⟩ := mem_toDigits (b := 10) (by decide) n c hc
  exact ⟨(digitChar_decimal d hd).1, (digitChar_decimal d hd).2.1⟩

lemma reads_decimal (levels n : Nat) : Reads (levels + 1) (decimal n) (.number (decimal n)) :=
  reads_number levels toDigits_ne_nil (decimal_digits n)

lemma foldlM_decimal (hn : n ≤ maxU64) : (toDigits 10 n).foldlM addDigit 0 = some n := by
  have hstep : ∀ n d, d < 10 → n * 10 + d ≤ maxU64 →
      addDigit n d.digitChar = some (n * 10 + d) := fun n d hd hle => by
    obtain ⟨hlo, hhi, hvalue⟩ := digitChar_decimal d hd
    rw [addDigit, if_neg fun h => h.elim (not_lt.2 hlo) (not_lt.2 hhi)]
    simp only [hvalue]
    rw [if_neg (by omega)]
  have hread := toDigits_induction (b := 10) (by decide)
    (P := fun text n => n ≤ maxU64 → text.foldlM addDigit 0 = some n) ?_ ?_ n
  · exact hread hn
  · intro d hd hle
    have hdigit := hstep 0 d hd (by omega)
    simpa using hdigit
  · intro n d text _ hd ih hle
    rw [foldlM_append, ih (by omega)]
    simp [hstep n d hd hle]

lemma asCount_decimal (hn : n ≤ maxU64) : asCount (some (.number (decimal n))) = some n := by
  rw [asCount, if_neg, decimal, foldlM_decimal hn]
  rintro (hnil | hminus)
  · exact toDigits_ne_nil hnil
  · exact absurd (decimal_digits n '-' (mem_of_head? hminus)).1 (by decide)

end Drippu.RecompGaps
