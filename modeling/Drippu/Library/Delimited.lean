import Mathlib.Tactic

/-!
# Library - Delimited and escaped texts, numerals

Textual replacement, as repeated `find` and `replace` do it, and splitting at a
delimiter, as repeated `getline` does it.  A text is escaped when every symbol of the
original is written as a code: one symbol, or an escape symbol and one more.
-/

namespace Drippu.Library

open List Nat

variable {α : Type} [DecidableEq α]

/-! ## Replacement -/

/-- Replacement from a position on, where `skip` symbols belong to the last occurrence. -/
def replaceFrom (src dest : List α) : (skip : Nat) → List α → List α
  | _, [] => []
  | skip + 1, _ :: text => replaceFrom src dest skip text
  | 0, a :: text =>
    if src.isPrefixOf (a :: text) then dest ++ replaceFrom src dest (src.length - 1) text
    else a :: replaceFrom src dest 0 text

/-- The occurrences of a non-empty text are replaced from left to right. -/
def replaceAll (text src dest : List α) : List α :=
  if src = dest then text else replaceFrom src dest 0 text

lemma replaceAll_singleton (text : List α) (a : α) {dest : List α} (h : [a] ≠ dest) :
    replaceAll text [a] dest = text.flatMap fun b => if b = a then dest else [b] := by
  rw [replaceAll, if_neg h]
  induction text with
  | nil => rfl
  | cons b text ih =>
    rw [flatMap_cons, ← ih, replaceFrom]
    by_cases hb : b = a
    · simp [hb]
    · simp [hb, Ne.symm hb]

/-- A code: one symbol that is not the escape symbol, or the escape symbol and one that is
not. -/
def IsCode (esc : α) (code : List α) : Prop :=
  (∃ b, b ≠ esc ∧ code = [b]) ∨ ∃ b, b ≠ esc ∧ code = [esc, b]

/-- Replacing a code in an escaped text rewrites every code. -/
lemma replaceAll_codes {esc d e : α} {code : α → List α} (hcode : ∀ a, IsCode esc (code a))
    (text : List α) :
    replaceAll (text.flatMap code) [esc, d] [e] =
      text.flatMap fun a => if code a = [esc, d] then [e] else code a := by
  have hne : [esc, d] ≠ [e] := by simp
  rw [replaceAll, if_neg hne]
  induction text with
  | nil => rfl
  | cons a text ih =>
    rw [flatMap_cons, flatMap_cons, ← ih]
    rcases hcode a with ⟨b, hb, ha⟩ | ⟨b, hb, ha⟩
    · rw [ha, if_neg (by simp)]
      simp [replaceFrom, Ne.symm hb]
    · rw [ha]
      by_cases hbd : b = d
      · simp [replaceFrom, hbd]
      · simp [replaceFrom, hbd, Ne.symm hbd, Ne.symm hb]

/-! ## Splitting -/

/-- The pieces of a text, where `piece` has been read of the current one.  A last piece
without symbols is not read. -/
def splitFrom (delim : α) (piece : List α) : List α → List (List α)
  | [] => if piece = [] then [] else [piece]
  | a :: text =>
    if a = delim then piece :: splitFrom delim [] text else splitFrom delim (piece ++ [a]) text

def split (delim : α) (text : List α) : List (List α) := splitFrom delim [] text

variable {delim : α}

lemma splitFrom_append {s : List α} (hs : delim ∉ s) (piece text : List α) :
    splitFrom delim piece (s ++ text) = splitFrom delim (piece ++ s) text := by
  induction s generalizing piece with
  | nil => rw [nil_append, append_nil]
  | cons a s ih =>
    obtain ⟨ha, hs⟩ := ne_and_not_mem_of_not_mem_cons hs
    rw [cons_append, splitFrom, if_neg (Ne.symm ha), ih hs, ← append_cons]

/-- A piece in front of a delimiter is split off. -/
lemma split_append {s : List α} (hs : delim ∉ s) (text : List α) :
    split delim (s ++ delim :: text) = s :: split delim text := by
  rw [split, splitFrom_append hs, splitFrom, if_pos rfl]
  rfl

/-- A text without delimiters is one piece, or none when it is empty. -/
lemma split_last {s : List α} (hs : delim ∉ s) : split delim s = if s = [] then [] else [s] := by
  rw [split, ← append_nil s, splitFrom_append hs, append_nil]
  rfl

/-- Pieces that were terminated, up to the last terminator, are split again. -/
lemma split_terminated {pieces : List (List α)} (h : ∀ s ∈ pieces, delim ∉ s ∧ s ≠ []) :
    split delim (pieces.flatMap (· ++ [delim])).dropLast = pieces := by
  induction pieces with
  | nil => rfl
  | cons s pieces ih =>
    obtain ⟨hs, hpieces⟩ := forall_mem_cons.1 h
    cases pieces with
    | nil => simp [split_last hs.1, hs.2]
    | cons t pieces =>
      have hne : (t :: pieces).flatMap (· ++ [delim]) ≠ [] := by simp
      rw [flatMap_cons, dropLast_append_of_ne_nil hne, append_assoc,
        singleton_append, split_append hs.1, ih hpieces]

/-! ## Numerals -/

section
variable {b : Nat} (hb : 1 < b)
include hb

/-- The numeral of a number is that of its quotient followed by a digit. -/
lemma toDigits_induction {P : List Char → Nat → Prop} (hsmall : ∀ d < b, P [d.digitChar] d)
    (hstep : ∀ n d text, 0 < n → d < b → P text n → P (text ++ [d.digitChar]) (n * b + d))
    (n : Nat) : P (b.toDigits n) n := by
  induction n using Nat.strongRecOn with
  | ind n ih =>
    rcases lt_or_ge n b with hlt | hge
    · rw [toDigits_of_lt_base hlt]
      exact hsmall n hlt
    have hdiv : 0 < n / b := div_pos hge (by omega)
    have hstep := hstep (n / b) (n % b) _ hdiv (mod_lt n (by omega))
      (ih (n / b) (div_lt_self (by omega) hb))
    rw [div_add_mod'] at hstep
    rw [toDigits_of_base_le hb hge]
    exact hstep

/-- The characters of a numeral are digits. -/
lemma mem_toDigits (n : Nat) : ∀ c ∈ b.toDigits n, ∃ d < b, c = d.digitChar := by
  refine toDigits_induction hb (P := fun text _ => ∀ c ∈ text, ∃ d < b, c = d.digitChar) ?_ ?_ n
  · intro d hd c hc
    exact ⟨d, hd, mem_singleton.1 hc⟩
  · intro n d text _ hd ih c hc
    rcases mem_append.1 hc with hc | hc
    · exact ih c hc
    · exact ⟨d, hd, mem_singleton.1 hc⟩

end
end Drippu.Library
