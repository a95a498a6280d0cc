import Mathlib.Data.List.DropRight
import Drippu.Library.Delimited

/-!
# Recomp - A small JSON reader

The reader of the coverage files, as a recursive descent over the text that is left.  The
nesting is bounded, so that the recursion is on the levels that are left; the loops over
members and items take at least one character in every turn, so that a turn for every
character and one more are enough.
-/

namespace Drippu.RecompGaps

abbrev Text := List Char

/-- The largest number of 64 bits. -/
def maxU64 : Nat := 2 ^ 64 - 1

/-! ## Numbers -/

/-- `std::to_string`. -/
def decimal (n : Nat) : Text := Nat.toDigits 10 n

/-- `%llx`. -/
def hex (value : Nat) : Text := Nat.toDigits 16 value

def hexDigit (c : Char) : Option Nat :=
  if '0' ≤ c ∧ c ≤ '9' then some (c.toNat - '0'.toNat)
  else if 'a' ≤ c ∧ c ≤ 'f' then some (c.toNat - 'a'.toNat + 10)
  else if 'A' ≤ c ∧ c ≤ 'F' then some (c.toNat - 'A'.toNat + 10)
  else none

/-- The lower four bits of a shifted number are free for the next digit. -/
def parseHex (text : Text) : Option Nat :=
  if text = [] ∨ 16 < text.length then none
  else text.foldlM (fun v c => (hexDigit c).map fun digit => v * 16 % 2 ^ 64 + digit) 0

/-- A text in quotes. -/
def quote (text : Text) : Text := '"' :: (text ++ ['"'])

/-! ## Values -/

inductive Value where
  | null
  | bool (boolean : Bool)
  | number (text : Text)
  | string (text : Text)
  | array (items : List Value)
  | object (members : List (Text × Value))

/-- The first member with a key. -/
def Value.get (v : Value) (key : String) : Option Value :=
  match v with
  | .object members => members.lookup key.toList
  | _ => none

/-! ## The reader -/

inductive ReaderError where
  | controlCharacter
  | badUnicodeEscape
  | badEscape
  | unterminatedString
  | unexpectedCharacter
  | unexpectedToken
  | nestingTooDeep
  | unexpectedEnd
  | expectedKey
  | expectedColon
  | expectedCommaOrBrace
  | expectedCommaOrBracket
  deriving DecidableEq, Repr

def ReaderError.text : ReaderError → String
  | .controlCharacter => "control character in string"
  | .badUnicodeEscape => "bad \\u escape"
  | .badEscape => "bad escape"
  | .unterminatedString => "unterminated string"
  | .unexpectedCharacter => "unexpected character"
  | .unexpectedToken => "unexpected token"
  | .nestingTooDeep => "nesting too deep"
  | .unexpectedEnd => "unexpected end"
  | .expectedKey => "expected key"
  | .expectedColon => "expected ':'"
  | .expectedCommaOrBrace => "expected ',' or '\x7d'"
  | .expectedCommaOrBracket => "expected ',' or ']'"

/-- A failure with the number of bytes that were left. -/
structure Failure where
  what : ReaderError
  left : Nat
  deriving DecidableEq, Repr

def fail {α : Type} (what : ReaderError) (s : Text) : Except Failure (α × Text) :=
  .error ⟨what, s.length⟩

def isSpace (c : Char) : Bool := c == ' ' || c == '\t' || c == '\n' || c == '\r'

def skip (s : Text) : Text := s.dropWhile isSpace

lemma skip_cons {c : Char} (h : isSpace c = false) (s : Text) : skip (c :: s) = c :: s := by
  simp [skip, h]

lemma skip_skip (s : Text) : skip (skip s) = skip s :=
  List.dropWhile_idempotent isSpace s

def literal (word : String) (v : Value) (s : Text) : Except Failure (Value × Text) :=
  if s.take word.toList.length = word.toList then .ok (v, s.drop word.toList.length)
  else fail .unexpectedToken s

/-- The escapes of one character. -/
def unescape : Char → Option Char
  | '"' => some '"'
  | '\\' => some '\\'
  | '/' => some '/'
  | 'b' => some '\x08'
  | 'f' => some '\x0c'
  | 'n' => some '\n'
  | 'r' => some '\r'
  | 't' => some '\t'
  | _ => none

/-- The rest of a string behind its opening quote. -/
def readString : Text → Text → Except Failure (Text × Text)
  | [], _ => fail .unterminatedString []
  | c :: s, out =>
    if c = '"' then .ok (out, s)
    else if c.toNat < 0x20 then fail .controlCharacter s
    else if c ≠ '\\' then readString s (out ++ [c])
    else
      match s with
      | [] => fail .unterminatedString []
      | e :: s =>
        if e = 'u' then
          match s with
          | h₁ :: h₂ :: h₃ :: h₄ :: rest =>
            match parseHex [h₁, h₂, h₃, h₄] with
            | none => fail .badUnicodeEscape s
            | some cp => readString rest (out ++ [if cp < 0x80 then Char.ofNat cp else '?'])
          | _ => fail .badUnicodeEscape s
        else
          match unescape e with
          | none => fail .badEscape s
          | some c => readString s (out ++ [c])

def isNumberChar (c : Char) : Bool :=
  ('0' ≤ c ∧ c ≤ '9') || c == '.' || c == 'e' || c == 'E' || c == '+' || c == '-'

/-- The literal of a number. -/
def readNumber (s : Text) : Except Failure (Text × Text) :=
  let rest := (match s with
    | '-' :: s => s
    | s => s).dropWhile isNumberChar
  if rest.length = s.length then fail .unexpectedCharacter s
  else .ok (s.take (s.length - rest.length), rest)

section
variable (parse : Text → Except Failure (Value × Text))

/-- The loop over the members of an object. -/
def readMembers : (fuel : Nat) → Text → List (Text × Value) → Except Failure (Value × Text)
  | 0, s, _ => fail .unexpectedEnd s
  | fuel + 1, s, members =>
    match skip s with
    | '"' :: s => do
      let (key, s) ← readString s []
      match skip s with
      | ':' :: s =>
        let (item, s) ← parse s
        match skip s with
        | ',' :: s => readMembers fuel s (members ++ [(key, item)])
        | '}' :: s => .ok (.object (members ++ [(key, item)]), s)
        | s => fail .expectedCommaOrBrace s
      | s => fail .expectedColon s
    | s => fail .expectedKey s

/-- The loop over the items of an array. -/
def readItems : (fuel : Nat) → Text → List Value → Except Failure (Value × Text)
  | 0, s, _ => fail .unexpectedEnd s
  | fuel + 1, s, items => do
    let (item, s) ← parse s
    match skip s with
    | ',' :: s => readItems fuel s (items ++ [item])
    | ']' :: s => .ok (.array (items ++ [item]), s)
    | s => fail .expectedCommaOrBracket s

end

lemma readMembers_skip (p : Text → Except Failure (Value × Text)) (fuel : Nat) (s : Text)
    (acc : List (Text × Value)) :
    readMembers p (fuel + 1) (skip s) acc = readMembers p (fuel + 1) s acc := by
  rw [readMembers, skip_skip, readMembers]

/-- `Parse` with the number of levels that may be opened. -/
def parse : (levels : Nat) → Text → Except Failure (Value × Text)
  | 0, s => fail .nestingTooDeep s
  | levels + 1, s =>
    match skip s with
    | [] => fail .unexpectedEnd []
    | '{' :: s =>
      match skip s with
      | '}' :: s => .ok (.object [], s)
      | first => readMembers (parse levels) (s.length + 1) first []
    | '[' :: s =>
      match skip s with
      | ']' :: s => .ok (.array [], s)
      | first => readItems (parse levels) (s.length + 1) first []
    | '"' :: s => (readString s []).map fun r => (.string r.1, r.2)
    | 't' :: s => literal "true" (.bool true) ('t' :: s)
    | 'f' :: s => literal "false" (.bool false) ('f' :: s)
    | 'n' :: s => literal "null" .null ('n' :: s)
    | s => (readNumber s).map fun r => (.number r.1, r.2)

lemma parse_skip (levels : Nat) (s : Text) :
    parse (levels + 1) (skip s) = parse (levels + 1) s := by
  rw [parse, skip_skip, parse]

lemma readItems_skip (levels fuel : Nat) (s : Text) (acc : List Value) :
    readItems (parse (levels + 1)) (fuel + 1) (skip s) acc =
      readItems (parse (levels + 1)) (fuel + 1) s acc := by
  rw [readItems, parse_skip, readItems]

/-- Values are read at the depths from 0 to 16. -/
def maxLevels : Nat := 17

def document (s : Text) : Except String Value :=
  match parse maxLevels s with
  | .error f => .error (f.what.text ++ " at byte " ++ toString (s.length - f.left))
  | .ok (v, rest) => if skip rest = [] then .ok v else .error "trailing data after JSON"

/-! ## Counts -/

/-- One digit of a count. -/
def addDigit (out : Nat) (c : Char) : Option Nat :=
  if c < '0' ∨ '9' < c then none
  else
    let digit := c.toNat - '0'.toNat
    some (if (maxU64 - digit) / 10 < out then maxU64 else out * 10 + digit)

/-- `AsCount`: a non-negative integer, saturating. -/
def asCount : Option Value → Option Nat
  | some (.number text) =>
    if text = [] ∨ text.head? = some '-' then none else text.foldlM addDigit 0
  | _ => none

end Drippu.RecompGaps
