import Changefeed.Json.Doc
import Changefeed.Json.Literal
import Changefeed.Text.Utf8

/-!
# Reading JSON

The grammar is the strict one: blanks are space, tab, line feed and carriage return, strings hold no
bare control character, numbers have no leading zero, and nothing follows the one value of a text.
A reader returns what it read and the rest of the text.

A text may be given as bytes.  Bytes that are no character may stand inside strings alone, and make
the string unreadable.
-/

namespace Changefeed
namespace Json

open Text (Raw)

namespace Reader

/-- The character separates the parts of a text. -/
def isSeparator (c : Option Char) : Bool :=
  c = some ' ' || c = some '\n' || c = some '\t' || c = some '\r'

/-- Drops blanks. -/
def skipBlanks (s : Raw) : Raw := s.dropWhile isSeparator

/-- What follows a word. -/
def afterWord (word : List Char) (s : Raw) : Option Raw :=
  if (word.map some).isPrefixOf s then some (s.drop word.length) else none

/-! ## Numbers -/

/-- The value of a digit. -/
def digit? (c : Option Char) : Option Nat := c.bind Text.digitValue

/-- The digits at the front. -/
def digits : Raw → List Nat × Raw
  | [] => ([], [])
  | c :: rest =>
    match digit? c with
    | some d => let (ds, rest') := digits rest; (d :: ds, rest')
    | none => ([], c :: rest)

/-- The digits before the point: a lone zero, or digits that do not start with zero. -/
def whole (s : Raw) : Option (List Nat × Raw) :=
  match digits s with
  | ([], _) => none
  | (0 :: _ :: _, _) => none
  | (ds, rest) => some (ds, rest)

/-- A point and the digits after it, if there is a point. -/
def fraction (s : Raw) : Option (Option (List Nat) × Raw) :=
  match s with
  | some '.' :: rest =>
    match digits rest with
    | ([], _) => none
    | (ds, rest') => some (some ds, rest')
  | _ => some (none, s)

/-- The digits of an exponent. -/
def exponentDigits (minus : Bool) (s : Raw) : Option (Option (Bool × List Nat) × Raw) :=
  match digits s with
  | ([], _) => none
  | (ds, rest) => some (some (minus, ds), rest)

/-- An exponent with its optional sign, if there is one. -/
def exponent (s : Raw) : Option (Option (Bool × List Nat) × Raw) :=
  let signed (rest : Raw) := match rest with
    | some '+' :: r => exponentDigits false r
    | some '-' :: r => exponentDigits true r
    | r => exponentDigits false r
  match s with
  | some 'e' :: rest => signed rest
  | some 'E' :: rest => signed rest
  | _ => some (none, s)

/-- A number literal. -/
def number (s : Raw) : Option (Doc × Raw) :=
  let (negative, s) := match s with
    | some '-' :: rest => (true, rest)
    | _ => (false, s)
  (whole s).bind fun (w, s) => (fraction s).bind fun (f, s) => (exponent s).map fun (e, s) =>
    (Doc.number (Literal.value? ⟨negative, w, f, e⟩), s)

/-! ## Strings -/

/-- A character of a string, or a 16-bit unit given by an escape. -/
inductive Piece where
  | plain (c : Char)
  | unit (n : Nat)
  /-- Bytes that are no character. -/
  | unreadable

/-- The value of a hexadecimal digit in either case. -/
def hexValue (c : Char) : Option Nat :=
  if '0' ≤ c ∧ c ≤ '9' then some (c.toNat - 48)
  else if 'a' ≤ c ∧ c ≤ 'f' then some (c.toNat - 87)
  else if 'A' ≤ c ∧ c ≤ 'F' then some (c.toNat - 55)
  else none

/-- The unit that four hexadecimal digits stand for. -/
def hexUnit (a b c d : Char) : Option Nat :=
  (hexValue a).bind fun a => (hexValue b).bind fun b => (hexValue c).bind fun c =>
    (hexValue d).map fun d => ((a * 16 + b) * 16 + c) * 16 + d

/-- The character behind a backslash, except for `u`. -/
def unescape (c : Char) : Option Char :=
  if c = '"' ∨ c = '\\' ∨ c = '/' then some c
  else if c = 'b' then some '\x08'
  else if c = 'f' then some '\x0c'
  else if c = 'n' then some '\n'
  else if c = 'r' then some '\r'
  else if c = 't' then some '\t'
  else none

/-- The pieces of a string up to its closing quote. -/
def stringPieces : Raw → Option (List Piece × Raw)
  | [] => none
  | none :: rest => (stringPieces rest).map fun (ps, r) => (.unreadable :: ps, r)
  | some '"' :: rest => some ([], rest)
  | some '\\' :: some 'u' :: some a :: some b :: some c :: some d :: rest =>
    (hexUnit a b c d).bind fun n => (stringPieces rest).map fun (ps, r) => (.unit n :: ps, r)
  | some '\\' :: some c :: rest =>
    (unescape c).bind fun c => (stringPieces rest).map fun (ps, r) => (.plain c :: ps, r)
  | some c :: rest =>
    if c = '\\' ∨ c.toNat < 0x20 then none
    else (stringPieces rest).map fun (ps, r) => (.plain c :: ps, r)

/-- Joins two surrogates to one character; a surrogate that stands alone has none. -/
def assemble : List Piece → Option (List Char)
  | [] => some []
  | .unreadable :: _ => none
  | .plain c :: ps => (assemble ps).map (c :: ·)
  | .unit n :: .unit m :: ps =>
    if 0xD800 ≤ n ∧ n < 0xDC00 then
      if 0xDC00 ≤ m ∧ m < 0xE000 then
        (assemble ps).map (Char.ofNat (0x10000 + (n - 0xD800) * 0x400 + (m - 0xDC00)) :: ·)
      else none
    else if 0xDC00 ≤ n ∧ n < 0xE000 then none
    else (assemble (.unit m :: ps)).map (Char.ofNat n :: ·)
  | .unit n :: ps =>
    if 0xD800 ≤ n ∧ n < 0xE000 then none
    else (assemble ps).map (Char.ofNat n :: ·)

/-- The rest of a string behind its opening quote; `none` for one that has no characters. -/
def string (s : Raw) : Option (Option String × Raw) :=
  (stringPieces s).map fun (ps, rest) => ((assemble ps).map String.ofList, rest)

/-! ## Values -/

mutual

/-- A value, after any blanks.  Each step takes one off the number that limits the recursion. -/
def value : Nat → Raw → Option (Doc × Raw)
  | 0, _ => none
  | n + 1, s =>
    match skipBlanks s with
    | some 'n' :: rest => (afterWord ['u', 'l', 'l'] rest).map fun r => (.null, r)
    | some 't' :: rest => (afterWord ['r', 'u', 'e'] rest).map fun r => (.bool true, r)
    | some 'f' :: rest => (afterWord ['a', 'l', 's', 'e'] rest).map fun r => (.bool false, r)
    | some '"' :: rest => (string rest).map fun (t, r) => (.string t, r)
    | some '[' :: rest =>
      match skipBlanks rest with
      | some ']' :: r => some (.array [], r)
      | r => (items n r).map fun (ds, r) => (.array ds, r)
    | some '\x7b' :: rest =>
      match skipBlanks rest with
      | some '\x7d' :: r => some (.object [], r)
      | r => (fields n r).map fun (fs, r) => (.object fs, r)
    | s => number s

/-- One item or more, up to the closing bracket. -/
def items : Nat → Raw → Option (List Doc × Raw)
  | 0, _ => none
  | n + 1, s =>
    (value n s).bind fun (d, s) =>
      match skipBlanks s with
      | some ',' :: rest => (items n rest).map fun (ds, r) => (d :: ds, r)
      | some ']' :: rest => some ([d], rest)
      | _ => none

/-- One field or more, up to the closing brace. -/
def fields : Nat → Raw → Option (List (Option String × Doc) × Raw)
  | 0, _ => none
  | n + 1, s =>
    match skipBlanks s with
    | some '"' :: rest =>
      (string rest).bind fun (name, s) =>
        match skipBlanks s with
        | some ':' :: rest =>
          (value n rest).bind fun (d, s) =>
            match skipBlanks s with
            | some ',' :: rest => (fields n rest).map fun (fs, r) => ((name, d) :: fs, r)
            | some '\x7d' :: rest => some ([(name, d)], rest)
            | _ => none
        | _ => none
    | _ => none

end

end Reader

/-- The document of a text, some of which may be unreadable, that holds one JSON value and nothing
else. -/
def Doc.ofRaw? (s : Raw) : Option Doc :=
  match Reader.value (2 * s.length + 2) s with
  | some (d, rest) => if Reader.skipBlanks rest = [] then some d else none
  | none => none

/-- The document of a text that holds one JSON value and nothing else. -/
def Doc.parse (text : String) : Option Doc := Doc.ofRaw? (text.toList.map some)

/-- The document of bytes that hold one JSON value and nothing else. -/
def Doc.ofBytes? (bytes : List UInt8) : Option Doc := Doc.ofRaw? (Text.decode bytes)

/-- The value of a text that holds one JSON value and nothing else. -/
def Value.parse (text : String) : Option Value :=
  (Doc.parse text).bind fun d => d.value? maxLevels

end Json
end Changefeed
