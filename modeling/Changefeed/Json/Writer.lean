import Changefeed.Json.Doc

/-!
# Writing JSON

Two layouts: `compact` has no blanks at all, `indented` puts every item and field on a line of its
own, two blanks deeper than its container.  In strings the quote, the backslash and the characters
below U+0020 are escaped and nothing else.
-/

namespace Changefeed
namespace Json

/-- A hexadecimal digit in lower case. -/
def hexDigit (n : Nat) : Char := Nat.digitChar n

/-- How a character stands inside a string. -/
def escape (c : Char) : List Char :=
  if c = '"' then ['\\', '"']
  else if c = '\\' then ['\\', '\\']
  else if c = '\n' then ['\\', 'n']
  else if c = '\r' then ['\\', 'r']
  else if c = '\t' then ['\\', 't']
  else if c = '\x08' then ['\\', 'b']
  else if c = '\x0c' then ['\\', 'f']
  else if c.toNat < 0x20 then ['\\', 'u', '0', '0', hexDigit (c.toNat / 16), hexDigit (c.toNat % 16)]
  else [c]

/-- A string between quotes. -/
def quoted (s : String) : List Char := '"' :: (s.toList.flatMap escape ++ ['"'])

/-- A part without a value is written as null. -/
def nullText : List Char := ['n', 'u', 'l', 'l']

/-- A truth value as text. -/
def boolText : Bool → List Char
  | true => ['t', 'r', 'u', 'e']
  | false => ['f', 'a', 'l', 's', 'e']

namespace Doc

mutual

/-- The document without blanks. -/
def compactChars : Doc → List Char
  | .null => nullText
  | .bool b => boolText b
  | .number n => n.elim nullText Number.text
  | .string s => s.elim nullText quoted
  | .array items => '[' :: (compactItems items ++ [']'])
  | .object fields => '\x7b' :: (compactFields fields ++ ['\x7d'])

/-- Items with commas between them. -/
def compactItems : List Doc → List Char
  | [] => []
  | d :: ds => compactChars d ++ compactItemsTail ds

/-- The items after the first one, each behind a comma. -/
def compactItemsTail : List Doc → List Char
  | [] => []
  | d :: ds => ',' :: (compactChars d ++ compactItemsTail ds)

/-- Fields with commas between them. -/
def compactFields : List (Option String × Doc) → List Char
  | [] => []
  | (name, d) :: rest =>
    name.elim nullText quoted ++ ':' :: (compactChars d ++ compactFieldsTail rest)

/-- The fields after the first one, each behind a comma. -/
def compactFieldsTail : List (Option String × Doc) → List Char
  | [] => []
  | (name, d) :: rest =>
    ',' :: (name.elim nullText quoted ++ ':' :: (compactChars d ++ compactFieldsTail rest))

end

/-- The document without blanks, as text. -/
def compact (d : Doc) : String := String.ofList d.compactChars

/-- The start of a line `depth` levels deep. -/
def newline (depth : Nat) : List Char := '\n' :: List.replicate (2 * depth) ' '

mutual

/-- The document with an item or field on each line; `depth` is that of the document. -/
def indentedChars (depth : Nat) : Doc → List Char
  | .null => nullText
  | .bool b => boolText b
  | .number n => n.elim nullText Number.text
  | .string s => s.elim nullText quoted
  | .array [] => ['[', ']']
  | .array (d :: ds) =>
    '[' :: (newline (depth + 1) ++ indentedChars (depth + 1) d ++ indentedItems (depth + 1) ds
      ++ newline depth ++ [']'])
  | .object [] => ['\x7b', '\x7d']
  | .object ((name, d) :: rest) =>
    '\x7b' :: (newline (depth + 1) ++ name.elim nullText quoted ++ ':' :: ' '
      :: (indentedChars (depth + 1) d ++ indentedFields (depth + 1) rest ++ newline depth
        ++ ['\x7d']))

/-- The items after the first one, each on its line behind a comma. -/
def indentedItems (depth : Nat) : List Doc → List Char
  | [] => []
  | d :: ds => ',' :: (newline depth ++ indentedChars depth d ++ indentedItems depth ds)

/-- The fields after the first one, each on its line behind a comma. -/
def indentedFields (depth : Nat) : List (Option String × Doc) → List Char
  | [] => []
  | (name, d) :: rest =>
    ',' :: (newline depth ++ name.elim nullText quoted ++ ':' :: ' '
      :: (indentedChars depth d ++ indentedFields depth rest))

end

/-- The document over several lines, as text. -/
def indented (d : Doc) : String := String.ofList (d.indentedChars 0)

end Doc

/-- A value without blanks. -/
def Value.compact (v : Value) : String := (Doc.ofValue v).compact

end Json
end Changefeed
