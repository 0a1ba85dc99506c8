/-!
# White space

The characters with the Unicode property `White_Space`: 25 code points in ten ranges, ascending and
apart.  `trim` drops them from both ends of a text, `squeeze` drops them everywhere.
-/

namespace Changefeed
namespace Text

/-- Closed ranges of code points. -/
def blankRanges : List (Nat × Nat) :=
  [(0x09, 0x0D), (0x20, 0x20), (0x85, 0x85), (0xA0, 0xA0), (0x1680, 0x1680), (0x2000, 0x200A),
   (0x2028, 0x2029), (0x202F, 0x202F), (0x205F, 0x205F), (0x3000, 0x3000)]

/-- The character lies in one of the ranges. -/
def isBlank (c : Char) : Bool :=
  blankRanges.any fun r => r.1 ≤ c.toNat && c.toNat ≤ r.2

/-- The text from its first character that is not white space. -/
def trimStart (s : List Char) : List Char := s.dropWhile isBlank

/-- The text between its first and its last character that is not white space. -/
def trim (s : List Char) : List Char := (trimStart (trimStart s).reverse).reverse

/-- The text without any white space. -/
def squeeze (s : List Char) : List Char := s.filter fun c => !isBlank c

theorem squeeze_squeeze (s : List Char) : squeeze (squeeze s) = squeeze s := by
  simp [squeeze, List.filter_filter]

end Text
end Changefeed
