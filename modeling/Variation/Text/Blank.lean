/-!
# Blank characters

The characters that count as white space at the ends of a setting, of a format name and of a key
path. The set is the Unicode property `White_Space`: 25 characters in ten ranges. It is wider than
the four characters of `Char.isWhitespace`, and it does not hold the zero-width space `U+200B` nor
the byte order mark `U+FEFF`.
-/

namespace Variation.Text

/-- The blank characters as closed ranges of code points, ascending and apart. -/
def blankRanges : List (Nat × Nat) :=
  [(0x09, 0x0D), (0x20, 0x20), (0x85, 0x85), (0xA0, 0xA0), (0x1680, 0x1680), (0x2000, 0x200A),
   (0x2028, 0x2029), (0x202F, 0x202F), (0x205F, 0x205F), (0x3000, 0x3000)]

/-- Whether a character is white space. -/
def isBlank (c : Char) : Bool :=
  blankRanges.any fun range => range.1 ≤ c.toNat && c.toNat ≤ range.2

/-- A text without the blanks at its two ends. -/
def trimBlanks (s : List Char) : List Char :=
  ((s.dropWhile isBlank).reverse.dropWhile isBlank).reverse

/-- A string without the blanks at its two ends. -/
def trimmed (s : String) : String :=
  String.ofList (trimBlanks s.toList)

/-- Whether a string holds nothing but blanks; the empty string does. -/
def isAllBlank (s : String) : Bool :=
  s.toList.all isBlank

end Variation.Text
