/-!
# Classes of characters in YAML

A *break* ends a line, a *blank* is a space or a tab. A text may hold any character that is
`isAllowed`; a scalar is written without escapes only where every character `isPlain`.
-/

namespace Variation.Yaml

/-- Whether a character ends a line. -/
def isBreak (c : Char) : Bool :=
  c = '\n' || c = '\r' || c = '\u0085' || c = '\u2028' || c = '\u2029'

/-- Whether a character is a space or a tab. -/
def isBlank (c : Char) : Bool :=
  c = ' ' || c = '\t'

/-- Whether a character separates words. -/
def isSeparator (c : Char) : Bool :=
  isBlank c || isBreak c

/-- Whether a character may stand in the name of an anchor, of a handle or of a directive. -/
def isWord (c : Char) : Bool :=
  c.isAlphanum || c = '_' || c = '-'

/-- Whether a character may stand in a text at all. -/
def isAllowed (c : Char) : Bool :=
  let n := c.toNat
  n = 0x09 || n = 0x0A || n = 0x0D || (0x20 ≤ n && n ≤ 0x7E) || n = 0x85
    || (0xA0 ≤ n && n ≤ 0xFFFD) || 0x10000 ≤ n

/-- Whether a character is written as itself. Control characters are not, nor the byte order mark. -/
def isPlain (c : Char) : Bool :=
  let n := c.toNat
  n = 0x0A || (0x20 ≤ n && n ≤ 0x7E) || (0xA0 ≤ n && n ≤ 0xFFFD && n ≠ 0xFEFF) || 0x10000 ≤ n

end Variation.Yaml
