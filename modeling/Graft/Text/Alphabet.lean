import Graft.Text.Table.Alphabetic
import Graft.Text.Table.Numeric
import Graft.Text.Table.Word

/-!
# Character classes

The classes that decide how source text is cut: blanks, white space, letters and numerals, word
characters and identifier characters. ASCII is decided by comparison and the rest by tables, so each
class is total on all of Unicode.
-/

namespace Graft.Alphabet

/-- Whether a code point lies in one of the ranges of a table. -/
def inTable (table : List (Nat × Nat)) (n : Nat) : Bool :=
  table.any fun range => range.1 ≤ n && n ≤ range.2

/-- A space or a tab: what may stand around the parts of a line. -/
def isBlank (c : Char) : Bool := c = ' ' || c = '\t'

/-- A line feed or a carriage return. -/
def isLineBreak (c : Char) : Bool := c = '\n' || c = '\r'

/-- White space: the code points with the property White_Space. -/
def isSpace (c : Char) : Bool :=
  let n := c.toNat
  (9 ≤ n && n ≤ 13) || n = 0x20 || n = 0x85 || n = 0xA0 || n = 0x1680 || (0x2000 ≤ n && n ≤ 0x200A)
    || n = 0x2028 || n = 0x2029 || n = 0x202F || n = 0x205F || n = 0x3000

/-- An ASCII letter. -/
def isAsciiLetter (c : Char) : Bool := ('a' ≤ c && c ≤ 'z') || ('A' ≤ c && c ≤ 'Z')

/-- A letter of ASCII in lower case; any other character is left as it is. -/
def lowerLetter (c : Char) : Char := if 'A' ≤ c && c ≤ 'Z' then Char.ofNat (c.toNat + 32) else c

/-- An ASCII digit. -/
def isDigit (c : Char) : Bool := '0' ≤ c && c ≤ '9'

/-- An ASCII letter or digit. -/
def isAsciiAlphanumeric (c : Char) : Bool := isAsciiLetter c || isDigit c

/-- A letter or a numeral of any script. -/
def isAlphanumeric (c : Char) : Bool :=
  if c.toNat < 0x80 then isAsciiAlphanumeric c
  else inTable Text.Table.alphabetic c.toNat || inTable Text.Table.numeric c.toNat

/-- A character of an identifier: a letter or numeral of any script, an underscore or a dollar
sign. -/
def isIdentifier (c : Char) : Bool := isAlphanumeric c || c = '_' || c = '$'

/-- A word character: letters, marks, decimal digits, connecting punctuation and joiners. -/
def isWord (c : Char) : Bool :=
  if c.toNat < 0x80 then isAsciiAlphanumeric c || c = '_'
  else inTable Text.Table.alphabetic c.toNat || inTable Text.Table.wordExtra c.toNat

/-- A quotation mark around a module specifier. -/
def isQuote (c : Char) : Bool := c = '\'' || c = '"'

end Graft.Alphabet
