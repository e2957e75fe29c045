import Graft.Text.Hex
import Graft.Text.Table.Extending
import Graft.Text.Table.Unprintable

/-!
# Quoted text

Text is quoted so that it stays on one line and can be told apart from what surrounds it: backslashes
and double quotes get a backslash, line ends and tabs are written by letters, and characters that cannot
be seen, or that would join the one before them, by their code points.
-/

namespace Graft.Quoted

/-- Whether a character is written by its code point. -/
def isHidden (c : Char) : Bool :=
  c.toNat < 0x20 || c.toNat = 0x7F || Alphabet.inTable Text.Table.extending c.toNat || Alphabet.inTable Text.Table.unprintable c.toNat

/-- A character inside quotation marks. -/
def encodeChar (c : Char) : Text :=
  if c = '"' || c = '\\' then ['\\', c]
  else if c = '\n' then ['\\', 'n']
  else if c = '\r' then ['\\', 'r']
  else if c = '\t' then ['\\', 't']
  else if c.toNat = 0 then ['\\', '0']
  else if isHidden c then ['\\', 'u', '{'] ++ Hex.lower c.toNat ++ ['}']
  else [c]

/-- A text between quotation marks. -/
def encode (t : Text) : Text := '"' :: t.flatMap encodeChar ++ ['"']

/-- A string between quotation marks. -/
def quote (s : String) : String := String.ofList (encode s.toList)

/-- A list of strings, quoted, between brackets. -/
def quoteList (items : List String) : String := "[" ++ Word.joinWith ", " (items.map quote) ++ "]"

/-- A string that may be missing. -/
def quoteOption : Option String → String
  | none => "None"
  | some s => "Some(" ++ quote s ++ ")"

end Graft.Quoted
