import Graft.Text.Basic
import Graft.Text.Table.Cased
import Graft.Text.Table.CaseIgnorable
import Graft.Text.Table.Lowercase

/-!
# Lower case

Text is lowered character by character by the simple mapping, with two exceptions: a dotted capital I
becomes two characters, and a capital sigma takes its final form after a cased character that no other
cased character follows. Characters that are ignored for casing are looked through on both sides.
-/

namespace Graft.Casing

/-- Whether a character has case. -/
def isCased (c : Char) : Bool := Alphabet.inTable Text.Table.cased c.toNat

/-- Whether a character is looked through when the neighbours of a sigma are sought. -/
def isIgnorable (c : Char) : Bool := Alphabet.inTable Text.Table.caseIgnorable c.toNat

/-- The image of a code point under the row of the table that holds it. -/
def lowerInTable (n : Nat) : Nat :=
  match Text.Table.lowercase.find? fun (first, last, step, _) =>
    first ≤ n && n ≤ last && (n - first) % step = 0 with
  | some (first, _, _, image) => image + (n - first)
  | none => n

/-- The lower-case form of a character by itself. -/
def lowerChar (c : Char) : Text :=
  if c.toNat < 0x80 then [Alphabet.lowerLetter c]
  else if c.toNat = 0x130 then [Char.ofNat 0x69, Char.ofNat 0x307]
  else [Char.ofNat (lowerInTable c.toNat)]

/-- Whether the nearest character that is not looked through is cased. -/
def meetsCased (t : Text) : Bool := (t.dropWhile isIgnorable).head?.any isCased

/-- The lower-case form of a text after the characters `before`, which are listed from the nearest
on. -/
def lowerFrom : (before : Text) → Text → Text
  | _, [] => []
  | before, c :: rest =>
    (if c.toNat = 0x3A3 then
      [Char.ofNat (if meetsCased before && !meetsCased rest then 0x3C2 else 0x3C3)]
    else lowerChar c) ++ lowerFrom (c :: before) rest

/-- The lower-case form of a text. -/
def lower (t : Text) : Text := lowerFrom [] t

end Graft.Casing
