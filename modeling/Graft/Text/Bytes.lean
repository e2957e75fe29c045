import Graft.Text.Basic

/-!
# Byte positions

A byte position is a place in a text only if a character starts there or the text ends there. Cutting at
one is checked (`cutAt?`): it fails outside of the text and inside a character, and so does taking the
stretch between two positions, which fails too if they are in the wrong order. Searches give the position
of what they find.
-/

namespace Graft.Text

/-- The text before a byte position and from it on; `none` if no character starts there and the text does
not end there. -/
def cutAt? : (position : Nat) → Text → Option (Text × Text)
  | 0, t => some ([], t)
  | _ + 1, [] => none
  | position + 1, c :: rest =>
    if c.utf8Size ≤ position + 1 then
      (cutAt? (position + 1 - c.utf8Size) rest).map fun (front, back) => (c :: front, back)
    else none

/-- The text between two byte positions; `none` if one is no place of the text, or they are in the wrong
order. -/
def slice? (start stop : Nat) (t : Text) : Option Text :=
  if start ≤ stop then do
    let (_, back) ← cutAt? start t
    let (front, _) ← cutAt? (stop - start) back
    return front
  else none

/-- The position of the first occurrence of a character. -/
def position? (c : Char) : Text → Option Nat
  | [] => none
  | d :: rest => if d = c then some 0 else (position? c rest).map (· + d.utf8Size)

/-- The position of the last occurrence of a character. -/
def lastPosition? (c : Char) : Text → Option Nat
  | [] => none
  | d :: rest =>
    match lastPosition? c rest with
    | some position => some (position + d.utf8Size)
    | none => if d = c then some 0 else none

end Graft.Text
