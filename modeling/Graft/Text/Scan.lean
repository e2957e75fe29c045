import Graft.Text.Basic

/-!
# Scanning for the leftmost matches

A recogniser looks at the text that starts at one position and says what it finds there and how many
characters that takes. Scanning tries it at each position from left to right and goes on after what
was found, so matches never overlap. The scan is one structural pass: a count of characters still
covered by the last match takes the place of jumping.
-/

namespace Graft.Scan

/-- A recogniser is told whether a line starts at the position, and gives a value with the number of
characters that it takes. -/
abbrev Recogniser (α : Type) := Bool → Text → Option (α × Nat)

/-- A stretch of scanned text. -/
inductive Piece (α : Type) where
  /-- A character that no match covers. -/
  | plain (c : Char)
  /-- A match: its value and the text that it covers. -/
  | found (value : α) (text : Text)
  deriving Repr

/-- The text that a piece covers. -/
def Piece.text {α : Type} : Piece α → Text
  | .plain c => [c]
  | .found _ text => text

/-- The pieces of a text, where `covered` characters still belong to the last match and `lineStart`
tells whether a line starts here. -/
def go {α : Type} (find : Recogniser α) : (covered : Nat) → (lineStart : Bool) → Text → List (Piece α)
  | _, _, [] => []
  | covered + 1, _, c :: rest => go find covered (c = '\n') rest
  | 0, lineStart, c :: rest =>
    match find lineStart (c :: rest) with
    | some (value, length) =>
      .found value ((c :: rest).take length) :: go find (length - 1) (c = '\n') rest
    | none => .plain c :: go find 0 (c = '\n') rest

/-- The pieces of a whole text; a line starts at its beginning. -/
def pieces {α : Type} (find : Recogniser α) (text : Text) : List (Piece α) := go find 0 true text

/-- The values found in a text, from left to right. -/
def all {α : Type} (find : Recogniser α) (text : Text) : List α :=
  (pieces find text).filterMap fun
    | .found value _ => some value
    | .plain _ => none

/-- The text without what the recogniser finds in it. -/
def remove {α : Type} (find : Recogniser α) (text : Text) : Text :=
  (pieces find text).filterMap fun
    | .plain c => some c
    | .found _ _ => none

/-- A recogniser from a reader that returns what it leaves. -/
def ofReader {α : Type} (read : Text → Option (α × Text)) (text : Text) : Option (α × Nat) :=
  (read text).map fun (value, rest) => (value, text.length - rest.length)

end Graft.Scan
