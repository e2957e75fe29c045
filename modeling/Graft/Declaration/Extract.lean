import Graft.Declaration.Extent
import Graft.Log

/-!
# The declarations of a file

The lines of a file are tried as headers from top to bottom. A header inside a declaration that was
cut before is passed over; one whose end cannot be found is skipped. `Declaration.extract` gives the
rest by name.
-/

namespace Graft.Declaration

/-- What became of a header. Positions count bytes from the start of the file. -/
inductive Attempt where
  /-- The declaration was cut out of the file from `start` to `stop`. -/
  | cut (start stop : Nat) (declaration : Declaration)
  /-- No end was found for the declaration. -/
  | unbounded (name : String) (start : Nat)
  deriving DecidableEq, Repr

/-- The log event of an attempt. -/
def Attempt.event : Attempt → Event
  | .cut _ _ d =>
    ⟨.debug, .inlining, "extracted declaration",
      [("name", .shown d.name), ("length", .count (Text.byteLength d.text))]⟩
  | .unbounded name start =>
    ⟨.debug, .inlining, "no end line for declaration, skipping",
      [("name", .quoted name), ("offset", .count start)]⟩

/-- The declaration that an attempt cut. -/
def Attempt.declaration? : Attempt → Option Declaration
  | .cut _ _ d => some d
  | .unbounded _ _ => none

/-- The attempts of a text that starts `offset` bytes into the file. The last header covers `header`
more characters and the last cut covers `cut` more; `lineStart` tells whether a line starts here. -/
def attemptsFrom : (header cut offset : Nat) → (lineStart : Bool) → Text → List Attempt
  | _, _, _, _, [] => []
  -- No other header is looked for inside of one.
  | header + 1, cut, offset, _, c :: rest =>
    attemptsFrom header (cut - 1) (offset + c.utf8Size) (c = '\n') rest
  | 0, cut, offset, lineStart, c :: rest =>
    match if lineStart then Header.read? (c :: rest) else none with
    | none => attemptsFrom 0 (cut - 1) (offset + c.utf8Size) (c = '\n') rest
    | some h =>
      let header := rest.length - h.rest.length
      -- What stands inside the last cut is a part of that declaration.
      if 0 < cut then attemptsFrom header (cut - 1) (offset + c.utf8Size) (c = '\n') rest
      else
        match h.cut? with
        | some done =>
          let span := (c :: rest).take (rest.length + 1 - done.rest.length)
          .cut offset (offset + Text.byteLength span) done.declaration ::
            attemptsFrom header (rest.length - done.rest.length) (offset + c.utf8Size) (c = '\n') rest
        | none =>
          .unbounded (String.ofList h.name) offset ::
            attemptsFrom header 0 (offset + c.utf8Size) (c = '\n') rest

/-- The attempts of a file, from top to bottom. -/
def attempts (text : Text) : List Attempt := attemptsFrom 0 0 0 true text

/-- The declarations of a file, by name. -/
def extract (text : Text) : List Declaration := byName ((attempts text).filterMap Attempt.declaration?)

end Graft.Declaration
