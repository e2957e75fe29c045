import Graft.Settings.Layers

/-!
# Status lines

What a command tells the person at the terminal: how it went, which imports were passed over, and what
was put in. Status lines are coloured only when that is asked for.
-/

namespace Graft

namespace Ink

/-- A control sequence of a terminal. -/
def control (code : String) : String := "\x1b[" ++ code ++ "m"

/-- Text in bold. -/
def bold (s : String) : String := control "1" ++ s ++ control "0"

/-- Text in a fainter colour. -/
def dim (s : String) : String := control "2" ++ s ++ control "0"

/-- Text in italics. -/
def italic (s : String) : String := control "3" ++ s ++ control "0"

/-- A colour of a terminal. -/
inductive Colour where
  | red
  | green
  | yellow
  | blue
  | purple
  deriving DecidableEq, Repr, Inhabited

/-- The code of a colour. -/
def Colour.code : Colour → String
  | .red => "31"
  | .green => "32"
  | .yellow => "33"
  | .blue => "34"
  | .purple => "35"

/-- Text in a colour that ends with it. -/
def colour (c : Colour) (s : String) : String := control c.code ++ s ++ control "39"

end Ink

/-- A status line. -/
inductive Status where
  | success (text : String)
  | info (text : String)
  | warning (text : String)
  /-- An import that was passed over. -/
  | skipped (s : Skipped)
  /-- What was put in. -/
  | totals (text : String)
  deriving DecidableEq, Repr, Inhabited

namespace Status

/-- Whether status lines are coloured: only if the environment forces colours, for there is no terminal to
ask, and nothing turns them off. -/
def isColoured (environment : Environment) (hasNoColor : Bool) : Bool :=
  !hasNoColor && (environment.lookup "NO_COLOR").isNone && (environment.lookup "FORCE_COLOR").isSome

/-- A sign in bold colour. -/
def sign (isColoured : Bool) (c : Ink.Colour) (s : String) : String :=
  if isColoured then Ink.bold (Ink.colour c s) else s

/-- A reason in a status line. -/
def reasonText : SkipReason → String
  | .alreadyInlined => "already inlined"
  | .fetchFailed => "could not be fetched"

/-- A status line as it is shown. -/
def line (isColoured : Bool) : Status → String
  | .success text => sign isColoured .green "✓" ++ " " ++ text
  | .info text => sign isColoured .blue "ℹ" ++ " " ++ text
  | .warning text =>
    sign isColoured .yellow "⚠" ++ " " ++ (if isColoured then Ink.colour .yellow text else text)
  | .skipped s =>
    let text := s!"  skipped {s.url} ({reasonText s.reason})"
    if isColoured then Ink.dim text else text
  | .totals text =>
    if isColoured then "  " ++ Ink.bold "Inlined" ++ " " ++ Ink.colour .green text
    else "  Inlined " ++ text

/-- The number of different files that renamings are of. -/
def sourceCount (renamings : List Renaming) : Nat := (renamings.map Renaming.source).eraseDups.length

/-- The number of imports that could not be fetched. -/
def failureCount (skipped : List Skipped) : Nat := skipped.countP fun s => s.reason = .fetchFailed

/-- The summary of an output: the imports passed over, what was put in, and a warning about what is
missing. -/
def summary (o : Output) (elapsed : Duration) : List Status :=
  let failed := failureCount o.skipped
  o.skipped.map .skipped ++
    [.totals (s!"{o.renamings.length} function(s) from {sourceCount o.renamings} file(s), " ++
      s!"{o.code.length} characters in {elapsed.describe}")] ++
    (if 0 < failed then
      [.warning s!"{failed} import(s) could not be fetched; calls into them were left as-is"]
    else [])

end Status

end Graft
