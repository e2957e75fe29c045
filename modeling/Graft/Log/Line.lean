import Graft.Log.Filter
import Graft.Status
import Graft.Text.Quoted

/-!
# Log lines

An event is one line: time, level, message and named values. With colours the level has one of its own,
names are in italics, and the time and the equals signs are faint.
-/

namespace Graft

/-- A value as a log line shows it. -/
def Value.print : Value → String
  | .shown text => text
  | .quoted text => Quoted.quote text
  | .count n => toString n
  | .flag b => if b then "true" else "false"

/-- The name of a level, five characters wide. -/
def Level.column (l : Level) : String := if l.name.length < 5 then " " ++ l.name else l.name

/-- The colour of a level. -/
def Level.colour : Level → Ink.Colour
  | .trace => .purple
  | .debug => .blue
  | .info => .green
  | .warn => .yellow
  | .error => .red

namespace Event

/-- A named value of a log line. -/
def printField (isColoured : Bool) (field : String × Value) : String :=
  if isColoured then Ink.italic field.1 ++ Ink.dim "=" ++ field.2.print
  else field.1 ++ "=" ++ field.2.print

/-- The level of a log line. -/
def printLevel (isColoured : Bool) (l : Level) : String :=
  if isColoured then Ink.control l.colour.code ++ l.column ++ Ink.control "0" else l.column

/-- The log line of an event at a time. -/
def print (isColoured : Bool) (time : String) (e : Event) : String :=
  Word.joinWith " "
    ([if isColoured then Ink.dim time else time, printLevel isColoured e.level, e.message] ++
      e.fields.map (printField isColoured))

end Event

end Graft
