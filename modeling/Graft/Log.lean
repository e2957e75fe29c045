import Graft.Text.Basic

/-!
# Log events

Work that is worth a line in the log returns events beside its result. An event has a level, a
channel that filters name, a message and named values; how it is printed is decided elsewhere.
-/

namespace Graft

/-- How important an event is. -/
inductive Level where
  | trace
  | debug
  | info
  | warn
  | error
  deriving DecidableEq, Repr, Inhabited

namespace Level

/-- Levels by importance: the larger, the more is let through at that level. -/
def detail : Level → Nat
  | .error => 1
  | .warn => 2
  | .info => 3
  | .debug => 4
  | .trace => 5

/-- The name of a level in a log line. -/
def name : Level → String
  | .trace => "TRACE"
  | .debug => "DEBUG"
  | .info => "INFO"
  | .warn => "WARN"
  | .error => "ERROR"

end Level

/-- The part of the program that an event comes from. -/
inductive Channel where
  | inlining
  | entry
  | fetching
  | network
  | settings
  | commands
  | inlineCommand
  | syncCommand
  deriving DecidableEq, Repr, Inhabited

/-- The name by which filters select a channel. -/
def Channel.name : Channel → String
  | .inlining => "splice::inline"
  | .entry => "splice::entry"
  | .fetching => "splice::runtime"
  | .network => "splice::runtime::http"
  | .settings => "splice_config::loading"
  | .commands => "splice_cli::commands::utils"
  | .inlineCommand => "splice_cli::commands::inline"
  | .syncCommand => "splice_cli::commands::sync"

/-- A value in an event. -/
inductive Value where
  /-- Text that a log line shows as it is. -/
  | shown (text : String)
  /-- Text that a log line shows between quotation marks. -/
  | quoted (text : String)
  /-- A count. -/
  | count (n : Nat)
  /-- A truth value. -/
  | flag (b : Bool)
  deriving DecidableEq, Repr, Inhabited

/-- One thing that happened. -/
structure Event where
  level : Level
  channel : Channel
  message : String
  /-- The named values, in the order in which a log line shows them. -/
  fields : List (String × Value)
  deriving DecidableEq, Repr, Inhabited

end Graft
