import Graft.Command.Run
import Graft.CommandLine.Reading
import Graft.Fetch.Archive
import Graft.Log.Line

/-!
# The program

The program reads its command line, chooses how much it says, and carries out the command without a
network: every fetch fails. What it says is a list of lines, some of them of the log.
-/

namespace Graft

/-- A line that the program says beside what it prints. -/
inductive Shown where
  | log (text : String)
  | status (text : String)
  | report (text : String)
  deriving DecidableEq, Repr, Inhabited

/-- The text of a line. -/
def Shown.text : Shown → String
  | .log text => text
  | .status text => text
  | .report text => text

/-- A program that ran. -/
structure Finished where
  exitCode : Nat
  /-- What it printed. -/
  printed : Text
  /-- What it said, in order. -/
  shown : List Shown
  disk : Disk
  deriving DecidableEq, Repr, Inhabited

namespace Program

/-- The program's name and version. -/
def version : String := "splice 0.4.1"

/-- How the program is used. -/
def usage : List String :=
  ["splice inline REFERENCE [-o FILE | --json]", "splice sync NOTE [--heading TEXT] [--dry-run]",
    "splice config [--show-source]",
    "Options: -v, -q, --no-color, -c FILE, --retries N, --timeout SECONDS, --proxy URL, --strict"]

/-- What a command line that cannot be carried out comes to: help and version are printed, and anything
else is a mistake. -/
def refuse (e : UsageError) (disk : Disk) : Finished :=
  match e with
  | .helpAsked => ⟨0, (usage.map fun l => l ++ "\n").flatMap String.toList, [], disk⟩
  | .versionAsked => ⟨0, (version ++ "\n").toList, [], disk⟩
  | _ => ⟨2, [], usage.map .report, disk⟩

/-- The line of a notice, if it is shown. -/
def showNotice (directives : List Filter.Directive) (logColours statusColours : Bool) (time : String) :
    Notice → Option Shown
  | .event e =>
    if Filter.admits directives e then some (.log (e.print logColours time)) else none
  | .status s => some (.status (s.line statusColours))

/-- What a command that ran comes to, where `time` stands in the log. -/
def finish (line : CommandLine) (s : Surroundings) (time : String) (ran : Ran Unit Unit) : Finished :=
  let directives := Filter.choose line.isVerbose line.isQuiet (s.environment.lookup "RUST_LOG")
  let statusColours := Status.isColoured s.environment line.hasNoColor
  let shown := ran.notices.filterMap (showNotice directives (!line.hasNoColor) statusColours time)
  match ran.result with
  | .ok () => ⟨0, ran.printed, shown, ran.disk⟩
  | .error e => ⟨1, ran.printed, shown ++ [.report ("Error: " ++ e.report)], ran.disk⟩

/-- A fetcher without a network, for settings with or without a proxy. -/
def offline (settings : Settings) : Fetcher Unit := Fetcher.offline settings.fetch.proxyUrl.isSome

/-- Runs the program on the words of its command line. -/
def run? (words : List String) (s : Surroundings) (time : String) : Option Finished :=
  match CommandLine.read words with
  | .error e => some (refuse e s.disk)
  | .ok line => (Command.run? offline 1 line s ()).map (finish line s time)

end Program

end Graft
