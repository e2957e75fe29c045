import Graft.Settings.Layers

/-!
# The command line

What a command line says: options that every command knows, and one of three commands with options and
an argument of its own. How its words are read is in `CommandLine/Reading.lean`.
-/

namespace Graft

/-- What the program is asked to do. -/
inductive Command where
  /-- Inline what a reference names and print the code, write it to a file, or report it as JSON. -/
  | inline (reference : String) (output : Option String) (asJson : Bool)
  /-- Inline what a note names and write the code into the note. -/
  | sync (note : String) (heading : Option String) (isDryRun : Bool)
  /-- Print the settings. -/
  | config (showsSource : Bool)
  deriving DecidableEq, Repr, Inhabited

/-- A command line. -/
structure CommandLine where
  isVerbose : Bool
  isQuiet : Bool
  hasNoColor : Bool
  /-- The settings file asked for. -/
  config : Option String
  retries : Option UInt32
  timeoutSeconds : Option UInt64
  proxyUrl : Option String
  isStrict : Bool
  command : Command
  deriving DecidableEq, Repr, Inhabited

/-- Why a command line is not carried out as a command. -/
inductive UsageError where
  /-- Help is asked for. -/
  | helpAsked
  /-- The version is asked for. -/
  | versionAsked
  /-- There is nothing at all. -/
  | nothingAsked
  /-- There are options but no command. -/
  | missingCommand
  /-- A word stands where a command belongs. -/
  | unknownCommand
  /-- An option is not known, or there is one argument too many. -/
  | unknownArgument
  /-- An option without a value is given one. -/
  | unwantedValue
  /-- An option with a value is given none, or a path is empty. -/
  | missingValue
  /-- A number is not one, or out of range. -/
  | badNumber
  /-- Two options exclude each other, or one is given twice. -/
  | conflict
  /-- The command's argument is missing. -/
  | missingArgument
  deriving DecidableEq, Repr, Inhabited

namespace CommandLine

/-- The heading that the command asks for. -/
def heading (c : CommandLine) : Option String :=
  match c.command with
  | .sync _ heading _ => heading
  | _ => none

/-- The layer of settings that the command line makes. -/
def overrides (c : CommandLine) : Overrides where
  retries := c.retries
  timeoutSeconds := c.timeoutSeconds
  proxyUrl := c.proxyUrl
  heading := c.heading
  isStrict := if c.isStrict then some true else none

/-- Where the command's settings come from. -/
def settingsSource (c : CommandLine) : SettingsSource where
  file := c.config
  overrides := c.overrides

end CommandLine

end Graft
