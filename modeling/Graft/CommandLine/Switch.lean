import Graft.CommandLine

/-!
# Options

The options by name: how each is spelled, whether it takes a value and of which kind, and which command
knows it. Eight options and `help` are known everywhere; only `version` is known to no command.
-/

namespace Graft.CommandLine

/-- A command by name. -/
inductive CommandName where
  | inline
  | sync
  | config
  deriving DecidableEq, Repr, Inhabited

/-- The command that a word names. -/
def CommandName.ofWord? (word : String) : Option CommandName :=
  if word = "inline" then some .inline
  else if word = "sync" then some .sync
  else if word = "config" then some .config
  else none

/-- An option by name. -/
inductive Switch where
  | verbose
  | quiet
  | noColor
  | config
  | retries
  | timeout
  | proxy
  | strict
  | help
  | version
  | output
  | json
  | heading
  | dryRun
  | showSource
  deriving DecidableEq, Repr, Inhabited

/-- What a value has to be. -/
inductive ValueKind where
  /-- Any text. -/
  | text
  /-- A text that is not empty. -/
  | path
  /-- A number below `2 ^ 32`, with or without a sign. -/
  | count
  /-- A number below `2 ^ 64`, with or without a plus. -/
  | largeCount
  deriving DecidableEq, Repr, Inhabited

/-- What an option does. -/
inductive Effect where
  /-- It is on when it is given. -/
  | flag
  /-- It takes a value. -/
  | value (kind : ValueKind)
  /-- It ends the reading. -/
  | answer (e : UsageError)
  deriving DecidableEq, Repr, Inhabited

namespace Switch

/-- The name of an option after two hyphens. -/
def long : Switch → String
  | .verbose => "verbose"
  | .quiet => "quiet"
  | .noColor => "no-color"
  | .config => "config"
  | .retries => "retries"
  | .timeout => "timeout"
  | .proxy => "proxy"
  | .strict => "strict"
  | .help => "help"
  | .version => "version"
  | .output => "output"
  | .json => "json"
  | .heading => "heading"
  | .dryRun => "dry-run"
  | .showSource => "show-source"

/-- The letter of an option after one hyphen. -/
def short? : Switch → Option Char
  | .verbose => some 'v'
  | .quiet => some 'q'
  | .config => some 'c'
  | .help => some 'h'
  | .version => some 'V'
  | .output => some 'o'
  | _ => none

/-- What an option does. -/
def effect : Switch → Effect
  | .config => .value .path
  | .retries => .value .count
  | .timeout => .value .largeCount
  | .proxy => .value .text
  | .output => .value .path
  | .heading => .value .text
  | .help => .answer .helpAsked
  | .version => .answer .versionAsked
  | _ => .flag

/-- The options known everywhere. -/
def everywhere : List Switch :=
  [.verbose, .quiet, .noColor, .config, .retries, .timeout, .proxy, .strict, .help]

end Switch

/-- Where on a command line words are read: before the command, or after one. -/
inductive Level where
  | top
  | command (name : CommandName)
  deriving DecidableEq, Repr, Inhabited

namespace Level

/-- The options known at a level. -/
def switches : Level → List Switch
  | .top => Switch.everywhere ++ [.version]
  | .command .inline => Switch.everywhere ++ [.output, .json]
  | .command .sync => Switch.everywhere ++ [.heading, .dryRun]
  | .command .config => Switch.everywhere ++ [.showSource]

/-- What the argument at a level has to be, if there is one. -/
def argument? : Level → Option ValueKind
  | .command .inline => some .text
  | .command .sync => some .path
  | _ => none

/-- The option with a name. -/
def long? (level : Level) (name : String) : Option Switch :=
  level.switches.find? fun s => s.long = name

/-- The option with a letter. -/
def short? (level : Level) (letter : Char) : Option Switch :=
  level.switches.find? fun s => s.short? = some letter

end Level

/-- The number that digits after an optional sign write. -/
def signed? (value : String) : Option Int :=
  match value.toList with
  | '-' :: rest => (Variables.digits? rest).map fun n => -(n : Int)
  | '+' :: rest => (Variables.digits? rest).map fun n => (n : Int)
  | rest => (Variables.digits? rest).map fun n => (n : Int)

namespace ValueKind

/-- A number below a bound. -/
def below? (bound : Nat) (n : Option Int) : Option Nat :=
  n.bind fun n => if 0 ≤ n && n < bound then some n.toNat else none

/-- The number that a value writes, if numbers of its kind are written so. -/
def number? (kind : ValueKind) (value : String) : Option Nat :=
  match kind with
  | .count => below? UInt32.size (signed? value)
  | .largeCount => if Word.startsWith "-" value then none else below? UInt64.size (signed? value)
  | _ => none

/-- What is wrong with a value. -/
def fault? (kind : ValueKind) (value : String) : Option UsageError :=
  match kind with
  | .text => none
  | .path => if value.isEmpty then some .missingValue else none
  | kind => if (kind.number? value).isSome then none else some .badNumber

end ValueKind

end Graft.CommandLine
