import Graft.CommandLine.Switch

/-!
# Reading a command line

Words are read from left to right, first those before the command and then those after it. An option
that awaits a value takes the next word that is no option. A value is looked at when the next option or
argument comes, or at the end, so an option that is not known comes before a value that makes no sense.
The words after the command are read and checked in full before those before it are.
-/

namespace Graft.CommandLine

/-- What a value is for. -/
inductive Slot where
  | switch (s : Switch)
  | argument
  deriving DecidableEq, Repr, Inhabited

/-- What is read at one level so far. -/
structure Reading where
  /-- The options given, and the values that are looked at already; a flag's value is empty. -/
  given : List (Slot × String) := []
  /-- What still waits: for a value, or for the value to be looked at. -/
  waiting : Option (Slot × Option String) := none
  /-- Whether no more options are read. -/
  isPlain : Bool := false
  deriving DecidableEq, Repr, Inhabited

namespace Reading

/-- Whether something was given a value or turned on. -/
def has (r : Reading) (slot : Slot) : Bool := (r.given.lookup slot).isSome

/-- Whether an option awaits its value. -/
def awaitsValue (r : Reading) : Bool :=
  match r.waiting with
  | some (_, none) => true
  | _ => false

/-- What the value of a slot has to be. -/
def kindOf (level : Level) : Slot → ValueKind
  | .argument => level.argument?.getD .text
  | .switch s =>
    match s.effect with
    | .value kind => kind
    | _ => .text

/-- Gives a slot its value: at most once, and a value of its kind. -/
def give (r : Reading) (level : Level) (slot : Slot) (value : String) : Except UsageError Reading :=
  if r.has slot then .error .conflict
  else
    match (kindOf level slot).fault? value with
    | some e => .error e
    | none => .ok { r with given := r.given ++ [(slot, value)] }

/-- Looks at what waits. -/
def settle (r : Reading) (level : Level) : Except UsageError Reading :=
  match r.waiting with
  | none => .ok r
  | some (_, none) => .error .missingValue
  | some (slot, some value) => { r with waiting := none }.give level slot value

/-- An option without a value. -/
def turnOn (r : Reading) (level : Level) (s : Switch) : Except UsageError Reading := do
  let r ← r.settle level
  match s.effect with
  | .answer e => .error e
  | _ => r.give level (.switch s) ""

/-- An option with its value in the same word. -/
def attach (r : Reading) (level : Level) (s : Switch) (value : String) : Except UsageError Reading := do
  (← r.settle level).give level (.switch s) value

/-- An option whose value is the next word. -/
def await (r : Reading) (level : Level) (s : Switch) : Except UsageError Reading := do
  return { (← r.settle level) with waiting := some (.switch s, none) }

/-- The value that an option awaits. -/
def supply (r : Reading) (value : String) : Reading :=
  { r with waiting := r.waiting.map fun w => (w.1, some value) }

/-- A word that starts with two hyphens: its name, and the value after an equals sign. -/
def readLong (r : Reading) (level : Level) (word : Text) : Except UsageError Reading :=
  let name := word.takeWhile (· ≠ '=')
  let value? : Option String :=
    match word.drop name.length with
    | [] => none
    | _ :: value => some (String.ofList value)
  match level.long? (String.ofList name) with
  | none => .error .unknownArgument
  | some s =>
    -- Only an option that takes a value may be given one.
    match s.effect, value? with
    | .value _, some value => r.attach level s value
    | .value _, none => r.await level s
    | _, some _ => .error .unwantedValue
    | _, none => r.turnOn level s

/-- The letters of a word that starts with one hyphen. The first option that takes a value takes the rest
of the word, without an equals sign at its start. -/
def readLetters (level : Level) : Reading → Text → Except UsageError Reading
  | r, [] => .ok r
  | r, c :: rest =>
    match level.short? c with
    | none => .error .unknownArgument
    | some s =>
      match s.effect, rest with
      | .value _, [] => r.await level s
      | .value _, '=' :: value => r.attach level s (String.ofList value)
      | .value _, value => r.attach level s (String.ofList value)
      | _, rest => do readLetters level (← r.turnOn level s) rest

/-- Whether the level's argument is there already. -/
def hasArgument (r : Reading) : Bool :=
  r.has .argument || r.waiting.any fun w => w.1 = .argument

/-- A word that is no option and no value of one. -/
def readArgument (r : Reading) (level : Level) (word : String) : Except UsageError Reading :=
  if level = .top then
    .error (if r.isPlain && ((CommandName.ofWord? word).isSome || word = "help") then .unknownArgument
      else .unknownCommand)
  else if level.argument?.isNone || r.hasArgument then .error .unknownArgument
  else do return { (← r.settle level) with waiting := some (.argument, some word) }

/-- One word at a level, after it is found not to name a command. -/
def readWord (r : Reading) (level : Level) (word : String) : Except UsageError Reading :=
  if r.isPlain then r.readArgument level word
  else
    match word.toList with
    | ['-', '-'] => .ok { r with isPlain := true }
    | '-' :: '-' :: rest => r.readLong level rest
    | '-' :: c :: rest => readLetters level r (c :: rest)
    | _ => if r.awaitsValue then .ok (r.supply word) else r.readArgument level word

/-- The words after a command. -/
def readWords (level : Level) : Reading → List String → Except UsageError Reading
  | r, [] => .ok r
  | r, word :: words => do readWords level (← r.readWord level word) words

/-- Whether two options that exclude each other are both given. -/
def hasConflict (r : Reading) : Bool :=
  (r.has (.switch .verbose) && r.has (.switch .quiet)) ||
    (r.has (.switch .json) && r.has (.switch .output))

/-- Looks at what is left, and at the level as a whole. -/
def finish (r : Reading) (level : Level) : Except UsageError Reading := do
  let r ← r.settle level
  if r.hasConflict then .error .conflict
  else if level.argument?.isSome && !r.has .argument then .error .missingArgument
  else return r

end Reading

/-- The answer to `help` and the words after it: they have to name a command, or `help` itself. -/
def helpOn (topics : List String) : UsageError :=
  match topics with
  | [] => .helpAsked
  | [topic] =>
    if (CommandName.ofWord? topic).isSome || topic = "help" then .helpAsked else .unknownCommand
  | _ => .unknownCommand

/-- The words before the command, the command, and the words after it. -/
def readTop : Reading → List String → Except UsageError (Reading × Option (CommandName × List String))
  | r, [] => .ok (r, none)
  | r, word :: words =>
    if r.isPlain || r.awaitsValue then do readTop (← r.readWord .top word) words
    else if word = "help" then .error (helpOn words)
    else
      match CommandName.ofWord? word with
      | some name => .ok (r, some (name, words))
      | none => do readTop (← r.readWord .top word) words

/-- Words that are read in full: those before the command and those after it. -/
structure Words where
  before : Reading
  after : Reading
  deriving DecidableEq, Repr

namespace Words

/-- Whether a flag is given, before the command or after it. -/
def has (w : Words) (s : Switch) : Bool := w.after.has (.switch s) || w.before.has (.switch s)

/-- The value of an option: the one after the command comes before the other. -/
def value? (w : Words) (s : Switch) : Option String :=
  w.after.given.lookup (.switch s) <|> w.before.given.lookup (.switch s)

/-- The number that is the value of an option. -/
def number? (w : Words) (s : Switch) (kind : ValueKind) : Option Nat := (w.value? s).bind kind.number?

/-- The command's argument. -/
def argument (w : Words) : String := (w.after.given.lookup .argument).getD ""

/-- The command that the words ask for. -/
def command (w : Words) : CommandName → Command
  | .inline => .inline w.argument (w.value? .output) (w.has .json)
  | .sync => .sync w.argument (w.value? .heading) (w.has .dryRun)
  | .config => .config (w.has .showSource)

/-- The command line that the words make. -/
def commandLine (w : Words) (name : CommandName) : CommandLine where
  isVerbose := w.has .verbose
  isQuiet := w.has .quiet
  hasNoColor := w.has .noColor
  config := w.value? .config
  retries := (w.number? .retries .count).map Nat.toUInt32
  timeoutSeconds := (w.number? .timeout .largeCount).map Nat.toUInt64
  proxyUrl := w.value? .proxy
  isStrict := w.has .strict
  command := w.command name

end Words

/-- The command line that words make, without the program's name. -/
def read (words : List String) : Except UsageError CommandLine := do
  match ← readTop {} words with
  | (before, none) =>
    let before ← before.settle .top
    .error (if before.given.isEmpty then .nothingAsked else .missingCommand)
  | (before, some (name, rest)) =>
    let level := Level.command name
    let after ← (← Reading.readWords level {} rest).finish level
    let before ← before.finish .top
    return Words.commandLine ⟨before, after⟩ name

end Graft.CommandLine
