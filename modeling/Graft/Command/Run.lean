import Graft.Command.Failure
import Graft.CommandLine
import Graft.Report
import Graft.Status

/-!
# Carrying out commands

A command works on a disk, in an environment, with a fetcher. It says what it prints, what happened in
order (log events and status lines), and the disk after it. It writes at most one file, as its last
act, so a command that fails leaves the disk as it was. A walk is given a number of steps; where these
are not enough there is no answer.
-/

namespace Graft

/-- One thing that happened while a command ran. -/
inductive Notice where
  | event (e : Event)
  | status (s : Status)
  deriving DecidableEq, Repr, Inhabited

/-- What a command works in. -/
structure Surroundings where
  disk : Disk
  environment : Environment
  /-- The time at which code is written into a note. -/
  now : Timestamp
  /-- How long the work takes. -/
  elapsed : Duration
  deriving DecidableEq, Repr, Inhabited

/-- A command that ran. -/
structure Ran (α σ : Type) where
  result : Except CommandError α
  /-- What it printed. -/
  printed : Text
  notices : List Notice
  disk : Disk
  /-- The fetcher's state. -/
  source : σ

namespace Ran

variable {α β σ : Type}

/-- A command that failed before it printed or wrote anything. -/
def failed (e : CommandError) (notices : List Notice) (disk : Disk) (source : σ) : Ran α σ :=
  ⟨.error e, [], notices, disk, source⟩

/-- The same run with notices before it. -/
def after (r : Ran α σ) (notices : List Notice) : Ran α σ := { r with notices := notices ++ r.notices }

end Ran

namespace Command

variable {σ : Type}

/-- The settings that a command line asks for, and the events on the way to them. -/
def settings (line : CommandLine) (s : Surroundings) :
    Except CommandError Settings × List Notice :=
  let (loaded, events) := line.settingsSource.load s.disk s.environment
  match loaded with
  | .error e => (.error (.settings e), events.map .event)
  | .ok settings =>
    let done : Event :=
      ⟨.debug, .commands, "configuration loaded", [("config", .shown settings.describe)]⟩
    (.ok settings, (events ++ [done]).map .event)

/-- A reference that was resolved and inlined: the entry's URL and the output. -/
structure Inlined (σ : Type) where
  result : Except CommandError (String × Output)
  source : σ
  events : List Event

/-- Finds the entry of a reference and inlines it. -/
def inlineReference? (fetcher : Fetcher σ) (steps : Nat) (settings : Settings) (r : Reference)
    (source : σ) : Option (Inlined σ) :=
  let found := Entry.resolve fetcher settings.entry settings.fetchOptions r source
  match found.result with
  | .error e => some ⟨.error (.entry e), found.state, found.events⟩
  | .ok (url, content) => do
    let walked ← Walk.inline? fetcher settings.inlineOptions steps (some content) url found.state
    let result :=
      match walked.ending with
      | .error e => .error (.inlining e)
      | .ok none => .error (.emptyEntry url)
      | .ok (some output) => .ok (url, output)
    return ⟨result, walked.source, found.events ++ walked.log⟩

/-- The status lines that a command ends with, unless it is quiet. -/
def unlessQuiet (isQuiet : Bool) (lines : List Status) : List Notice :=
  if isQuiet then [] else lines.map .status

/-- Where the code of `inline` goes. -/
inductive Destination where
  /-- It is printed. -/
  | print
  /-- It is written to the file at a path. -/
  | file (path : String)
  /-- It is printed in a report. -/
  | report
  deriving DecidableEq, Repr, Inhabited

/-- The destination that the options ask for. -/
def Destination.of (output : Option String) (asJson : Bool) : Destination :=
  if asJson then .report
  else
    match output with
    | some path => .file path
    | none => .print

/-- Sends an output to its destination. -/
def deliver (s : Surroundings) (isQuiet : Bool) (destination : Destination) (entry : String)
    (o : Output) (source : σ) : Ran Unit σ :=
  let summary := unlessQuiet isQuiet (Status.summary o s.elapsed)
  match destination with
  | .report => ⟨.ok (), Report.print entry o ++ ['\n'], summary, s.disk, source⟩
  | .print => ⟨.ok (), o.code ++ ['\n'], summary, s.disk, source⟩
  | .file path =>
    match s.disk.write path (o.code ++ ['\n']) with
    | .error e => .failed (.ofDisk path e) [] s.disk source
    | .ok disk =>
      let wrote : Notice :=
        .event ⟨.info, .inlineCommand, "wrote code block", [("path", .shown path)]⟩
      ⟨.ok (), [], wrote :: unlessQuiet isQuiet [.success ("Wrote " ++ path)] ++ summary, disk, source⟩

/-- Inlines the reference that a text names and sends the code to its destination, if it is not too
long. -/
def inline? (fetcher : Fetcher σ) (steps : Nat) (settings : Settings) (s : Surroundings)
    (isQuiet : Bool) (reference : String) (destination : Destination) (source : σ) :
    Option (Ran Unit σ) :=
  match Entry.reference reference with
  | .error e => some (.failed (.entry e) [] s.disk source)
  | .ok r => do
    let made ← inlineReference? fetcher steps settings r source
    let events := made.events.map Notice.event
    match made.result with
    | .error e => return .failed e events s.disk made.source
    | .ok (entry, o) =>
      -- The bound is on the code itself, without the line feed that is sent behind it.
      let max := settings.output.maxChars.toNat
      if max < o.code.length then
        return .failed (.note (.outputTooLarge o.code.length max)) events s.disk made.source
      else return (deliver s isQuiet destination entry o made.source).after events

/-- A note that was synced. -/
structure Synced where
  /-- The note's path. -/
  note : String
  /-- The note's new text. -/
  updated : Text
  /-- Whether the note was written. -/
  isWritten : Bool
  output : Output
  deriving DecidableEq, Repr, Inhabited

/-- Writes an output into a note's block, unless that is only tried. -/
def writeNote (settings : Settings) (s : Surroundings) (path : String) (isDryRun : Bool) (note : Text)
    (r : Reference) (block : Block) (o : Output) (source : σ) : Ran Synced σ :=
  let provenance : Provenance := ⟨r.display, s.now⟩
  match Note.replaceBlock note block o.code provenance settings.output.maxChars.toNat with
  | .error e => .failed (.note e) [] s.disk source
  | .ok updated =>
    -- A dry run gives the new text of the note and leaves the file alone.
    if isDryRun then ⟨.ok ⟨path, updated, false, o⟩, [], [], s.disk, source⟩
    else
      match s.disk.write path updated with
      | .error e => .failed (.ofDisk path e) [] s.disk source
      | .ok disk => ⟨.ok ⟨path, updated, true, o⟩, [], [], disk, source⟩

/-- What a note says: its text, the reference that it names, and its block. -/
def readNote (settings : Settings) (disk : Disk) (path : String) :
    Except CommandError (Text × Reference × Block) := do
  let note ← (disk.read path).mapError (CommandError.ofDisk path)
  let r ← (Note.sourceReference note).mapError CommandError.note
  let block ← (Note.insertBlock note settings.output.heading).mapError CommandError.note
  return (note, r, block)

/-- Inlines the reference that a note names and writes the code into the note. -/
def sync? (fetcher : Fetcher σ) (steps : Nat) (settings : Settings) (s : Surroundings)
    (path : String) (isDryRun : Bool) (source : σ) : Option (Ran Synced σ) :=
  match readNote settings s.disk path with
  | .error e => some (.failed e [] s.disk source)
  | .ok (note, r, block) => do
    let syncing : Event := ⟨.info, .syncCommand, "syncing note",
      [("note", .shown path), ("reference", .shown r.display)]⟩
    let made ← inlineReference? fetcher steps settings r source
    let events := (syncing :: made.events).map Notice.event
    match made.result with
    | .error e => return .failed e events s.disk made.source
    | .ok (entry, o) =>
      let resolved : Notice :=
        .event ⟨.info, .syncCommand, "entry resolved", [("entry", .shown entry)]⟩
      return (writeNote settings s path isDryRun note r block o made.source).after
        (events ++ [resolved])

/-- What `sync` prints and says after it: a dry run prints the note's new text. -/
def reportSync (s : Surroundings) (isQuiet : Bool) (ran : Ran Synced σ) : Ran Unit σ :=
  match ran.result with
  | .error e => ⟨.error e, ran.printed, ran.notices, ran.disk, ran.source⟩
  | .ok synced =>
    let last : Status :=
      if synced.isWritten then .success ("Synced " ++ synced.note)
      else .info "Dry run, note not changed"
    ⟨.ok (), if synced.isWritten then [] else synced.updated,
      ran.notices ++ unlessQuiet isQuiet (Status.summary synced.output s.elapsed ++ [last]),
      ran.disk, ran.source⟩

/-- The status line that tells which settings file was read. -/
def sourceLine (line : CommandLine) (disk : Disk) : Status :=
  match line.settingsSource.file? disk with
  | .ok (some path) => .info ("Config file: " ++ path)
  | _ => .info "No config file found, using defaults and environment"

/-- Prints the settings. -/
def showSettings (line : CommandLine) (settings : Settings) (s : Surroundings) (showsSource : Bool)
    (source : σ) : Ran Unit σ :=
  let notices := if showsSource then [Notice.status (sourceLine line s.disk)] else []
  match settings.toToml with
  | .error e => .failed (.settings e) notices s.disk source
  | .ok text => ⟨.ok (), text, notices, s.disk, source⟩

/-- Carries out the command of a command line. -/
def run? (fetcher : Settings → Fetcher σ) (steps : Nat) (line : CommandLine) (s : Surroundings)
    (source : σ) : Option (Ran Unit σ) :=
  let (loaded, notices) := settings line s
  match loaded with
  | .error e => some (.failed e notices s.disk source)
  | .ok settings => do
    let ran ←
      match line.command with
      | .inline reference output asJson =>
        inline? (fetcher settings) steps settings s line.isQuiet reference
          (.of output asJson) source
      | .sync note _ isDryRun =>
        (sync? (fetcher settings) steps settings s note isDryRun source).map
          (reportSync s line.isQuiet)
      | .config showsSource => some (showSettings line settings s showsSource source)
    return ran.after notices

end Command

end Graft
