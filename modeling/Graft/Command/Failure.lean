import Graft.Disk
import Graft.Note
import Graft.Settings
import Graft.Walk

/-!
# How commands fail

A command fails because of its settings, the entry, an import, the note, or the disk. A failure has a
message of one line and a report, which may add what was tried and what to do.
-/

namespace Graft

/-- Why a command failed. -/
inductive CommandError where
  | settings (e : SettingsError)
  | entry (e : EntryError)
  | inlining (e : InlineError)
  | note (e : NoteError)
  /-- The entry has nothing in it. -/
  | emptyEntry (url : String)
  /-- A file to read, or the folder of a file to write, is not there. -/
  | fileMissing (path : String)
  | disk (e : DiskError)
  deriving DecidableEq, Repr, Inhabited

namespace CommandError

/-- The failure to read or write the file at a path. -/
def ofDisk (path : String) : DiskError → CommandError
  | .missing => .fileMissing path
  | e => .disk e

/-- The message of a failure. -/
def message : CommandError → String
  | .settings e => "Configuration error: " ++ e.message
  | .entry e => "Entry error: " ++ e.message
  | .inlining e => "Inline error: " ++ e.message
  | .note e => "Note error: " ++ e.message
  | .emptyEntry url => s!"Nothing to inline: {url} is empty"
  | .fileMissing path => "File not found: " ++ path
  | .disk e => "I/O error: " ++ e.message

/-- A text with a hint after a blank line. -/
def withHint (text hint : String) : String := text ++ "\n\nHint: " ++ hint

/-- The report of a missing entry. -/
def entryReport : EntryError → String
  | .notFound reference tried =>
    withHint (s!"No entry file found for {reference}\nTried:\n  " ++ Word.joinWith "\n  " tried)
      "Set entry.locations in splice.toml or point at the file with an `entry:` line"
  | e => e.message

/-- The report of a failed walk. -/
def inlineReport : InlineError → String
  | .missingClosingBrace url =>
    withHint s!"The entry file {url} has no closing brace to insert inlined functions before"
      "The entry must define its plugin as an object literal, e.g. `const plugin = \x7b ... \x7d`"
  | .importUnavailable url importer cause =>
    withHint (s!"Could not fetch {url}\nImported from: {importer}\n" ++
        (cause.map FetchError.message).getD "")
      "Drop --strict to skip unavailable imports"

/-- The report of a note that cannot be read or written. -/
def noteReport : NoteError → String
  | .noSourceReference =>
    withHint NoteError.noSourceReference.message
      "Add a line like `repo: org/repo` or `entry: org/repo/lib/plugin.js`"
  | .noInsertLocation =>
    withHint NoteError.noInsertLocation.message
      "Add an empty ```javascript fenced block where the code should go"
  | .outputTooLarge chars max =>
    withHint (s!"Inlined code is {chars} characters, over the {max} character limit; " ++
        "the note was not changed")
      "Raise output.max_chars in splice.toml"

/-- The report of a failure. -/
def report : CommandError → String
  | .settings e =>
    withHint (CommandError.settings e).message
      "Check splice.toml and SPLICE_* environment variables"
  | .entry e => entryReport e
  | .inlining e => inlineReport e
  | .note e => noteReport e
  | e => e.message

end CommandError

end Graft
