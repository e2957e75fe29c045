import Graft.Settings
import Graft.Toml.Writer

/-!
# The shape of settings

Settings are written as a table with a table for each section, and read from one: `Settings.tree` and
`Settings.ofTree?`. A key may be missing but not unknown. A section may also be given as the list of its
values, in the order in which they are declared.
-/

namespace Graft.Settings

/-- An entry for a value that may be missing. -/
def optionalEntry (key : String) : Option String → Tree.Entries
  | none => []
  | some s => [(key, .text s)]

/-- A number as a value. -/
def number (n : Nat) : Tree := .integer n

/-- The table of settings; what is missing has no entry. -/
def entries (s : Settings) : Tree.Entries :=
  [("fetch", .table ([("retries", number s.fetch.retries.toNat),
      ("timeout_seconds", number s.fetch.timeoutSeconds.toNat)] ++
      optionalEntry "proxy_url" s.fetch.proxyUrl)),
    ("entry", .table [("host", .text s.entry.host), ("default_branch", .text s.entry.branch),
      ("locations", .list (s.entry.locations.map Tree.text))]),
    ("output", .table (("max_chars", number s.output.maxChars.toNat) ::
      optionalEntry "heading" s.output.heading)),
    ("strict", .flag s.isStrict)]

/-- The settings file that says all that is set. -/
def toToml (s : Settings) : Except SettingsError Text :=
  match Toml.write? s.entries with
  | some text => .ok text
  | none => .error .unwritable

/-- How strictly a section given as a list is read. -/
inductive Strictness where
  /-- Values after the last declared one do not count. -/
  | lenient
  /-- There may be no value after the last declared one. -/
  | exact
  deriving DecidableEq, Repr, Inhabited

/-- The value that a section has for each of its keys. -/
def section? (strictness : Strictness) (keys : List String) : Tree → Option (String → Option Tree)
  | .table entries =>
    if entries.all fun e => keys.contains e.1 then some fun key => entries.lookup key else none
  | .list items =>
    if strictness = .exact && keys.length < items.length then none
    else some fun key => (keys.zip items).lookup key
  | _ => none

/-- A truth value. -/
def flag? : Tree → Option Bool
  | .flag b => some b
  | _ => none

/-- A number below a bound. -/
def number? (bound : Nat) : Tree → Option Nat
  | .integer n => if 0 ≤ n && n < bound then some n.toNat else none
  | _ => none

/-- A text. -/
def text? : Tree → Option String
  | .text s => some s
  | _ => none

/-- A list of texts. -/
def texts? : Tree → Option (List String)
  | .list items => items.mapM text?
  | _ => none

/-- A text or an explicit nothing. -/
def optionalText? : Tree → Option (Option String)
  | .empty => some none
  | t => (text? t).map some

/-- A value that has a default. -/
def valueOr {α : Type} (read? : Tree → Option α) (default : α) : Option Tree → Option α
  | none => some default
  | some t => read? t

/-- The fetch settings of a section. -/
def fetchOf? (strictness : Strictness) (t : Tree) : Option FetchSettings := do
  let value ← section? strictness ["retries", "timeout_seconds", "proxy_url"] t
  return {
    retries := (← valueOr (number? UInt32.size) 2 (value "retries")).toUInt32
    timeoutSeconds := (← valueOr (number? UInt64.size) 30 (value "timeout_seconds")).toUInt64
    proxyUrl := ← valueOr optionalText? none (value "proxy_url") }

/-- The entry settings of a section. -/
def entryOf? (strictness : Strictness) (t : Tree) : Option EntrySettings := do
  let value ← section? strictness ["host", "default_branch", "locations"] t
  let given : EntrySettings := {}
  return {
    host := ← valueOr text? given.host (value "host")
    branch := ← valueOr text? given.branch (value "default_branch")
    locations := ← valueOr texts? given.locations (value "locations") }

/-- The output settings of a section. -/
def outputOf? (strictness : Strictness) (t : Tree) : Option OutputSettings := do
  let value ← section? strictness ["max_chars", "heading"] t
  return {
    maxChars := (← valueOr (number? UInt64.size) 100000 (value "max_chars")).toUInt64
    heading := ← valueOr optionalText? none (value "heading") }

/-- The settings of a table. -/
def ofTree? (strictness : Strictness) (t : Tree) : Option Settings := do
  let value ← section? strictness ["fetch", "entry", "output", "strict"] t
  return {
    fetch := ← valueOr (fetchOf? strictness) {} (value "fetch")
    entry := ← valueOr (entryOf? strictness) {} (value "entry")
    output := ← valueOr (outputOf? strictness) {} (value "output")
    isStrict := ← valueOr flag? false (value "strict") }

end Graft.Settings
