import Graft.Entry
import Graft.Text.Quoted
import Graft.Walk

/-!
# Settings

What can be set: how files are fetched, where entry files are looked for, how long the output may be
and where it goes, and whether an import may be missing. Every setting has a default.
-/

namespace Graft

/-- How files are fetched. -/
structure FetchSettings where
  /-- The number of attempts for a URL. -/
  retries : UInt32 := 2
  /-- The time allowed for one attempt, in seconds. -/
  timeoutSeconds : UInt64 := 30
  /-- A proxy that requests go through. -/
  proxyUrl : Option String := none
  deriving DecidableEq, Repr, Inhabited

/-- How long the output may be, and where it goes. -/
structure OutputSettings where
  /-- The number of characters that the code may have. -/
  maxChars : UInt64 := 100000
  /-- The heading whose block is written. -/
  heading : Option String := none
  deriving DecidableEq, Repr, Inhabited

/-- All settings. -/
structure Settings where
  fetch : FetchSettings := {}
  entry : EntrySettings := {}
  output : OutputSettings := {}
  /-- Whether an import that cannot be fetched is an error. -/
  isStrict : Bool := false
  deriving DecidableEq, Repr, Inhabited

namespace Settings

/-- The fetch options that settings ask for. -/
def fetchOptions (s : Settings) : FetchOptions where
  retries := s.fetch.retries.toNat
  allowed := Duration.ofSeconds s.fetch.timeoutSeconds.toNat

/-- The inline options that settings ask for. -/
def inlineOptions (s : Settings) : InlineOptions where
  fetch := s.fetchOptions
  isStrict := s.isStrict

/-- A record in the log: its name, and its fields between braces. -/
def record (name : String) (fields : List (String × String)) : String :=
  name ++ " \x7b " ++ Word.joinWith ", " (fields.map fun (key, value) => key ++ ": " ++ value) ++ " \x7d"

/-- A truth value in the log. -/
def flagWord (b : Bool) : String := if b then "true" else "false"

/-- The settings as the log shows them. -/
def describe (s : Settings) : String :=
  record "SpliceConfig"
    [("fetch", record "FetchConfig"
        [("retries", toString s.fetch.retries.toNat),
          ("timeout_seconds", toString s.fetch.timeoutSeconds.toNat),
          ("proxy_url", Quoted.quoteOption s.fetch.proxyUrl)]),
      ("entry", record "EntryConfig"
        [("host", Quoted.quote s.entry.host), ("default_branch", Quoted.quote s.entry.branch),
          ("locations", Quoted.quoteList s.entry.locations)]),
      ("output", record "OutputConfig"
        [("max_chars", toString s.output.maxChars.toNat),
          ("heading", Quoted.quoteOption s.output.heading)]),
      ("strict", flagWord s.isStrict)]

end Settings

/-- What is wrong with settings. -/
inductive SettingsError where
  /-- The settings file asked for is not there. -/
  | notFound (path : String)
  /-- The settings file or a variable cannot be understood. -/
  | unreadable
  /-- A setting has a value that makes no sense. -/
  | invalid (key reason : String)
  /-- A number is too large for a settings file. -/
  | unwritable
  deriving DecidableEq, Repr, Inhabited

/-- The text of a settings error. -/
def SettingsError.message : SettingsError → String
  | .notFound path => "config file not found: " ++ path
  | .unreadable => "invalid configuration"
  | .invalid key reason => s!"invalid value for `{key}`: {reason}"
  | .unwritable => "could not render configuration: out-of-range value for u64 type"

namespace Settings

/-- Whether a text is a URL of the web. -/
def isWebUrl (s : String) : Bool := Word.startsWith "https://" s || Word.startsWith "http://" s

/-- Whether a text has nothing but white space. -/
def isBlank (s : String) : Bool := (Word.trim s).isEmpty

/-- The key and the complaint of a text that has to be a URL of the web. -/
def urlFault? (key : String) (s : String) : Option (String × String) :=
  if isWebUrl s then none else some (key, s!"'{s}' is not an http(s) URL")

/-- The first setting whose value makes no sense, and why. -/
def fault? (s : Settings) : Option (String × String) :=
  if s.fetch.retries = 0 then some ("fetch.retries", "at least one attempt is required")
  else if s.fetch.timeoutSeconds = 0 then some ("fetch.timeout_seconds", "must be greater than zero")
  else
    (s.fetch.proxyUrl.bind (urlFault? "fetch.proxy_url")) <|>
    urlFault? "entry.host" s.entry.host <|>
    (if isBlank s.entry.branch then some ("entry.default_branch", "must not be empty")
    else if s.entry.locations.isEmpty then
      some ("entry.locations", "at least one location is required")
    else
      match s.entry.locations.find? isBlank with
      | some location => some ("entry.locations", s!"'{location}' is not a path")
      | none =>
        if s.output.maxChars = 0 then some ("output.max_chars", "must be greater than zero") else none)

/-- Settings whose values make sense, or what is wrong. -/
def check (s : Settings) : Except SettingsError Settings :=
  match s.fault? with
  | none => .ok s
  | some (key, reason) => .error (.invalid key reason)

end Settings

end Graft
