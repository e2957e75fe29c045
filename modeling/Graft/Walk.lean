import Graft.Draft
import Graft.Fetch
import Graft.Import.Statement

/-!
# Walking the import graph

The walk starts at the entry and goes depth first: each imported file is fetched once, all its
declarations are put into the object, and its own imports come before the next import of the file
that imports it. It is a machine: a state, and one step that either takes the next import of the file
on top of the stack or drops that file. `Walk.run` makes a given number of steps at most.
-/

namespace Graft

/-- Why inlining was given up. -/
inductive InlineError where
  /-- The entry's object has no closing brace to put members before. -/
  | missingClosingBrace (url : String)
  /-- An import could not be fetched, and none may be left out. -/
  | importUnavailable (url importer : String) (cause : Option FetchError)
  deriving DecidableEq, Repr, Inhabited

/-- The text of an inline error. -/
def InlineError.message : InlineError → String
  | .missingClosingBrace url =>
    s!"code block from {url} has no closing brace to insert inlined functions before"
  | .importUnavailable url importer _ => s!"could not fetch {url} (imported from {importer})"

/-- Why an import was passed over. -/
inductive SkipReason where
  /-- The file was put in before, or it is the entry. -/
  | alreadyInlined
  /-- Every attempt to fetch the file failed. -/
  | fetchFailed
  deriving DecidableEq, Repr, Inhabited

/-- The name of a reason in the log. -/
def SkipReason.name : SkipReason → String
  | .alreadyInlined => "AlreadyInlined"
  | .fetchFailed => "FetchFailed"

/-- An import that was passed over. -/
structure Skipped where
  url : String
  importer : String
  reason : SkipReason
  deriving DecidableEq, Repr, Inhabited

/-- What a finished walk gives. -/
structure Output where
  /-- The object with all members. -/
  code : Text
  /-- The renamings, in the order in which they were made. -/
  renamings : List Renaming
  /-- The imports that were passed over, in order. -/
  skipped : List Skipped
  deriving DecidableEq, Repr, Inhabited

/-- How to fetch imports, and whether each of them must be there. -/
structure InlineOptions where
  fetch : FetchOptions := {}
  /-- Whether an import that cannot be fetched ends the walk. -/
  isStrict : Bool := false
  deriving DecidableEq, Repr, Inhabited

/-- The fetch options of a walk: a strict walk keeps those it was given, any other one is graceful. -/
def InlineOptions.fetchOptions (o : InlineOptions) : FetchOptions :=
  if o.isStrict then o.fetch else o.fetch.gracefully

namespace Walk

/-- A file whose imports are not all taken yet. -/
structure Pending where
  url : String
  imports : List Import
  deriving DecidableEq, Repr, Inhabited

/-- Where a walk stands. -/
structure State (σ : Type) where
  draft : Draft
  scopes : Scopes
  /-- The entry and the files that were fetched, newest first. -/
  visited : List String
  /-- The files that could not be fetched, newest first. -/
  failed : List String
  /-- The imports passed over so far, in order. -/
  skipped : List Skipped
  /-- The open files, the current one first. -/
  stack : List Pending
  /-- The fetcher's state. -/
  source : σ
  /-- What happened so far, in order. -/
  log : List Event

/-- How a walk ends: with the object, or with an error. -/
abbrev Ending := Except InlineError Output

/-- A step leads to another state or ends the walk. -/
inductive Step (σ : Type) where
  | continues (state : State σ)
  | ends (ending : Ending) (source : σ) (log : List Event)

namespace State

variable {σ : Type}

/-- The output of a walk that ends in this state. -/
def output (s : State σ) : Output := ⟨s.draft.buffer.text, s.draft.renamings, s.skipped⟩

/-- Passes over an import that was taken before. -/
def skip (s : State σ) (importer url : String) : State σ :=
  let reason := if s.failed.contains url then SkipReason.fetchFailed else .alreadyInlined
  { s with
    skipped := s.skipped ++ [⟨url, importer, reason⟩]
    log := s.log ++ [⟨.info, .inlining, "skipping import",
      [("url", .shown url), ("importer", .shown importer), ("reason", .shown reason.name)]⟩] }

/-- Passes over an import that cannot be fetched. -/
def fail (s : State σ) (importer url : String) : State σ :=
  { s with
    failed := url :: s.failed
    skipped := s.skipped ++ [⟨url, importer, .fetchFailed⟩]
    log := s.log ++ [⟨.warn, .inlining, "import could not be fetched, skipping its subtree",
      [("url", .shown url), ("importer", .shown importer)]⟩] }

/-- Puts in the declarations of a fetched file and opens the file. -/
def enter (s : State σ) (importer url : String) (text : Text) : Step σ :=
  let attempts := Declaration.attempts text
  let declarations := Declaration.byName (attempts.filterMap Declaration.Attempt.declaration?)
  let noDeclarations : List Event :=
    if declarations.isEmpty then [⟨.debug, .inlining, "no declarations found", [("url", .shown url)]⟩]
    else []
  let imports := Import.all text url
  let scopes := s.scopes.record url imports
  let done := s.draft.inlineFile scopes url declarations
  let log := s.log ++ attempts.map Declaration.Attempt.event ++ noDeclarations ++ done.events
  match done.result? with
  -- The brace was looked for before the first step, and no edit takes it away, so that no walk comes here.
  | none => .ends (.error (.missingClosingBrace s.draft.buffer.origin)) s.source log
  | some count =>
    .continues { s with
      draft := done.draft
      scopes := scopes
      visited := url :: s.visited
      stack := ⟨url, imports⟩ :: s.stack
      log := log ++ [⟨.info, .inlining, "inlined file",
        [("url", .shown url), ("importer", .shown importer), ("count", .count count)]⟩] }

/-- Takes one import of the file `importer`. -/
def take (fetcher : Fetcher σ) (options : InlineOptions) (s : State σ) (importer url : String) :
    Step σ :=
  if s.visited.contains url || s.failed.contains url then .continues (s.skip importer url)
  else
    let fetched := Fetch.run fetcher options.fetchOptions s.source url
    let s := { s with source := fetched.state, log := s.log ++ fetched.events }
    match fetched.result with
    | .error e => .ends (.error (.importUnavailable url importer (some e))) s.source s.log
    | .ok none => .continues (s.fail importer url)
    | .ok (some text) => s.enter importer url text

/-- Ends a walk with nothing left to do. -/
def finish (s : State σ) (entry : String) : Step σ :=
  .ends (.ok s.output) s.source (s.log ++ [⟨.info, .inlining, "inlining complete",
    [("url", .shown entry), ("translations", .count s.draft.renamings.length),
      ("skipped", .count s.skipped.length)]⟩])

/-- One step of the walk from the entry at `entry`. -/
def step (fetcher : Fetcher σ) (options : InlineOptions) (entry : String) (s : State σ) : Step σ :=
  match s.stack with
  | [] => s.finish entry
  | file :: stack =>
    match file.imports with
    | [] => .continues { s with stack := stack }
    | i :: imports => { s with stack := ⟨file.url, imports⟩ :: stack }.take fetcher options file.url i.url

end State

/-- The state in which a walk starts. -/
def start {σ : Type} (content : Text) (entry : String) (source : σ) : State σ :=
  let imports := Import.all content entry
  { draft := ⟨Buffer.ofText (Import.objectBody content) entry, []⟩
    scopes := Scopes.record [] entry imports
    visited := [entry]
    failed := []
    skipped := []
    stack := [⟨entry, imports⟩]
    source := source
    log := [] }

/-- A finished walk: how it ended, the fetcher's state after it, and what happened. -/
structure Result (σ : Type) where
  /-- `none` for an entry without content. -/
  ending : Except InlineError (Option Output)
  source : σ
  log : List Event

/-- Makes up to `steps` steps from a state; `none` if that does not end the walk. -/
def run? {σ : Type} (fetcher : Fetcher σ) (options : InlineOptions) (entry : String) :
    (steps : Nat) → State σ → Option (Result σ)
  | 0, _ => none
  | steps + 1, s =>
    match s.step fetcher options entry with
    | .ends ending source log => some ⟨ending.map some, source, log⟩
    | .continues s => run? fetcher options entry steps s

/-- Whether an entry's text has nothing but white space. -/
def isBlank (content : Text) : Bool := (Text.trim content).isEmpty

/-- Inlines everything that the entry at `entry` imports, directly or through others, in up to
`steps` steps. An entry that imports something needs a closing brace before anything is fetched. -/
def inline? {σ : Type} (fetcher : Fetcher σ) (options : InlineOptions) (steps : Nat)
    (content : Option Text) (entry : String) (source : σ) : Option (Result σ) :=
  match content.filter fun t => !isBlank t with
  | none => some ⟨.ok none, source, [⟨.warn, .inlining, "entry has no content, nothing to inline",
      [("url", .shown entry)]⟩]⟩
  | some content =>
    let s := start content entry source
    if s.stack.any (fun file => !file.imports.isEmpty) && s.draft.buffer.lastBrace?.isNone then
      some ⟨.error (.missingClosingBrace entry), source, []⟩
    else run? fetcher options entry steps s

/-- Steps enough for a walk over these texts: one for each import of each of them, one to leave it, and
one to end. A text has fewer imports than characters. -/
def stepsFor (texts : List Text) : Nat := texts.foldr (fun t steps => t.length + 1 + steps) 1

end Walk

end Graft
