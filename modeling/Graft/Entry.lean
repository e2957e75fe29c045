import Graft.Fetch
import Graft.Reference

/-!
# Finding the entry file

A repository's entry is looked for at a list of places on its default branch; a file reference has one
place. The first place that has text is the entry.
-/

namespace Graft

/-- Where and how to look for entry files. -/
structure EntrySettings where
  host : String := "https://github.com"
  branch : String := "main"
  /-- The places to look at, relative to the repository's root, in order. -/
  locations : List String := ["lib/plugin.js", "plugin.js", "index.js"]
  deriving DecidableEq, Repr, Inhabited

/-- Why there is no entry. -/
inductive EntryError where
  /-- None of the places had text. -/
  | notFound (reference : String) (tried : List String)
  /-- The text is no reference. -/
  | invalidReference (text : String)
  /-- A fetch failed that was not to give no text. -/
  | fetch (e : FetchError)
  deriving DecidableEq, Repr, Inhabited

/-- The text of an entry error. -/
def EntryError.message : EntryError → String
  | .notFound reference tried =>
    s!"no entry file found for {reference} (tried {tried.length} location(s))"
  | .invalidReference text => s!"'{text}' is not a repository or file reference"
  | .fetch e => e.message

namespace Entry

/-- Reads a reference, or tells what was wrong with it. -/
def reference (text : String) : Except EntryError Reference :=
  match Reference.read? text with
  | some r => .ok r
  | none => .error (.invalidReference (Word.trim text))

/-- The URL of a file of a repository. -/
def url (settings : EntrySettings) (organization name path : String) : String :=
  let host := String.ofList (Text.trimEndBy (· = '/') settings.host.toList)
  host ++ "/" ++ organization ++ "/" ++ name ++ "/blob/" ++ settings.branch ++ "/" ++ path

/-- A path without slashes at its start. -/
def withoutLeadingSlashes (path : String) : String :=
  String.ofList (path.toList.dropWhile (· = '/'))

/-- The URLs at which the entry of a reference may be, in order; `none` if the reference says too
little. -/
def candidates? (settings : EntrySettings) : Reference → Option (List String)
  | .repository organization name =>
    some (settings.locations.map fun path =>
      url settings organization name (withoutLeadingSlashes path))
  | .file address =>
    -- A URL is taken as it is, whatever its host.
    if (Reference.afterScheme? address.toList).isSome then some [address]
    else
      match Word.splitOn '/' (withoutLeadingSlashes address) with
      | organization :: name :: first :: more =>
        let path := Word.joinWith "/" (first :: more)
        if path.isEmpty then none else some [url settings organization name path]
      | _ => none

/-- The URLs at which the entry of a reference may be, in order. -/
def candidates (settings : EntrySettings) (r : Reference) : Except EntryError (List String) :=
  match candidates? settings r with
  | some urls => .ok urls
  | none => .error (.invalidReference r.display)

/-- A finished search: the entry's URL and text or an error, the fetcher's state, the events. -/
structure Found (σ : Type) where
  result : Except EntryError (String × Text)
  state : σ
  events : List Event

/-- Looks at the places left; `tried` lists all of them. -/
def search {σ : Type} (fetcher : Fetcher σ) (options : FetchOptions) (r : Reference)
    (tried : List String) : List String → σ → Found σ
  | [], state => ⟨.error (.notFound r.display tried), state, []⟩
  | url :: urls, state =>
    let probing : Event := ⟨.debug, .entry, "probing entry candidate", [("url", .shown url)]⟩
    let fetched := Fetch.run fetcher options.gracefully state url
    match fetched.result with
    -- Graceful options make no error of a fetch, so that this never comes up.
    | .error e => ⟨.error (.fetch e), fetched.state, probing :: fetched.events⟩
    | .ok (some text) =>
      ⟨.ok (url, text), fetched.state, probing :: fetched.events ++ [⟨.info, .entry,
        "resolved entry file", [("reference", .shown r.display), ("url", .shown url)]⟩]⟩
    | .ok none =>
      let others := search fetcher options r tried urls fetched.state
      { others with events := probing :: fetched.events ++ others.events }

/-- Finds the entry of a reference: the first of its candidates that has text. -/
def resolve {σ : Type} (fetcher : Fetcher σ) (settings : EntrySettings) (options : FetchOptions)
    (r : Reference) (state : σ) : Found σ :=
  match candidates settings r with
  | .error e => ⟨.error e, state, []⟩
  | .ok urls => search fetcher options r urls urls state

end Entry

end Graft
