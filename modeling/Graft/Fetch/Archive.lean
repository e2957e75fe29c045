import Graft.Fetch

/-!
# An archive of files

A fetcher that has all its files at hand. Some URLs can be told never to answer, or to fail a number
of times first; every request is remembered.
-/

namespace Graft

/-- Files by URL, what is to go wrong, and what was asked so far. -/
structure Archive where
  /-- The text behind each URL. -/
  files : List (String × Text)
  /-- The URLs that never answer. -/
  silent : List String := []
  /-- How often a request of a URL is still going to fail. -/
  failures : List (String × Nat) := []
  /-- Every URL requested, in order. -/
  requests : List String := []
  deriving DecidableEq, Repr, Inhabited

namespace Archive

/-- The text behind a URL. -/
def find? (a : Archive) (url : String) : Option Text :=
  (a.files.find? fun f => f.1 = url).map Prod.snd

/-- How often a request of a URL is still going to fail. -/
def remaining (a : Archive) (url : String) : Nat :=
  match a.failures.find? fun f => f.1 = url with
  | some (_, n) => n
  | none => 0

/-- How often a URL was requested. -/
def requestCount (a : Archive) (url : String) : Nat := a.requests.count url

/-- The archive with one failure of a URL used up. -/
def useFailure (a : Archive) (url : String) : Archive :=
  { a with failures := a.failures.map fun f => if f.1 = url then (f.1, f.2 - 1) else f }

/-- Answers one request: silence comes before failure, and failure before text. -/
def fetch : Fetcher Archive := fun a url =>
  let a := { a with requests := a.requests ++ [url] }
  if a.silent.contains url then ⟨.silent, a, []⟩
  else if 0 < a.remaining url then
    ⟨.refused (.network url "injected failure"), a.useFailure url, []⟩
  else
    match a.find? url with
    | some t => ⟨.text t, a, []⟩
    | none => ⟨.refused (.notFound url), a, []⟩

end Archive

/-- A fetcher without a network: every request fails before it is sent. -/
def Fetcher.offline (proxied : Bool) : Fetcher Unit := fun _ url =>
  ⟨.refused (.network url "builder error"), (),
    [⟨.debug, .network, "GET", [("url", .quoted url), ("proxied", .flag proxied)]⟩]⟩

end Graft
