import Graft.Duration
import Graft.Log

/-!
# Fetching

A fetcher answers one attempt to get the text behind a URL; it may keep a state from one attempt to
the next. `Fetch.run` makes attempts until one gives text that is not empty, or all are used up. What
happens then is up to the caller: a graceful fetch gives no text, any other one an error that tells
the last cause.
-/

namespace Graft

/-- Why text could not be fetched. -/
inductive FetchError where
  /-- The connection failed. -/
  | network (url reason : String)
  /-- The answer had a status other than success. -/
  | status (url : String) (code : Nat)
  /-- No answer came within the time allowed. -/
  | timeout (url : String) (allowed : Duration)
  /-- The answer was empty. -/
  | empty (url : String)
  /-- Nothing is known about the URL. -/
  | notFound (url : String)
  /-- All attempts failed; the last one in this way. -/
  | exhausted (url : String) (attempts : Nat) (last : FetchError)
  deriving DecidableEq, Repr, Inhabited

/-- The text of a fetch error. -/
def FetchError.message : FetchError → String
  | .network url reason => s!"request to {url} failed: {reason}"
  | .status url code => s!"request to {url} returned status {code}"
  | .timeout url allowed => s!"request to {url} timed out after {allowed.inSeconds 1}s"
  | .empty url => s!"request to {url} returned no content"
  | .notFound url => s!"no source registered for {url}"
  | .exhausted url attempts last =>
    s!"giving up on {url} after {attempts} attempt(s): {last.message}"

/-- What one attempt comes to. -/
inductive Reply where
  /-- The text behind the URL, which may be empty. -/
  | text (t : Text)
  /-- A failure. -/
  | refused (e : FetchError)
  /-- No answer at all. -/
  | silent
  deriving DecidableEq, Repr, Inhabited

/-- One attempt: what it comes to, the state after it, and its events. -/
structure Attempted (σ : Type) where
  reply : Reply
  state : σ
  events : List Event := []
  deriving Repr

/-- A fetcher makes one attempt at a time, and may remember what was asked. -/
abbrev Fetcher (σ : Type) := σ → String → Attempted σ

/-- How often to try, how long to wait, and what to do when nothing helps. -/
structure FetchOptions where
  /-- The number of attempts; there is always at least one. -/
  retries : Nat := 2
  /-- The time allowed for one attempt. -/
  allowed : Duration := Duration.ofSeconds 30
  /-- Whether to give no text, in place of an error, when every attempt fails. -/
  graceful : Bool := false
  deriving DecidableEq, Repr, Inhabited

/-- The same options, giving no text when every attempt fails. -/
def FetchOptions.gracefully (o : FetchOptions) : FetchOptions := { o with graceful := true }

/-- The number of attempts that the options allow. -/
def FetchOptions.attempts (o : FetchOptions) : Nat := max o.retries 1

/-- A finished fetch: the text, if there is one, or the error; the state after it; the events. -/
structure Fetched (σ : Type) where
  result : Except FetchError (Option Text)
  state : σ
  events : List Event

namespace Fetch

/-- What an attempt at `url` comes to once emptiness and silence count as failures. -/
def judge (options : FetchOptions) (url : String) : Reply → Except FetchError Text
  | .text [] => .error (.empty url)
  | .text t => .ok t
  | .refused e => .error e
  | .silent => .error (.timeout url options.allowed)

/-- The event of a failed attempt. -/
def failure (options : FetchOptions) (url : String) (attempt : Nat) (e : FetchError) : Event :=
  if options.graceful then
    ⟨.info, .fetching, "fetch attempt failed, moving on",
      [("url", .quoted url), ("attempt", .count attempt), ("error", .shown e.message)]⟩
  else
    ⟨.warn, .fetching, "fetch attempt failed",
      [("url", .quoted url), ("attempt", .count attempt), ("attempts", .count options.attempts),
        ("error", .shown e.message)]⟩

/-- Makes up to `left` more attempts, the first of them numbered `attempt`, after one that failed with
`last`. -/
def tryFrom {σ : Type} (fetcher : Fetcher σ) (options : FetchOptions) (url : String) :
    (left attempt : Nat) → (last : FetchError) → σ → Fetched σ
  | 0, _, last, state =>
    ⟨if options.graceful then .ok none else .error (.exhausted url options.attempts last), state, []⟩
  | left + 1, attempt, _, state =>
    let made := fetcher state url
    match judge options url made.reply with
    | .ok t => ⟨.ok (some t), made.state, made.events⟩
    | .error e =>
      let others := tryFrom fetcher options url left (attempt + 1) e made.state
      { others with events := made.events ++ failure options url attempt e :: others.events }

/-- Fetches the text behind `url`. -/
def run {σ : Type} (fetcher : Fetcher σ) (options : FetchOptions) (state : σ) (url : String) :
    Fetched σ :=
  tryFrom fetcher options url options.attempts 1 (.empty url) state

end Fetch

end Graft
