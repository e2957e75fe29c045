import Graft.Log
import Graft.Text.Basic

/-!
# Log filters

A filter is a comma-separated list of directives: a level for everything, or `name=level` for the
channels whose names start with `name`. Of the directives that speak of a channel the one with the
longest name decides; without one nothing is let through.
-/

namespace Graft.Filter

/-- How much is let through; `none` is nothing at all. -/
abbrev Bound := Option Level

/-- What a filter says of the channels whose names start with `name`. -/
structure Directive where
  name : String
  bound : Bound
  deriving DecidableEq, Repr, Inhabited

/-- The levels by number: nothing, then each more than the last. -/
def bounds : List Bound :=
  [none, some .error, some .warn, some .info, some .debug, some .trace]

/-- The words for levels, in the same order. -/
def words : List String := ["off", "error", "warn", "info", "debug", "trace"]

/-- A level, by its number or by its word in any case. -/
def bound? (t : Text) : Option Bound :=
  let word := String.ofList (t.map Alphabet.lowerLetter)
  (words.zip bounds).lookup word <|>
    ((["0", "1", "2", "3", "4", "5"]).zip bounds).lookup word

/-- A character that a directive may start with. -/
def isFirst (c : Char) : Bool := Alphabet.isAlphanumeric c || c = '-' || c = ':' || c = '_'

/-- What a directive says: `some none` if it speaks of spans, which there are none of. -/
def directive? (t : Text) : Option (Option Directive) :=
  let name := t.takeWhile (· ≠ '=')
  if t.contains '[' then some none
  else if !t.head?.any isFirst then none
  else
    match t.drop name.length with
    -- A word that is no level is a target, for which everything is shown.
    | [] =>
      match bound? name with
      | some bound => some (some ⟨"", bound⟩)
      | none => some (some ⟨String.ofList name, some .trace⟩)
    | [_] => some (some ⟨String.ofList name, some .trace⟩)
    | _ :: level => (bound? level).map fun bound => some ⟨String.ofList name, bound⟩

/-- The directives of a filter; an empty one lets only errors through. -/
def read? (s : String) : Option (List Directive) := do
  let pieces := (Text.splitOn ',' s.toList).filter fun t => !t.isEmpty
  let found ← pieces.mapM directive?
  return if pieces.isEmpty then [⟨"", some .error⟩] else found.filterMap id

/-- The directive that decides about a channel: of those with the longest name the last one. -/
def deciding? (directives : List Directive) (channel : String) : Option Directive :=
  (directives.filter fun d => Word.startsWith d.name channel).foldl
    (fun best d =>
      match best with
      | some b => if d.name.length < b.name.length then some b else some d
      | none => some d)
    none

/-- Whether a filter lets an event through. -/
def admits (directives : List Directive) (e : Event) : Bool :=
  match deciding? directives e.channel.name with
  | some d => d.bound.any fun level => e.level.detail ≤ level.detail
  | none => false

/-- The filter that asking for more log lines stands for. -/
def verbose : String := "splice=debug,splice_config=debug,splice_cli=debug"

/-- The filter that asking for quiet stands for. -/
def quiet : String := "error"

/-- The filter without any wishes. -/
def usual : String := "splice=info,splice_config=info,splice_cli=info"

/-- The filter that a command line asks for; more log lines come before quiet. -/
def asked? (isVerbose isQuiet : Bool) : Option String :=
  if isVerbose then some verbose else if isQuiet then some quiet else none

/-- The directives in force: those asked for, else those of the environment if they can be read, else the
usual ones. -/
def choose (isVerbose isQuiet : Bool) (fromEnvironment : Option String) : List Directive :=
  let chosen :=
    match asked? isVerbose isQuiet with
    | some filter => read? filter
    | none => fromEnvironment.bind read?
  (chosen <|> read? usual).getD []

end Graft.Filter
