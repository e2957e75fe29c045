import Graft.Buffer
import Graft.Declaration.Extract
import Graft.Renaming
import Graft.Scope

/-!
# Putting declarations into the object

A draft is the buffer with the table of renamings made so far. Putting a declaration in renders it
under its generated name, records the renaming and redirects the uses of all known names. A use is
resolved in the file it comes from: the file's own declarations first, then its imports, then the
newest renaming of that name. While a file is put in, all its declarations are known from the start.
-/

namespace Graft

/-- The growing object and the renamings made so far. -/
structure Draft where
  buffer : Buffer
  renamings : List Renaming
  deriving DecidableEq, Repr, Inhabited

namespace Draft

/-- The renaming that a free use of `name` in the file `scope` stands for. A name that the file
imports stands for nothing until the file that it comes from is put in. -/
def resolve? (renamings : List Renaming) (scopes : Scopes) (planned : List Renaming)
    (scope name : String) : Option Renaming :=
  match Renaming.find? planned scope name <|> Renaming.find? renamings scope name with
  | some own => some own
  | none =>
    match scopes.sourceOf? scope name with
    | some (source, declared) => Renaming.find? renamings source declared
    | none => Renaming.newestElsewhere? renamings scope name

/-- An ascending list without repetition, with one more name. -/
def insertName (name : String) : List String → List String
  | [] => [name]
  | n :: names =>
    if name = n then n :: names
    else if name < n then name :: n :: names
    else n :: insertName name names

/-- The names that uses are redirected for, ascending: those of renamings made or planned and the
local names of all imports. -/
def candidateNames (renamings : List Renaming) (scopes : Scopes) (planned : List Renaming) :
    List String :=
  ((renamings ++ planned).map Renaming.name ++ scopes.map Binding.name).foldr insertName []

/-- What a use of `name` in the file `scope` is replaced by: the member, reached through `this`. -/
def target? (renamings : List Renaming) (scopes : Scopes) (planned : List Renaming)
    (name scope : String) : Option String :=
  (resolve? renamings scopes planned scope name).map fun r => "this." ++ r.member

/-- Redirects one name in a buffer, with an event if that changed anything. -/
def redirectName (renamings : List Renaming) (scopes : Scopes) (planned : List Renaming)
    (done : Buffer × List Event) (name : String) : Buffer × List Event :=
  let (buffer, count) := done.1.redirect name (target? renamings scopes planned name)
  let events :=
    if 0 < count then
      [⟨.debug, .inlining, "rewrote call sites", [("name", .quoted name), ("count", .count count)]⟩]
    else []
  (buffer, done.2 ++ events)

/-- Redirects the uses of all known names, one name after the other. -/
def redirectAll (buffer : Buffer) (renamings : List Renaming) (scopes : Scopes)
    (planned : List Renaming) : Buffer × List Event :=
  (candidateNames renamings scopes planned).foldl (redirectName renamings scopes planned) (buffer, [])

/-- A draft after an attempt to change it: what the attempt says, and the events. The result is
missing when the buffer has no closing brace. -/
structure Step (α : Type) where
  draft : Draft
  events : List Event
  result? : Option α
  deriving Repr

/-- Puts in one declaration of the file `source`, unless its renaming is recorded already, and says
whether it was put in. `planned` are the renamings that the same file is about to make. -/
def inlinePlanned (draft : Draft) (scopes : Scopes) (planned : List Renaming) (source : String)
    (d : Declaration) : Step Bool :=
  if (Renaming.find? draft.renamings source d.name).isSome then
    ⟨draft, [⟨.debug, .inlining, "already inlined, skipping",
      [("name", .shown d.name), ("source_url", .quoted source)]⟩], some false⟩
  else
    let made := Renaming.of source d.name
    match draft.buffer.insert? (Member.render d made.member) source with
    | none => ⟨draft, [], none⟩
    | some buffer =>
      let renamings := draft.renamings ++ [made]
      -- The uses of all names are redirected again, since the new member brings uses of its own.
      let (buffer, events) := redirectAll buffer renamings scopes planned
      ⟨⟨buffer, renamings⟩, ⟨.debug, .inlining, "inlined declaration",
        [("name", .shown made.name), ("new_name", .shown made.member),
          ("source_url", .quoted source)]⟩ :: events, some true⟩

/-- Puts in one declaration by itself. -/
def inlineDeclaration (draft : Draft) (scopes : Scopes) (source : String) (d : Declaration) :
    Step Bool :=
  draft.inlinePlanned scopes [] source d

/-- Puts in declarations one after the other and counts those that were not there before. -/
def inlineEach (scopes : Scopes) (planned : List Renaming) (source : String) :
    Draft → List Declaration → Step Nat
  | draft, [] => ⟨draft, [], some 0⟩
  | draft, d :: ds =>
    let first := draft.inlinePlanned scopes planned source d
    match first.result? with
    | none => ⟨first.draft, first.events, none⟩
    | some isNew =>
      let others := inlineEach scopes planned source first.draft ds
      ⟨others.draft, first.events ++ others.events,
        others.result?.map fun n => if isNew then n + 1 else n⟩

/-- Puts in all declarations of the file `source`, in order, and counts the new ones. -/
def inlineFile (draft : Draft) (scopes : Scopes) (source : String) (ds : List Declaration) : Step Nat :=
  inlineEach scopes (ds.map fun d => Renaming.of source d.name) source draft ds

end Draft

end Graft
