import Graft.Import

/-!
# What names mean in a file

A named import binds a local name of the importing file to a name that another file declares:
`import { helper as h } from './a'` binds `h` to `helper` of `a`. The first binding of a local name
in a file is the one that counts.
-/

namespace Graft

/-- In the file `importer`, the name `name` is `declared` of the file at `source`. -/
structure Binding where
  importer : String
  name : String
  source : String
  declared : String
  deriving DecidableEq, Repr, Inhabited

/-- The bindings of all files read so far, in the order in which they were made. -/
abbrev Scopes := List Binding

namespace Scopes

/-- The declared and the local name of an entry of a brace list: one word is both, `a as b` is
`a` declared and `b` local, and anything else binds nothing. -/
def namesOf? (entry : String) : Option (String × String) :=
  match (Text.words entry.toList).map String.ofList with
  | [name] => some (name, name)
  | [declared, keyword, name] => if keyword = "as" then some (declared, name) else none
  | _ => none

/-- The binding of `name` in the file `importer`, if there is one. -/
def find? (scopes : Scopes) (importer name : String) : Option Binding :=
  List.find? (fun b => b.importer = importer && b.name = name) scopes

/-- The bindings with one more, unless the name is bound in that file already. -/
def bind (scopes : Scopes) (b : Binding) : Scopes :=
  if (find? scopes b.importer b.name).isSome then scopes else scopes ++ [b]

/-- The bindings that the imports of a file make, in order. -/
def bindingsOf (importer : String) (imports : List Import) : List Binding :=
  imports.flatMap fun i =>
    i.names.filterMap fun entry =>
      (namesOf? entry).map fun (declared, name) => ⟨importer, name, i.url, declared⟩

/-- The bindings after the imports of the file `importer` are read. -/
def record (scopes : Scopes) (importer : String) (imports : List Import) : Scopes :=
  (bindingsOf importer imports).foldl bind scopes

/-- The file and the declared name behind a local name of the file `importer`. -/
def sourceOf? (scopes : Scopes) (importer name : String) : Option (String × String) :=
  (find? scopes importer name).map fun b => (b.source, b.declared)

end Scopes

end Graft
