import Graft.Member

/-!
# Renamings

A renaming says which member stands for a declaration of a file. The table lists them in the order
in which they were made and holds each pair of file and name at most once.
-/

namespace Graft

/-- The declaration `name` of the file at `source` is the member `member`. -/
structure Renaming where
  source : String
  name : String
  member : String
  deriving DecidableEq, Repr, Inhabited

namespace Renaming

/-- The renaming of a declaration under its generated name. -/
def of (source name : String) : Renaming := ⟨source, name, Member.inlinedName source name⟩

/-- The renaming of `name` declared in `source`, if the table has one. -/
def find? (table : List Renaming) (source name : String) : Option Renaming :=
  List.find? (fun r => r.source = source && r.name = name) table

/-- The table with one more renaming, or `none` if its pair is there already. -/
def record? (table : List Renaming) (r : Renaming) : Option (List Renaming) :=
  if (find? table r.source r.name).isSome then none else some (table ++ [r])

/-- The newest renaming of `name` that another file than `source` declares. -/
def newestElsewhere? (table : List Renaming) (source name : String) : Option Renaming :=
  List.find? (fun r => r.name = name && r.source ≠ source) table.reverse

end Renaming

end Graft
