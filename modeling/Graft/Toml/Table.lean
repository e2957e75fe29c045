import Graft.Tree

/-!
# Tables of a settings file

A settings file makes its tables piece by piece: by headers, by headers of tables inside them, and by
dotted keys. How a table came about decides what may still be added to it: a header may come after the
headers of tables inside it but not twice, and dotted keys add only to tables that dotted keys made.
-/

namespace Graft.Toml

/-- How a table came about. -/
inductive Making where
  /-- By a header of its own. -/
  | header
  /-- By the header of a table inside it. -/
  | longerHeader
  /-- By a dotted key. -/
  | dottedKey
  deriving DecidableEq, Repr, Inhabited

/-- A part of a file that is being read. -/
inductive Node where
  /-- A finished value. -/
  | value (t : Tree)
  | table (making : Making) (entries : List (String × Node))
  /-- Tables under repeated headers of one name. -/
  | rows (tables : List (List (String × Node)))
  deriving Repr, Inhabited

/-- The entries of a table that is being read. -/
abbrev Nodes := List (String × Node)

namespace Node

mutual

/-- The value of a part. -/
def tree : Node → Tree
  | .value t => t
  | .table _ entries => .table (trees entries)
  | .rows tables => .list (rowTrees tables)

/-- The values of entries. -/
def trees : List (String × Node) → Tree.Entries
  | [] => []
  | (key, node) :: entries => (key, tree node) :: trees entries

/-- The values of repeated tables. -/
def rowTrees : List (List (String × Node)) → List Tree
  | [] => []
  | entries :: tables => .table (trees entries) :: rowTrees tables

end

/-- Entries with the part under one key set: in its place if the key is there, else at the end. -/
def put (key : String) (node : Node) (nodes : Nodes) : Nodes :=
  if (nodes.lookup key).isSome then nodes.map fun e => if e.1 = key then (key, node) else e
  else nodes ++ [(key, node)]

/-- Changes the newest of repeated tables. -/
def inLast? (change : Nodes → Option Nodes) (tables : List Nodes) : Option (List Nodes) :=
  match tables.reverse with
  | last :: before => (change last).map fun last => before.reverse ++ [last]
  | [] => none

/-- Changes the table at the end of a header's path, making the tables on the way. Of repeated tables
the path leads into the newest. -/
def within? (change : Nodes → Option Nodes) : (path : List String) → Nodes → Option Nodes
  | [], nodes => change nodes
  | key :: path, nodes =>
    match nodes.lookup key with
    | none => (within? change path []).map fun inner => put key (.table .longerHeader inner) nodes
    | some (.table making inner) =>
      (within? change path inner).map fun inner => put key (.table making inner) nodes
    | some (.rows tables) =>
      (inLast? (within? change path) tables).map fun tables => put key (.rows tables) nodes
    | some (.value _) => none

/-- Opens the table of a header, in the table around it. -/
def openTable? (key : String) (nodes : Nodes) : Option Nodes :=
  match nodes.lookup key with
  | none => some (put key (.table .header []) nodes)
  | some (.table .longerHeader inner) => some (put key (.table .header inner) nodes)
  | some _ => none

/-- Opens one more of the repeated tables of a header, in the table around them. -/
def openRow? (key : String) (nodes : Nodes) : Option Nodes :=
  match nodes.lookup key with
  | none => some (put key (.rows [[]]) nodes)
  | some (.rows tables) => some (put key (.rows (tables ++ [[]])) nodes)
  | some _ => none

/-- Whether a dotted key may lead through a table, where `isLast` tells that its value goes right into
it. -/
def mayPass (making : Making) (isLast : Bool) : Bool :=
  match making with
  | .header => false
  | .longerHeader => !isLast
  | .dottedKey => true

/-- Sets the value of a dotted key, whose keys before the last one are `path`. -/
def assign? (name : String) (value : Tree) : (path : List String) → Nodes → Option Nodes
  | [], nodes =>
    match nodes.lookup name with
    | none => some (put name (.value value) nodes)
    | some _ => none
  | key :: path, nodes =>
    match nodes.lookup key with
    | none => (assign? name value path []).map fun inner => put key (.table .dottedKey inner) nodes
    | some (.table making inner) =>
      if mayPass making path.isEmpty then
        (assign? name value path inner).map fun inner => put key (.table making inner) nodes
      else none
    | some (.rows tables) =>
      if path.isEmpty then none
      else (inLast? (assign? name value path) tables).map fun tables => put key (.rows tables) nodes
    | some (.value _) => none

/-- Sets the value of a dotted key. -/
def assignPath? (path : List String) (value : Tree) (nodes : Nodes) : Option Nodes :=
  match path.getLast? with
  | some name => assign? name value path.dropLast nodes
  | none => none

end Node

end Graft.Toml
