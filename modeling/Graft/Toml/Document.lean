import Graft.Toml.Value

/-!
# Settings files

A settings file is a sequence of expressions, one to a line: headers of tables, headers of repeated
tables, and assignments. `Toml.expressions?` reads them and `Toml.tree?` puts the values in their
tables. A byte order mark at the start does not count.
-/

namespace Graft.Toml

/-- An expression of a settings file. -/
inductive Expression where
  /-- `path = value`, in the table of the last header. -/
  | assignment (path : List String) (value : Tree)
  /-- The header `[path]`. -/
  | table (path : List String)
  /-- The header `[[path]]`. -/
  | row (path : List String)
  deriving Repr, Inhabited

/-- What follows the end of a line: blanks and a comment before it do not count. -/
def afterLine? (text : Text) : Option Text :=
  let rest :=
    match skipBlanks text with
    | '#' :: comment => comment.dropWhile isPlain
    | rest => rest
  if rest.isEmpty then some [] else lineEnd? rest

/-- The expression at the start of a line, if there is one, and what follows it. -/
def expression? (line : Text) : Option (Option Expression × Text) :=
  match skipBlanks line with
  | [] => some (none, [])
  | '[' :: '[' :: rest => do
    let (path, rest) ← path? rest
    return (some (.row path), ← Text.follow? "]]" rest)
  | '[' :: rest => do
    let (path, rest) ← path? rest
    return (some (.table path), ← Text.follow? "]" rest)
  | c :: rest =>
    if c = '#' || Alphabet.isLineBreak c then some (none, c :: rest)
    else do
      let (path, rest) ← path? (c :: rest)
      let rest ← Text.follow? "=" rest
      let (value, rest) ← value? (skipBlanks rest)
      return (some (.assignment path value), rest)

/-- The expressions of a text of at most `fuel` lines. -/
def expressionsWithin? : (fuel : Nat) → Text → Option (List Expression)
  | _, [] => some []
  | 0, _ :: _ => none
  | fuel + 1, text => do
    let (found, rest) ← expression? text
    let more ← expressionsWithin? fuel (← afterLine? rest)
    return found.toList ++ more

/-- A text without a byte order mark at its start. -/
def withoutMark : Text → Text
  | c :: rest => if c.toNat = 0xFEFF then rest else c :: rest
  | [] => []

/-- The expressions of a settings file. -/
def expressions? (text : Text) : Option (List Expression) :=
  expressionsWithin? (withoutMark text).length (withoutMark text)

/-- What is read of a settings file so far. -/
structure Reading where
  /-- The path of the last header. -/
  header : List String
  nodes : Nodes
  deriving Repr, Inhabited

namespace Reading

/-- Opens a table by `change` in the table around it, and makes it the one that assignments go to. -/
def opened? (r : Reading) (change : String → Nodes → Option Nodes) (path : List String) :
    Option Reading := do
  let key ← path.getLast?
  return ⟨path, ← Node.within? (change key) path.dropLast r.nodes⟩

/-- The reading after one more expression. -/
def add? (r : Reading) : Expression → Option Reading
  | .assignment path value =>
    (Node.within? (Node.assignPath? path value) r.header r.nodes).map fun nodes => { r with nodes }
  | .table path => r.opened? Node.openTable? path
  | .row path => r.opened? Node.openRow? path

end Reading

/-- The table that a settings file writes. -/
def tree? (text : Text) : Option Tree := do
  let found ← (← expressions? text).foldlM Reading.add? ⟨[], []⟩
  return .table (Node.trees found.nodes)

end Graft.Toml
