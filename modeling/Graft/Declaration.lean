import Graft.Text.Basic

/-!
# Declarations

A declaration is a function or an arrow function cut out of a file: its name, its text without
`export`, its markers, its parameters and its body. The body of a function with braces is what
follows the opening brace; that of an arrow function without braces is its expression.
-/

namespace Graft

/-- The body of a declaration. -/
inductive Body where
  /-- Everything after the opening brace, through the closing one. -/
  | block (text : Text)
  /-- The expression of an arrow function without braces, without a semicolon at its end. -/
  | expression (text : Text)
  deriving DecidableEq, Repr, Inhabited

/-- A function or arrow function cut out of a file. -/
structure Declaration where
  name : String
  /-- The text from the declaring keyword to the end of the body. -/
  text : Text
  isAsync : Bool
  isGenerator : Bool
  /-- The text between the parentheses of the parameter list, or the one bare parameter. -/
  parameters : Text
  body : Body
  deriving DecidableEq, Repr, Inhabited

namespace Declaration

/-- The declarations of a file by name, with one more: a later one of the same name takes the place
of the earlier one. -/
def insert (d : Declaration) (ds : List Declaration) : List Declaration :=
  if ds.any fun e => e.name = d.name then ds.map fun e => if e.name = d.name then d else e
  else ds ++ [d]

/-- The declarations of a file by name: each name at the place where it first occurs, with the last
declaration of that name. -/
def byName (ds : List Declaration) : List Declaration :=
  ds.foldl (fun acc d => insert d acc) []

end Declaration

end Graft
