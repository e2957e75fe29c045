import Graft.Text.Basic

/-!
# Trees of values

A tree is what settings are before their meaning is known: scalars, lists, and tables of entries whose
keys are all different. Trees are laid over each other: where both are tables the upper one sets its
keys and keeps the others, and in all other cases it replaces what lies below.
-/

namespace Graft

/-- A value whose meaning is not known yet. -/
inductive Tree where
  /-- An explicit nothing. -/
  | empty
  | flag (b : Bool)
  | integer (n : Int)
  /-- A number that is not written as a whole one. No setting has such a value, so which number it is
  does not matter. -/
  | decimal
  | text (s : String)
  | list (items : List Tree)
  | table (entries : List (String × Tree))
  deriving Repr, Inhabited

namespace Tree

/-- Whether a whole number fits in 64 bits with a sign. -/
def isWord (n : Int) : Bool := -9223372036854775808 ≤ n && n < 9223372036854775808

/-- The entries of a table. -/
abbrev Entries := List (String × Tree)

/-- Entries with the value of one key set: in its place if the key is there, else at the end. -/
def put (key : String) (value : Tree) (entries : Entries) : Entries :=
  if (entries.lookup key).isSome then entries.map fun e => if e.1 = key then (key, value) else e
  else entries ++ [(key, value)]

mutual

/-- A tree laid over another one. -/
def cover : (upper lower : Tree) → Tree
  | .table upper, .table lower => .table (coverEntries upper lower)
  | upper, _ => upper

/-- The entries of a table laid over those of another one. -/
def coverEntries : (upper lower : Entries) → Entries
  | [], lower => lower
  | (key, value) :: upper, lower =>
    let value :=
      match lower.lookup key with
      | some below => cover value below
      | none => value
    coverEntries upper (put key value lower)

end

/-- A value under a path of keys, in tables that have nothing else. -/
def nest (path : List String) (value : Tree) : Tree :=
  path.foldr (fun key inner => .table [(key, inner)]) value

/-- Trees laid over each other, the lowest first. -/
def stack (layers : List Tree) : Tree :=
  layers.foldl (fun lower upper => cover upper lower) (.table [])

end Tree

end Graft
