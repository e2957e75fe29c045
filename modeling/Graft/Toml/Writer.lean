import Graft.Text.Hex
import Graft.Tree

/-!
# Writing a settings file

A string is written between the plainest marks that can hold it: basic if nothing in it needs an escape,
else literal, else one of these two over several lines, else basic with escapes. A table is written as
its plain entries followed by its tables, each under a header and after a blank line; a list of more
than one value has a line for each.
-/

namespace Graft.Toml

/-- How a string is written. -/
inductive Style where
  /-- Between `"`, with escapes. -/
  | basic
  /-- Between `'`, as it is. -/
  | literal
  /-- Between three `"`, with escapes. -/
  | multiBasic
  /-- Between three `'`, as it is. -/
  | multiLiteral
  deriving DecidableEq, Repr, Inhabited

namespace Style

/-- The longest run of a mark in a text, where a run of length `run` stands before the text. -/
def longestRunFrom (mark : Char) : (run : Nat) → Text → Nat
  | run, [] => run
  | run, c :: rest =>
    if c = mark then longestRunFrom mark (run + 1) rest else max run (longestRunFrom mark 0 rest)

/-- The longest run of a mark in a text. -/
def longestRun (mark : Char) (t : Text) : Nat := longestRunFrom mark 0 t

/-- A control character that no style holds as it is; a tab and a line feed are none. -/
def isCode (c : Char) : Bool := (c.toNat < 0x20 && c ≠ '\t' && c ≠ '\n') || c.toNat = 0x7F

/-- The style of a string. -/
def of (t : Text) : Style :=
  let hasCode := t.any isCode
  let hasBackslash := t.contains '\\'
  let hasLine := t.contains '\n'
  if !hasCode && !hasBackslash && !hasLine && !t.contains '"' then .basic
  else if !hasCode && !hasLine && !t.contains '\'' then .literal
  else if !hasCode && !hasBackslash && longestRun '"' t ≤ 2 then .multiBasic
  else if !hasCode && longestRun '\'' t ≤ 2 then .multiLiteral
  else if hasLine then .multiBasic
  else .basic

end Style

/-- The escape of a character by itself, if it has one in a basic string; a line feed has one only in
a string on one line. -/
def escape? (isMulti : Bool) (c : Char) : Option Text :=
  if c = '\\' then some ['\\', '\\']
  else if c = '\t' then some ['\\', 't']
  else if c = '\r' then some ['\\', 'r']
  else if c = '\n' then (if isMulti then none else some ['\\', 'n'])
  else if c.toNat = 8 then some ['\\', 'b']
  else if c.toNat = 12 then some ['\\', 'f']
  else if c.toNat < 0x20 || c.toNat = 0x7F then some ('\\' :: 'u' :: Hex.upper 4 c.toNat)
  else none

/-- A text as a basic string holds it, after `run` quotation marks without escapes. On one line each
quotation mark is escaped, and on several lines each third one of a run. -/
def escaped (isMulti : Bool) : (run : Nat) → Text → Text
  | _, [] => []
  | run, c :: rest =>
    if c = '"' then
      if run < (if isMulti then 2 else 0) then c :: escaped isMulti (run + 1) rest
      else '\\' :: '"' :: escaped isMulti 0 rest
    else
      match escape? isMulti c with
      | some e => e ++ escaped isMulti 0 rest
      | none => c :: escaped isMulti 0 rest

/-- A string on several lines between marks: one that has a line end starts on a line of its own. -/
def multi (marks : Text) (t inside : Text) : Text :=
  marks ++ (if t.contains '\n' then ['\n'] else []) ++ inside ++ marks

/-- A string as it is written. -/
def string (t : Text) : Text :=
  match Style.of t with
  | .basic => '"' :: escaped false 0 t ++ ['"']
  | .literal => '\'' :: t ++ ['\'']
  | .multiBasic => multi ['"', '"', '"'] t (escaped true 0 t)
  | .multiLiteral => multi ['\'', '\'', '\''] t t

/-- A value in a line, if it can be written: a whole number must fit in 64 bits with a sign. -/
def spell? : Tree → Option Text
  | .flag true => some "true".toList
  | .flag false => some "false".toList
  | .integer n => if Tree.isWord n then some (toString n).toList else none
  | .text s => some (string s.toList)
  | _ => none

/-- A list as it is written: its values on lines of their own if there is more than one. -/
def list (items : List Text) : Text :=
  match items with
  | [] => ['[', ']']
  | [item] => '[' :: item ++ [']']
  | items => '[' :: '\n' :: items.flatMap (fun item => "    ".toList ++ item ++ [',', '\n']) ++ [']']

/-- The value of an entry, if it is a scalar or a list of scalars. -/
def plain? : Tree → Option Text
  | .list items => (items.mapM spell?).map list
  | t => spell? t

/-- The line of an entry that is no table. -/
def line? (entry : String × Tree) : Option Text := do
  return entry.1.toList ++ " = ".toList ++ (← plain? entry.2) ++ ['\n']

/-- The lines of entries that are no tables. -/
def lines? (entries : Tree.Entries) : Option Text := do
  return (← entries.mapM line?).flatten

/-- The section of a table: a blank line, its header and its lines. -/
def section? (key : String) (entries : Tree.Entries) : Option Text := do
  return ['\n', '['] ++ key.toList ++ [']', '\n'] ++ (← lines? entries)

/-- The table of an entry, with its key. -/
def table? : String × Tree → Option (String × Tree.Entries)
  | (key, .table entries) => some (key, entries)
  | _ => none

/-- The settings file of a table that has plain entries and tables of plain entries: the plain ones
first. -/
def write? (entries : Tree.Entries) : Option Text := do
  let plain ← lines? (entries.filter fun e => (table? e).isNone)
  let sections ← (entries.filterMap table?).mapM fun (key, inner) => section? key inner
  return plain ++ sections.flatten

end Graft.Toml
