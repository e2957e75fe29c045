import Graft.Text.Hex
import Graft.Walk

/-!
# Reports

A report is an output as JSON, indented by two spaces: the code, the URL of the entry, the imports passed
over, and the renamings. The names of an object are in ascending order.
-/

namespace Graft.Report

/-- A character inside quotation marks. -/
def encodeChar (c : Char) : Text :=
  if c = '"' || c = '\\' then ['\\', c]
  else if c = '\n' then ['\\', 'n']
  else if c = '\r' then ['\\', 'r']
  else if c = '\t' then ['\\', 't']
  else if c.toNat = 8 then ['\\', 'b']
  else if c.toNat = 12 then ['\\', 'f']
  else if c.toNat < 0x20 then
    let digits := Hex.lower c.toNat
    ['\\', 'u'] ++ List.replicate (4 - digits.length) '0' ++ digits
  else [c]

/-- A text between quotation marks. -/
def text (t : Text) : Text := '"' :: t.flatMap encodeChar ++ ['"']

/-- A string between quotation marks. -/
def string (s : String) : Text := text s.toList

/-- Items between brackets, each on a line of its own; the brackets stand at `indent`. -/
def block (opening closing : Char) (indent : Nat) (items : List Text) : Text :=
  if items.isEmpty then [opening, closing]
  else
    let line (item : Text) := List.replicate (indent + 2) ' ' ++ item
    [opening, '\n'] ++ Text.joinWith [',', '\n'] (items.map line) ++ ['\n'] ++
      List.replicate indent ' ' ++ [closing]

/-- A list. -/
def list (indent : Nat) (items : List Text) : Text := block '[' ']' indent items

/-- An object, whose values may span lines at `indent + 2`. -/
def object (indent : Nat) (members : List (String × Text)) : Text :=
  block '{' '}' indent (members.map fun (name, value) => string name ++ [':', ' '] ++ value)

/-- The word for a reason. -/
def reasonWord : SkipReason → String
  | .alreadyInlined => "already_inlined"
  | .fetchFailed => "fetch_failed"

/-- An import that was passed over. -/
def skipped (indent : Nat) (s : Skipped) : Text :=
  object indent [("importer", string s.importer), ("reason", string (reasonWord s.reason)),
    ("url", string s.url)]

/-- A renaming. -/
def renamed (indent : Nat) (r : Renaming) : Text :=
  object indent [("new_name", string r.member), ("original_name", string r.name),
    ("source_url", string r.source)]

/-- The report of an output, whose entry is at a URL. -/
def print (entry : String) (o : Output) : Text :=
  object 0 [("code", text o.code), ("entry", string entry),
    ("skipped", list 2 (o.skipped.map (skipped 4))),
    ("translations", list 2 (o.renamings.map (renamed 4)))]

end Graft.Report
