import Graft.Declaration
import Graft.Specifier

/-!
# Members

A declaration joins the object as a member under a name of its own: a fixed start, the file name with
everything but ASCII letters, digits and underscores replaced, and the declared name. A block body
makes a method and an expression body makes a property.
-/

namespace Graft.Member

/-- What every generated member name starts with. -/
def nameStart : String := "_inlined_"

/-- A file name's character as a member name holds it. -/
def nameChar (c : Char) : Char := if Alphabet.isAsciiAlphanumeric c || c = '_' then c else '_'

/-- The member name of the declaration `name` of the file at `url`. -/
def inlinedName (url name : String) : String :=
  nameStart ++ String.ofList ((Specifier.lastSegment url).toList.map nameChar) ++ "_" ++ name

/-- A declaration as a member, before it is indented: `async *name(params) {…` for a block and
`name: async (params) => …` for an expression. -/
def spell (d : Declaration) (name : String) : Text :=
  let marker := if d.isAsync then "async ".toList else []
  match d.body with
  | .block text =>
    let star := if d.isGenerator then ['*'] else []
    marker ++ star ++ name.toList ++ ['('] ++ d.parameters ++ [')', ' ', '{'] ++ text
  | .expression text =>
    name.toList ++ [':', ' '] ++ marker ++ ['('] ++ d.parameters ++ ")".toList ++ " => ".toList ++ text

/-- A declaration as a member of the object: indented by two spaces, with a comma at its end, on
lines of its own. -/
def render (d : Declaration) (name : String) : Text :=
  let indented := Text.joinWith ['\n'] ((Text.lines (spell d name)).map fun line => ' ' :: ' ' :: line)
  let member := Text.trim indented
  let comma := if Text.endsWith ',' member then [] else [',']
  ['\n', ' ', ' '] ++ member ++ comma ++ ['\n']

end Graft.Member
