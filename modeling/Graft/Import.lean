import Graft.Specifier
import Graft.Text.Scan

/-!
# Named imports

A named import is `import`, a brace list of names, `from` and a quoted specifier, with white space
between the parts. It is found anywhere in a text; default imports, namespace imports and exports
from elsewhere are not named imports. `Import.all` lists those of a file in their order, each with
the URL that it names.
-/

namespace Graft

/-- A named import of a file. -/
structure Import where
  /-- The names between the braces, in order. -/
  names : List String
  /-- The specifier as it is written. -/
  specifier : String
  /-- The URL that the specifier names. -/
  url : String
  deriving DecidableEq, Repr, Inhabited

namespace Import

/-- What a named import says: the text between its braces and its specifier. -/
structure Clause where
  /-- The text between the braces; it is not empty. -/
  list : Text
  /-- The text between the quotation marks; it is not empty. -/
  specifier : Text
  deriving DecidableEq, Repr

/-- A quoted specifier: a quotation mark, at least one other character, a quotation mark. The two
marks need not agree. -/
def readQuoted? : Text → Option (Text × Text)
  | [] => none
  | q :: rest =>
    let inside := rest.takeWhile fun c => !Alphabet.isQuote c
    match rest.dropWhile fun c => !Alphabet.isQuote c with
    | _ :: tail => if Alphabet.isQuote q && !inside.isEmpty then some (inside, tail) else none
    | [] => none

/-- A brace list: everything from `{` to the first `}`, at least one character. -/
def readBraces? : Text → Option (Text × Text)
  | '{' :: rest =>
    let inside := rest.takeWhile (· ≠ '}')
    match rest.dropWhile (· ≠ '}') with
    | _ :: tail => if inside.isEmpty then none else some (inside, tail)
    | [] => none
  | _ => none

/-- A named import at the start of a text, and what follows it. -/
def Clause.read? (text : Text) : Option (Clause × Text) := do
  let text ← Text.follow? "import" text
  let text ← Text.spaces? text
  let (list, text) ← readBraces? text
  let text ← Text.spaces? text
  let text ← Text.follow? "from" text
  let text ← Text.spaces? text
  let (specifier, text) ← readQuoted? text
  return (⟨list, specifier⟩, text)

/-- The names of a brace list: its comma-separated pieces, trimmed, without the empty ones. -/
def namesOf (list : Text) : List String :=
  (((Text.splitOn ',' list).map Text.trim).filter (!·.isEmpty)).map String.ofList

/-- The import that a clause makes in the file at `containing`. -/
def ofClause (containing : String) (clause : Clause) : Import :=
  let specifier := String.ofList clause.specifier
  ⟨namesOf clause.list, specifier, Specifier.resolve specifier containing⟩

/-- The named imports of the text of the file at `containing`, in order. -/
def all (text : Text) (containing : String) : List Import :=
  (Scan.all (fun _ => Scan.ofReader Clause.read?) text).map (ofClause containing)

end Import

end Graft
