import Graft.Text.Basic

/-!
# Module specifiers

A specifier names a file from inside another file. A relative one (`./x`, `../x`) starts at the
directory of the file it stands in and cannot climb above the repository root; any other one starts
at that root. A result without a source extension takes the extension of the file it stands in.
-/

namespace Graft.Specifier

/-- The number of `/`-separated parts of a URL that name a repository's root: scheme, the empty part
after it, host, organisation, repository, `blob` and branch. -/
def rootSegments : Nat := 7

/-- The extensions of a file name that is complete as it stands. -/
def sourceExtensions : List String := ["js", "ts", "mjs", "cjs", "jsx", "tsx"]

/-- The last `/`-separated part of a URL. -/
def lastSegment (url : String) : String :=
  ((Word.splitOn '/' url).getLast?).getD url

/-- The extension of the last part of a URL: what follows its last dot, unless nothing stands before
that dot or after it. -/
def extension? (url : String) : Option String :=
  match Text.splitAtLast '.' (lastSegment url).toList with
  | some (stem, _ :: ending) =>
    if stem.isEmpty || ending.isEmpty then none else some (String.ofList ending)
  | _ => none

/-- Whether a URL ends in one of the source extensions. -/
def hasSourceExtension (url : String) : Bool :=
  match extension? url with
  | some ending => sourceExtensions.contains ending
  | none => false

/-- Whether a specifier starts at the directory of the file that it stands in. -/
def isRelative (specifier : Text) : Bool :=
  Text.startsWith "./" specifier || Text.startsWith "../" specifier

/-- One step up from a directory, unless it is the repository root or above. -/
def parent (directory : List String) : List String :=
  if directory.length > rootSegments then directory.dropLast else directory

/-- Walks from a directory along the leading `./` and `../` of a specifier: the directory reached
and what is left of the specifier. -/
def descend (directory : List String) : Text → List String × Text
  | '.' :: '/' :: rest => descend directory rest
  | '.' :: '.' :: '/' :: rest => descend (parent directory) rest
  | rest => (directory, rest)

/-- The URL that a specifier names before an extension is added. -/
def place (specifier containing : String) : String :=
  let segments := Word.splitOn '/' containing
  if isRelative specifier.toList then
    let (directory, rest) := descend segments.dropLast specifier.toList
    Word.joinWith "/" directory ++ "/" ++ String.ofList rest
  else
    Word.joinWith "/" (segments.take rootSegments) ++ "/" ++ specifier

/-- The URL that `specifier` names in the file at `containing`. -/
def resolve (specifier containing : String) : String :=
  let url := place specifier containing
  if hasSourceExtension url then url
  else
    match extension? containing with
    | some ending => url ++ "." ++ ending
    | none => url

end Graft.Specifier
