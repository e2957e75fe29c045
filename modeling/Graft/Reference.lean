import Graft.Text.Basic

/-!
# References

A reference names a repository, whose entry file is looked for, or one file. It is read from
`organization/repository`, `organization/repository/path` or a URL, and printed in the same form.
-/

namespace Graft

/-- What a note or a command line points at. -/
inductive Reference where
  /-- A repository; its entry file is looked for. -/
  | repository (organization name : String)
  /-- One file, as a URL or as `organization/repository/path`. -/
  | file (url : String)
  deriving DecidableEq, Repr, Inhabited

namespace Reference

/-- The text of a reference. -/
def display : Reference → String
  | .repository organization name => organization ++ "/" ++ name
  | .file url => url

/-- What follows the scheme of a URL. -/
def afterScheme? (url : Text) : Option Text :=
  Text.follow? "https://" url <|> Text.follow? "http://" url

/-- The reference that a URL makes, where `afterScheme` follows its scheme: a path of two parts names a
repository, and a longer one a file. Empty parts do not count. -/
def ofUrl? (url afterScheme : Text) : Option Reference :=
  match ((Text.splitOn '/' afterScheme).drop 1).filter fun part => !part.isEmpty with
  | [] => none
  | [_] => none
  | [organization, name] => some (.repository (String.ofList organization) (String.ofList name))
  | _ => some (.file (String.ofList url))

/-- The reference that a path makes: two parts name a repository, and more a file. No part is empty or
holds white space. -/
def ofPath? (path : Text) : Option Reference :=
  let parts := Text.splitOn '/' path
  if parts.any fun part => part.isEmpty || part.any Alphabet.isSpace then none
  else
    match parts with
    | [organization, name] => some (.repository (String.ofList organization) (String.ofList name))
    | _ :: _ :: _ :: _ => some (.file (String.ofList path))
    | _ => none

/-- Reads a reference; white space around it and slashes at its end do not count. -/
def read? (text : String) : Option Reference :=
  let trimmed := Text.trimEndBy (· = '/') (Text.trim text.toList)
  match afterScheme? trimmed with
  | some rest => ofUrl? trimmed rest
  | none => ofPath? trimmed

end Reference

end Graft
