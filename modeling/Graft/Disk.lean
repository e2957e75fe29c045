import Graft.Text.Basic

/-!
# The disk

The disk is a tree of folders and files; a path is followed from its top, or from the working folder if
it is relative. It is followed part by part: an empty part or a point stays, two points go up, and
whatever more parts follow must be a folder. A text is written whole or not at all.
-/

namespace Graft

/-- Why a path cannot be read or written. -/
inductive DiskError where
  /-- Nothing is there, or the folder that it would be in is not. -/
  | missing
  /-- A folder is there. -/
  | isFolder
  /-- The path leads through a file. -/
  | notFolder
  /-- The file is locked, or the folder that it would be in is. -/
  | denied
  deriving DecidableEq, Repr, Inhabited

/-- The text of a disk error. -/
def DiskError.message : DiskError → String
  | .missing => "No such file or directory (os error 2)"
  | .isFolder => "Is a directory (os error 21)"
  | .notFolder => "Not a directory (os error 20)"
  | .denied => "Permission denied (os error 13)"

/-- Folders and files. Each is known by its parts: the names that lead to it from the top. -/
structure Disk where
  /-- The working folder, as an absolute path. -/
  working : String
  files : List (List String × Text)
  /-- Folders, beside those that lead to files and to the working folder. -/
  folders : List (List String) := []
  /-- Files that are not to be written, and folders that take no new file. -/
  locked : List (List String) := []
  deriving DecidableEq, Repr, Inhabited

namespace Disk

/-- What is found where a path ends. -/
inductive Place where
  | file (parts : List String) (text : Text)
  | folder (parts : List String)
  /-- Nothing, in a folder that is there. -/
  | vacant (parts : List String)
  deriving DecidableEq, Repr

/-- Whether a part of a path stays where it is. -/
def isIdle (part : String) : Bool := part = "" || part = "."

/-- The names of a path. -/
def partsOf (path : String) : List String := (Word.splitOn '/' path).filter fun part => !isIdle part

/-- The text of a file. -/
def file? (d : Disk) (parts : List String) : Option Text := d.files.lookup parts

/-- Whether a folder is there. -/
def hasFolder (d : Disk) (parts : List String) : Bool :=
  parts.isPrefixOf (partsOf d.working) || d.folders.any (fun f => parts.isPrefixOf f) ||
    d.files.any fun f => parts.isPrefixOf f.1 && parts.length < f.1.length

/-- What is at a place. -/
def look (d : Disk) (parts : List String) : Place :=
  match d.file? parts with
  | some text => .file parts text
  | none => if d.hasFolder parts then .folder parts else .vacant parts

/-- Follows the parts of a path from the place reached so far. -/
def follow (d : Disk) : Place → List String → Except DiskError Place
  | place, [] => .ok place
  | .file _ _, _ :: _ => .error .notFolder
  | .vacant parts, more => if more.all String.isEmpty then .ok (.vacant parts) else .error .missing
  | .folder parts, part :: more =>
    if isIdle part then d.follow (.folder parts) more
    else if part = ".." then d.follow (.folder parts.dropLast) more
    else d.follow (d.look (parts ++ [part])) more

/-- Whether a path starts at the top. -/
def isAbsolute (path : String) : Bool := Word.startsWith "/" path

/-- What a path leads to. -/
def locate (d : Disk) (path : String) : Except DiskError Place :=
  d.follow (.folder (if isAbsolute path then [] else partsOf d.working)) (Word.splitOn '/' path)

/-- Whether a path leads to a file. -/
def isFile (d : Disk) (path : String) : Bool :=
  match d.locate path with
  | .ok (.file _ _) => true
  | _ => false

/-- The text of the file that a path leads to. -/
def read (d : Disk) (path : String) : Except DiskError Text := do
  match ← d.locate path with
  | .file _ text => return text
  | .folder _ => throw .isFolder
  | .vacant _ => throw .missing

/-- The disk with a text in the file at a place. -/
def put (d : Disk) (parts : List String) (text : Text) : Disk :=
  if (d.file? parts).isSome then
    { d with files := d.files.map fun f => if f.1 = parts then (parts, text) else f }
  else { d with files := d.files ++ [(parts, text)] }

/-- The disk after a text is written to a path: to the file there, or to a new one. -/
def write (d : Disk) (path : String) (text : Text) : Except DiskError Disk := do
  match ← d.locate path with
  | .file parts _ => if d.locked.contains parts then throw .denied else return d.put parts text
  | .folder _ => throw .isFolder
  | .vacant parts =>
    if Text.endsWith '/' path.toList then throw .isFolder
    else if d.locked.contains parts.dropLast then throw .denied
    else return d.put parts text

/-- A path inside a folder: the path by itself if it is absolute. -/
def join (folder path : String) : String :=
  if isAbsolute path || folder.isEmpty then path
  else if Text.endsWith '/' folder.toList then folder ++ path
  else folder ++ "/" ++ path

end Disk

end Graft
