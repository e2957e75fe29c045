import Graft.Program
import Std.Time.DateTime.Timestamp

/-!
# Running the program

All that touches the outside: the files that a command line speaks of are read into a disk, the program
runs on it, and then its lines are printed and the files that it changed are written.
-/

namespace Graft.Outside

/-- The variables of the environment. -/
def environment : IO Environment := do
  let text ← try IO.FS.readFile "/proc/self/environ" catch _ => pure ""
  return (Word.splitOn (Char.ofNat 0) text).filterMap fun entry =>
    match entry.toList.span (· ≠ '=') with
    | (name, _ :: value) => some (String.ofList name, String.ofList value)
    | _ => none

/-- The files that a command line speaks of. -/
def pathsOf (line : CommandLine) : List String :=
  SettingsSource.fileNames ++ line.config.toList ++
    match line.command with
    | .inline _ output _ => output.toList
    | .sync note _ _ => [note]
    | .config _ => []

/-- The names that lead to a path from the top, where two points take the name before them away. -/
def partsFrom (working path : String) : List String :=
  let all := if Disk.isAbsolute path then Disk.partsOf path else Disk.partsOf (working ++ "/" ++ path)
  (all.foldl (fun parts part => if part = ".." then parts.drop 1 else part :: parts) []).reverse

/-- An absolute path. -/
def pathOf (parts : List String) : String := "/" ++ Word.joinWith "/" parts

/-- The disk with what is found at a place. -/
def look (disk : Disk) (parts : List String) : IO Disk := do
  let path := (← IO.currentDir) / pathOf parts
  if ← path.isDir then return { disk with folders := disk.folders ++ [parts] }
  else
    try return disk.put parts (← IO.FS.readFile path).toList
    catch _ => return disk

/-- A disk with what is found at these paths and on the way to them. -/
def diskOf (paths : List String) : IO Disk := do
  let working := (← IO.currentDir).toString
  let places := paths.flatMap fun path =>
    (List.range ((partsFrom working path).length + 1)).map (partsFrom working path).take
  places.eraseDups.foldlM look { working, files := [] }

/-- Writes the files that are not as they were. -/
def save (before after : Disk) : IO Unit :=
  after.files.forM fun (parts, text) =>
    if before.file? parts = some text then pure ()
    else IO.FS.writeFile (pathOf parts) (String.ofList text)

/-- Runs the program on the words of its command line. -/
def run (words : List String) : IO UInt32 := do
  let paths := match CommandLine.read words with
    | .ok line => pathsOf line
    | .error _ => []
  let disk ← diskOf paths
  let seconds := (← Std.Time.Timestamp.now).toSecondsSinceUnixEpoch.val
  let surroundings : Surroundings := ⟨disk, ← environment, ⟨seconds, 0⟩, ⟨0, 0⟩⟩
  match Program.run? words surroundings surroundings.now.print with
  | none => return 1
  | some finished =>
    save disk finished.disk
    IO.print (String.ofList finished.printed)
    finished.shown.forM fun line => IO.eprintln line.text
    return finished.exitCode.toUInt32

end Graft.Outside

/-- The program's entry point. -/
def main (words : List String) : IO UInt32 := Graft.Outside.run words
