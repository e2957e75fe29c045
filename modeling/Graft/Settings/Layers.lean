import Graft.Disk
import Graft.Settings.Shape
import Graft.Settings.Variables
import Graft.Toml.Document

/-!
# Layers of settings

Settings come in layers: the defaults, then a settings file, then variables of the environment, then what
the command line says. Each layer sets single keys and leaves the others alone. A settings file is the
one asked for, or the first of two names in a folder.
-/

namespace Graft

/-- Settings from the command line; what is missing leaves the lower layers alone. -/
structure Overrides where
  retries : Option UInt32 := none
  timeoutSeconds : Option UInt64 := none
  proxyUrl : Option String := none
  heading : Option String := none
  isStrict : Option Bool := none
  deriving DecidableEq, Repr, Inhabited

/-- The layers as trees, each setting one key. -/
def Overrides.trees (o : Overrides) : List Tree :=
  [o.retries.map fun n => Tree.nest ["fetch", "retries"] (Settings.number n.toNat),
    o.timeoutSeconds.map fun n => Tree.nest ["fetch", "timeout_seconds"] (Settings.number n.toNat),
    o.proxyUrl.map fun s => Tree.nest ["fetch", "proxy_url"] (.text s),
    o.heading.map fun s => Tree.nest ["output", "heading"] (.text s),
    o.isStrict.map fun b => Tree.nest ["strict"] (.flag b)].filterMap id

/-- Where settings come from. -/
structure SettingsSource where
  /-- The settings file asked for. -/
  file : Option String := none
  /-- The folder to look for a settings file in, if not the working folder. -/
  folder : Option String := none
  /-- How the names of variables start. -/
  variableStart : String := "SPLICE_"
  overrides : Overrides := {}
  deriving DecidableEq, Repr, Inhabited

/-- The variables of the environment. -/
abbrev Environment := List (String × String)

namespace SettingsSource

/-- The names of settings files, in the order in which they are looked for. -/
def fileNames : List String := ["splice.toml", ".splice.toml"]

/-- The settings file that is read, if there is one; one that is asked for has to be there. -/
def file? (source : SettingsSource) (disk : Disk) : Except SettingsError (Option String) :=
  match source.file with
  | some path => if disk.isFile path then .ok (some path) else .error (.notFound path)
  | none =>
    let folder := source.folder.getD disk.working
    .ok ((fileNames.map (Disk.join folder)).find? disk.isFile)

/-- The table that the settings file at a path writes. -/
def fileTree (disk : Disk) (path : String) : Except SettingsError Tree :=
  match disk.read path with
  | .error _ => .error .unreadable
  | .ok text =>
    match Toml.tree? text with
    | some tree => .ok tree
    | none => .error .unreadable

/-- The layer of the settings file. -/
def fileLayer (disk : Disk) : Option String → Except SettingsError (List Tree)
  | none => .ok []
  | some path => (fileTree disk path).map fun tree => [tree]

/-- All layers, the lowest first, where `path` is the settings file that is read. -/
def layers (source : SettingsSource) (disk : Disk) (environment : Environment) (path : Option String) :
    Except SettingsError (List Tree) := do
  return [.table ({} : Settings).entries] ++ (← fileLayer disk path) ++
    [Variables.tree source.variableStart environment] ++ source.overrides.trees

/-- The settings of layers that are laid over each other. -/
def ofLayers (layers : List Tree) : Except SettingsError Settings :=
  match Settings.ofTree? .lenient (Tree.stack layers) with
  | some settings => settings.check
  | none => .error .unreadable

/-- The event of reading a settings file. -/
def loading (path : String) : Event :=
  ⟨.debug, .settings, "loading config file", [("path", .shown path)]⟩

/-- The settings, and the events on the way to them. -/
def load (source : SettingsSource) (disk : Disk) (environment : Environment) :
    Except SettingsError Settings × List Event :=
  match source.file? disk with
  | .error e => (.error e, [])
  | .ok path =>
    (source.layers disk environment path >>= ofLayers, (path.map loading).toList)

end SettingsSource

end Graft
