import EmbeddedGraphQL.CommandLine.Outcome
import EmbeddedGraphQL.SourceCache
import EmbeddedGraphQL.Workspace.Cache

/-!
# Projects of files

The configuration and the schema that count for a file on the command line, and the file itself. A
configuration file that is given counts for more than one that is found.

* `FileTree.configFor`: the configuration that counts for a path.
* `FileTree.workspaceFor`: the workspace that a path belongs to.
* `HostFile.read`: a file with its language and text.
-/

namespace EmbeddedGraphQL
namespace FileTree

/-- The directory in which the search for a configuration starts. -/
def searchDirectory (tree : FileTree) (path : String) : Except CommandError String :=
  match tree.resolve? path with
  | none => .error (.cannotResolve path)
  | some place =>
    .ok (if tree.isDirectoryAt place then place.path else Place.path place.dropLast)

/-- The configuration in a file, with the path of the file. -/
def configAt (tree : FileTree) (path : String) : Except CommandError (String × ProjectConfig) :=
  match tree.loadConfig path with
  | .ok config => .ok (path, config)
  | .error _ => .error (.badConfig path)

/-- The configuration that counts for a path, if there is one. -/
def configFor (tree : FileTree) (given : Option String) (path : String) :
    Except CommandError (Option (String × ProjectConfig)) :=
  match given with
  | some configPath => (tree.configAt configPath).map some
  | none => do
    match tree.findConfig? (← tree.searchDirectory path) with
    | none => return none
    | some configPath => return some (← tree.configAt configPath)

/-- The extraction settings that count for a path. -/
def extractSettingsFor (tree : FileTree) (given : Option String) (path : String) :
    Except CommandError ExtractSettings := do
  return ((← tree.configFor given path).map (·.2.extract)).getD {}

/-- The workspace that a path belongs to. -/
def workspaceFor (tree : FileTree) (given : Option String) (path : String) :
    Except CommandError Workspace :=
  match given with
  | none => do
    match Workspace.load tree (← tree.searchDirectory path) with
    | .ok workspace => return workspace
    | .error _ => throw .badProject
  | some configPath => do
    let (_, config) ← tree.configAt configPath
    match Workspace.ofConfig tree ((Path.parent? configPath).getD "") configPath config with
    | .ok workspace => return workspace
    | .error _ => throw .badSchema

end FileTree

/-- A file with its language and text. -/
structure HostFile where
  /-- The path. -/
  path : String
  /-- The text. -/
  text : String
  /-- The language. -/
  language : HostLanguage
deriving DecidableEq

namespace HostFile

/-- The file at a path. A file of an unknown language is not read. -/
def read (tree : FileTree) (path : String) : Except CommandError HostFile :=
  match HostLanguage.ofPath? path with
  | none => .error (.unsupportedFile path)
  | some language =>
    match tree.readText? path with
    | none => .error (.cannotRead path)
    | some text => .ok ⟨path, text, language⟩

/-- The extractor for a file. -/
def extractor (file : HostFile) (tags : List String) : Except CommandError Extractor :=
  match Extractor.make file.language tags with
  | .ok extractor => .ok extractor
  | .error _ => .error .badExtractSettings

/-- The source cache for a file. It remembers at least one text. -/
def cache (file : HostFile) (settings : ExtractSettings) : Except CommandError SourceCache := do
  let extractor ← file.extractor settings.tags
  return .empty extractor (max 1 settings.cacheCapacity) (by omega)

/-- The region at a position of a file. -/
def regionAt (file : HostFile) (settings : ExtractSettings) (position : Position) :
    Except CommandError Region := do
  match ((← file.cache settings).select file.text position).1 with
  | some region => return region
  | none => throw (.noRegion file.path position.line)

end HostFile
end EmbeddedGraphQL
