import EmbeddedGraphQL.Config.Find
import EmbeddedGraphQL.Workspace.SchemaFiles

/-!
# Workspaces

A workspace is a project that has been loaded: its configuration and its schema. A cache keeps the
workspaces that were loaded, by their root directory, until they are dropped; what happens to the
files in the meantime has no effect on them.

* `Workspace.load`: the workspace of a directory.
* `WorkspaceCache.get`: the workspace of a directory, loaded only if it is not kept.
* `WorkspaceCache.invalidate`, `WorkspaceCache.remove`: dropping workspaces.
-/

namespace EmbeddedGraphQL

/-- A project that has been loaded. -/
structure Workspace where
  /-- The directory it was loaded for. -/
  root : String
  /-- Its configuration file. -/
  configPath : String
  /-- Its configuration. -/
  config : ProjectConfig
  /-- Its schema. -/
  schema : Schema

namespace Workspace

/-- The workspace with a configuration. Schema patterns are seen from the directory of the
configuration file. -/
def ofConfig (tree : FileTree) (root configPath : String) (config : ProjectConfig) :
    Except WorkspaceError Workspace := do
  let base := (Path.parent? configPath).getD root
  let schema ← tree.loadSchema base config.schema.toList
  return ⟨root, configPath, config, schema⟩

/-- The workspace of a directory. -/
def load (tree : FileTree) (root : String) : Except WorkspaceError Workspace :=
  match tree.findConfig? root with
  | none => .error (.projectNotFound root)
  | some configPath =>
    match tree.loadConfig configPath with
    | .error cause => .error (.config cause)
    | .ok config => ofConfig tree root configPath config

end Workspace

/-- The workspaces that were loaded and not dropped since. -/
structure WorkspaceCache where
  /-- The workspaces, no two for the same root. -/
  workspaces : List Workspace

namespace WorkspaceCache

/-- A cache that keeps nothing yet. -/
def empty : WorkspaceCache := ⟨[]⟩

/-- How many workspaces are kept. -/
def size (cache : WorkspaceCache) : Nat := cache.workspaces.length

/-- The workspace kept for a root. -/
def find? (cache : WorkspaceCache) (root : String) : Option Workspace :=
  cache.workspaces.find? fun w => Path.same w.root root

/-- Whether a workspace is kept for a root. -/
def contains (cache : WorkspaceCache) (root : String) : Bool := (cache.find? root).isSome

/-- The workspace of a root: the one that is kept, or one that is loaded now and kept. -/
def get (cache : WorkspaceCache) (tree : FileTree) (root : String) :
    Except WorkspaceError Workspace × WorkspaceCache :=
  match cache.find? root with
  | some workspace => (.ok workspace, cache)
  | none =>
    match Workspace.load tree root with
    | .error e => (.error e, cache)
    | .ok workspace => (.ok workspace, ⟨cache.workspaces ++ [workspace]⟩)

/-- Drops the workspaces with a configuration file and says how many there were. -/
def invalidate (cache : WorkspaceCache) (configPath : String) : Nat × WorkspaceCache :=
  let kept := cache.workspaces.filter fun w => !Path.same w.configPath configPath
  (cache.size - kept.length, ⟨kept⟩)

/-- Drops the workspace of a root and says whether there was one. -/
def remove (cache : WorkspaceCache) (root : String) : Bool × WorkspaceCache :=
  (cache.contains root, ⟨cache.workspaces.filter fun w => !Path.same w.root root⟩)

end WorkspaceCache
end EmbeddedGraphQL
