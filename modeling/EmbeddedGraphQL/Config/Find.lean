import EmbeddedGraphQL.Config.Load
import EmbeddedGraphQL.FileTree

/-!
# Finding a configuration

A configuration stands in a file of a known name, in the directory of interest or one above it. The
root of a project is the closest directory that holds a marker.

* `FileTree.findConfig?`: the configuration file that counts for a directory.
* `FileTree.loadConfig`: the configuration in a file.
* `FileTree.projectRoot?`: the root of the project that a path belongs to.
-/

namespace EmbeddedGraphQL

/-- The names of configuration files, the preferred ones first. -/
def configNames : List String :=
  [".graphqlrc.yml", ".graphqlrc.yaml", ".graphqlrc.json", ".graphqlrc", "graphql.config.yml",
    "graphql.config.yaml", "graphql.config.json"]

namespace FileTree

/-- The configuration file in a directory or the closest directory above it, by its text. -/
def findConfig? (tree : FileTree) (directory : String) : Option String :=
  let candidates := (Path.ancestors directory).flatMap fun up => configNames.map (Path.join up)
  candidates.find? tree.isFile

/-- The configuration in a file. -/
def loadConfig (tree : FileTree) (path : String) : Except ConfigError ProjectConfig :=
  match tree.readText? path with
  | none => .error .unreadable
  | some contents => ProjectConfig.load contents path

/-- The closest directory at or above a path that holds a marker. The search starts next to a
file. -/
def projectRoot? (tree : FileTree) (path marker : String) : Option String := do
  let start := tree.absolute path
  let directory ← if tree.isFile start then Path.parent? start else some start
  (Path.ancestors directory).find? fun up => tree.exists? (Path.join up marker)

end FileTree
end EmbeddedGraphQL
