import EmbeddedGraphQL.Glob.Expand
import EmbeddedGraphQL.Schema.Build
import EmbeddedGraphQL.Workspace.Error

/-!
# Schema files

The schema of a project stands in the files that fit its patterns, seen from a base directory. The
files are read pattern by pattern; a file that fits two patterns is read twice.

* `FileTree.schemaTexts`: the files with their texts.
* `FileTree.loadSchema`: the schema they form.
-/

namespace EmbeddedGraphQL
namespace FileTree

/-- A file with its text. -/
def readFile (tree : FileTree) (path : String) : Except WorkspaceError (String × String) :=
  match tree.readText? path with
  | some text => .ok (path, text)
  | none => .error .unreadable

/-- The files that fit a pattern, with their texts. -/
def patternTexts (tree : FileTree) (base pattern : String) :
    Except WorkspaceError (List (String × String)) :=
  let pattern := Path.join base pattern
  match tree.glob? pattern with
  | none => .error (.schemaFiles (.badPattern pattern))
  | some [] => .error (.schemaFiles (.noMatch pattern))
  | some paths => paths.mapM tree.readFile

/-- The files that fit patterns, with their texts. -/
def schemaTexts (tree : FileTree) (base : String) (patterns : List String) :
    Except WorkspaceError (List (String × String)) := do
  if patterns.isEmpty then throw (.schemaFiles .noPatterns)
  return (← patterns.mapM (tree.patternTexts base)).flatten

/-- The schema in the files that fit patterns. -/
def loadSchema (tree : FileTree) (base : String) (patterns : List String) :
    Except WorkspaceError Schema := do
  let files ← tree.schemaTexts base patterns
  match Schema.ofTexts? (files.map (·.2)) with
  | some schema => return schema
  | none => throw .badSchema

end FileTree
end EmbeddedGraphQL
