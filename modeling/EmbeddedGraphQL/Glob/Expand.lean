import EmbeddedGraphQL.FileTree
import EmbeddedGraphQL.Glob.Pattern

/-!
# Paths that fit a pattern

The paths of a file tree that fit a pattern, in the order of their names, a directory before what
is in it. A part that is a name is looked up as it is, so that `.` and `..` stay in the path.

* `PathPattern.expand`: the paths that fit a pattern.
* `FileTree.glob?`: the paths that fit the pattern a text stands for.
-/

namespace EmbeddedGraphQL
namespace PathPattern

variable (tree : FileTree)

/-- The path of a name in a directory. Names in the working directory stand alone. -/
def below (directory name : String) : String :=
  if Path.same directory "." then name else Path.join directory name

/-- All files and directories at or below a path that a test keeps, at most `depth` levels down. -/
def descend (keep : String → List String) : Nat → String → List String
  | 0, path => keep path
  | depth + 1, path =>
    keep path ++ (tree.children path).flatMap fun name => descend keep depth (below path name)

/-- Which of the names `..` and `.` fit a pattern. It has to start with a dot. -/
def dotNames (pattern : NamePattern) : List String :=
  if pattern.head? = some (.char '.') then
    ["..", "."].filter fun name => NamePattern.fits pattern name.toList
  else []

/-- Whether the name at the end of a path fits a part. -/
def nameFits (part : PathPart) (path : String) : Bool :=
  match Path.fileName? path with
  | none => false
  | some name =>
    match part with
    | .literal text => text = name
    | .wild pattern => NamePattern.fits pattern name.toList
    | .anyDepth => true

/-- The paths below a directory that fit parts. -/
def expandFrom : List PathPart → String → List String
  | [], path => [path]
  | .literal name :: rest, path =>
    let next := below path name
    -- these two names are there in every directory
    let found := if name = "." || name = ".." then tree.isDirectory path else tree.exists? next
    if found then expandFrom rest next else []
  | .wild pattern :: rest, path =>
    if tree.isDirectory path then
      let special := (dotNames pattern).map (Path.join path)
      let fitting := ((tree.children path).filter fun name =>
        NamePattern.fits pattern name.toList).map (below path)
      (special ++ fitting).flatMap (expandFrom rest)
    else []
  -- at the end of a pattern only directories are meant
  | [.anyDepth], path =>
    let keep (p : String) : List String := if tree.isDirectory p then [p] else []
    (tree.children path).flatMap fun name => descend tree keep tree.entries.length (below path name)
  | .anyDepth :: part :: rest, path =>
    let keep (p : String) : List String := if nameFits part p then expandFrom rest p else []
    (tree.children path).flatMap fun name => descend tree keep tree.entries.length (below path name)

/-- The paths that fit a pattern. -/
def expand (pattern : PathPattern) : List String :=
  let found := expandFrom tree pattern.parts (if pattern.fromRoot then "/" else ".")
  if pattern.directoriesOnly then found.filter tree.isDirectory else found

end PathPattern

/-- The paths that fit the pattern a text stands for; none if it is no pattern. -/
def FileTree.glob? (tree : FileTree) (pattern : String) : Option (List String) :=
  (PathPattern.parse? pattern).map (PathPattern.expand tree)

end EmbeddedGraphQL
