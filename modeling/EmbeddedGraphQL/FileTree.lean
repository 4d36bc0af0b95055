import EmbeddedGraphQL.Path

/-!
# File trees

The files and directories that a program sees, with the directory it works in. A path is looked up
piece by piece: a name has to stand in the directory reached so far, `..` leads to the directory
above, and an empty piece or `.` asks that a directory has been reached.

* `FileTree.resolve?`: the place a path leads to.
* `FileTree.isFile`, `FileTree.isDirectory`, `FileTree.readText?`, `FileTree.children`: what is
  there.
* `FileTree.write?`, `FileTree.makeDirectory?`, `FileTree.delete?`: changed trees.
-/

namespace EmbeddedGraphQL

/-- What stands at a place. -/
inductive FileEntry where
  /-- A file with its text, if its bytes form one. -/
  | file (text : Option String)
  /-- A directory. -/
  | directory
deriving DecidableEq

/-- A place: the names that lead to it from the root. -/
abbrev Place := List String

/-- The files and directories that a program sees. -/
structure FileTree where
  /-- The directory that relative paths start from. -/
  workingDirectory : Place
  /-- What stands at each place below the root. -/
  entries : List (Place × FileEntry)

namespace Place

/-- The absolute path of a place. -/
def path (place : Place) : String := "/" ++ "/".intercalate place

/-- The place that a path names by its text alone, seen from another place. -/
def ofPath (base : Place) (path : String) : Place :=
  let step (place : Place) : Path.Component → Place
    | .root => []
    | .here => place
    | .up => place.dropLast
    | .name text => place ++ [text]
  (Path.components path).foldl step base

end Place

namespace FileTree

/-- What stands at a place. The root is always a directory. -/
def entry? (tree : FileTree) (place : Place) : Option FileEntry :=
  if place.isEmpty then some .directory
  else (tree.entries.find? (·.1 = place)).map (·.2)

/-- Whether a directory stands at a place. -/
def isDirectoryAt (tree : FileTree) (place : Place) : Bool := tree.entry? place = some .directory

/-- The place that one piece of a path leads to. -/
def follow? (tree : FileTree) (place : Place) (piece : String) : Option Place :=
  if !tree.isDirectoryAt place then none
  else if piece = "" || piece = "." then some place
  else if piece = ".." then some place.dropLast
  else
    let next := place ++ [piece]
    if (tree.entry? next).isSome then some next else none

/-- The place that a path leads to. The empty path leads nowhere. -/
def resolve? (tree : FileTree) (path : String) : Option Place :=
  if path.isEmpty then none
  else
    let start := if Path.isAbsolute path then [] else tree.workingDirectory
    (Path.pieces path).foldlM tree.follow? start

/-- What a path leads to. -/
def find? (tree : FileTree) (path : String) : Option FileEntry :=
  tree.resolve? path >>= tree.entry?

/-- Whether a path leads anywhere. -/
def exists? (tree : FileTree) (path : String) : Bool := (tree.find? path).isSome

/-- Whether a path leads to a directory. -/
def isDirectory (tree : FileTree) (path : String) : Bool := tree.find? path = some .directory

/-- Whether a path leads to a file. -/
def isFile (tree : FileTree) (path : String) : Bool :=
  match tree.find? path with
  | some (.file _) => true
  | _ => false

/-- The text of the file that a path leads to. -/
def readText? (tree : FileTree) (path : String) : Option String :=
  match tree.find? path with
  | some (.file text) => text
  | _ => none

/-- The absolute path, without `.` and `..`, of the place that a path leads to. -/
def canonical? (tree : FileTree) (path : String) : Option String :=
  (tree.resolve? path).map Place.path

/-- The absolute path with the meaning of a path, by its text alone. -/
def absolute (tree : FileTree) (path : String) : String :=
  Path.absolute tree.workingDirectory.path path

/-- The names in the directory that a path leads to, in order. -/
def children (tree : FileTree) (path : String) : List String :=
  match tree.resolve? path with
  | none => []
  | some place =>
    let names := tree.entries.filterMap fun (p, _) =>
      if p.dropLast = place then p.getLast? else none
    names.mergeSort fun a b => !(b < a)

/-! ## Changes -/

/-- The tree with an entry put at a place, or put in its place. -/
def put (tree : FileTree) (place : Place) (entry : FileEntry) : FileTree :=
  if (tree.entry? place).isSome then
    { tree with entries := tree.entries.map fun e => if e.1 = place then (place, entry) else e }
  else { tree with entries := tree.entries ++ [(place, entry)] }

/-- The tree with directories at a place and all places above it, unless a file is in the way. -/
def makeDirectoryAt? (tree : FileTree) (place : Place) : Option FileTree :=
  (List.range place.length).foldlM
    (fun (tree : FileTree) n =>
      let above := place.take (n + 1)
      match tree.entry? above with
      | some .directory => some tree
      | some (.file _) => none
      | none => some (tree.put above .directory))
    tree

/-- The tree with a directory at a path, together with those above it. -/
def makeDirectory? (tree : FileTree) (path : String) : Option FileTree :=
  tree.makeDirectoryAt? (.ofPath tree.workingDirectory path)

/-- The tree with a file at a path, together with the directories above it. -/
def write? (tree : FileTree) (path : String) (text : Option String) : Option FileTree := do
  let place := Place.ofPath tree.workingDirectory path
  if tree.isDirectoryAt place then none
  let tree ← tree.makeDirectoryAt? place.dropLast
  return tree.put place (.file text)

/-- The tree without the file that a path leads to. -/
def delete? (tree : FileTree) (path : String) : Option FileTree :=
  match tree.resolve? path with
  | none => none
  | some place =>
    if tree.isDirectoryAt place then none
    else some { tree with entries := tree.entries.filter (·.1 ≠ place) }

end FileTree
end EmbeddedGraphQL
