/-!
# Paths

A path is a string whose components are separated by `/`. Repeated separators, a trailing
separator and `.` carry no meaning, except that a leading separator makes the path absolute and a
leading `.` is kept. Two paths are the same when they have the same components.

* `Path.components`: what a path means.
* `Path.parent?`, `Path.ancestors`, `Path.join`: moving between paths, on their text.
* `Path.fileName?`, `Path.extension?`: the last component and its ending.
* `Path.absolute`: an absolute path with the same meaning.
-/

namespace EmbeddedGraphQL
namespace Path

/-- One component of a path. -/
inductive Component where
  /-- The leading separator of an absolute path. -/
  | root
  /-- A leading `.`. -/
  | here
  /-- A `..`. -/
  | up
  /-- A name. -/
  | name (text : String)
deriving DecidableEq

/-- The text of a path between its separators. -/
def pieces (path : String) : List String :=
  (path.toList.splitOn '/').map String.ofList

/-- Whether a path starts with a separator. -/
def isAbsolute (path : String) : Bool := path.toList.head? = some '/'

/-- The component that a piece after the first stands for, if any. -/
def component? (piece : String) : Option Component :=
  if piece = "" || piece = "." then none
  else if piece = ".." then some .up
  else some (.name piece)

/-- The components of a path. -/
def components (path : String) : List Component :=
  -- only the first piece can be the root or a `.` with a meaning
  match pieces path with
  | [] => []
  | first :: rest =>
    let head :=
      if isAbsolute path then [.root]
      else if first = "." then [.here]
      else (component? first).toList
    head ++ rest.filterMap component?

/-- The name a path ends in. -/
def fileName? (path : String) : Option String :=
  match (components path).getLast? with
  | some (.name text) => some text
  | _ => none

/-- The part of a name after its last dot, unless that dot is its first character. -/
def nameExtension? (name : String) : Option String :=
  let tail := name.toList.reverse.takeWhile (· != '.')
  let stem := name.toList.reverse.drop (tail.length + 1)
  if stem.isEmpty then none else some (String.ofList tail.reverse)

/-- The extension of the name a path ends in. -/
def extension? (path : String) : Option String := (fileName? path).bind nameExtension?

/-- The pieces of a path, last one first, without those at its end that carry no meaning. The first
piece of the path always stays. -/
def dropIdle : List String → List String
  | piece :: next :: rest =>
    if (component? piece).isNone then dropIdle (next :: rest) else piece :: next :: rest
  | short => short

/-- The path without its last component; none for the empty path and the root. -/
def parent? (path : String) : Option String :=
  match dropIdle (pieces path).reverse with
  | [] => none
  | [only] => if only = "" then none else some ""
  | _ :: rest =>
    match dropIdle rest with
    | [""] => some "/"
    | kept => some ("/".intercalate kept.reverse)

/-- The path, its parent, the parent's parent and so on, at most `fuel` further ones. -/
def ancestorsUpTo : Nat → String → List String
  | 0, path => [path]
  | fuel + 1, path =>
    match parent? path with
    | none => [path]
    | some up => path :: ancestorsUpTo fuel up

/-- The path, its parent, the parent's parent and so on. -/
def ancestors (path : String) : List String := ancestorsUpTo (pieces path).length path

/-- Whether a path ends with a separator, which asks for a directory. -/
def endsOpen (path : String) : Bool := path.toList.getLast? = some '/'

/-- `path` seen from `base`: an absolute path stays as it is. -/
def join (base path : String) : String :=
  if isAbsolute path || base = "" then path
  else if endsOpen base then base ++ path
  else base ++ "/" ++ path

/-- Whether two paths have the same components. -/
def same (p q : String) : Bool := components p = components q

/-- The text of a component. -/
def Component.text : Component → String
  | .root => "/"
  | .here => "."
  | .up => ".."
  | .name text => text

/-- A path with the given components. -/
def ofComponents (cs : List Component) : String := cs.foldl (fun path c => join path c.text) ""

/-- The absolute path with the meaning of `path` seen from the directory `base`. One separator at
the end is kept. -/
def absolute (base path : String) : String :=
  let own := (components path).filter (· != .here)
  let whole := ofComponents (if isAbsolute path then own else components base ++ own)
  if endsOpen path then join whole "" else whole

end Path
end EmbeddedGraphQL
