/-!
# Record paths

The generated record types of a document are named by the way that leads to them: `fragment`, then
the names of the enclosing fields and the type conditions of the enclosing inline fragments, joined
by underscores.

* `RecordPath.display`: the joined path.
* `RecordPath.agreesWith`: comparison with a joined path, without joining.
-/

namespace EmbeddedGraphQL

/-- The first word of every record path. -/
def recordRoot : String := "fragment"

/-- The way that leads to a record, from the outside in. -/
structure RecordPath where
  /-- The segments after the root, from the outside in. -/
  segments : List String
deriving DecidableEq

namespace RecordPath

/-- The path of a definition itself. -/
def root : RecordPath := ⟨[]⟩

/-- The path one segment further in. -/
def push (p : RecordPath) (segment : String) : RecordPath := ⟨p.segments ++ [segment]⟩

/-- The last segment of a path, and the path without it. -/
def pop (p : RecordPath) : Option String × RecordPath :=
  (p.segments.getLast?, ⟨p.segments.dropLast⟩)

/-- Whether a path has no segment. -/
def isRoot (p : RecordPath) : Bool := p.segments.isEmpty

/-- The joined path. -/
def display (p : RecordPath) : String :=
  p.segments.foldl (fun text segment => text ++ "_" ++ segment) recordRoot

/-- Whether `rest` consists of the given segments, each behind an underscore. -/
def agreesFrom : List String → List Char → Bool
  | [], rest => rest.isEmpty
  | segment :: segments, rest =>
    match ("_".toList.isPrefixOf? rest).bind segment.toList.isPrefixOf? with
    | none => false
    | some remaining => agreesFrom segments remaining

/-- Whether a name is the joined path. -/
def agreesWith (p : RecordPath) (record : String) : Bool :=
  match recordRoot.toList.isPrefixOf? record.toList with
  | none => false
  | some rest => agreesFrom p.segments rest

end RecordPath
end EmbeddedGraphQL
