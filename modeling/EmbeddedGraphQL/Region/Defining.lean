import EmbeddedGraphQL.Document.Grammar
import EmbeddedGraphQL.Region.Basic

/-!
# Which region is meant

A region is looked up by a position in the host text, or by the operation or fragment it defines.

A region that is the whole text takes every position; otherwise a region takes the lines it touches,
and where regions share a line the later one is chosen. Of the regions that define a name the first
one is chosen; regions that are no documents define nothing.

* `Region.selectAt`: the region at a position.
* `Region.defining?`: the region that defines a name.
-/

namespace EmbeddedGraphQL
namespace Region

/-- Whether the region is the whole of the text. -/
def isWhole (r : Region) (text : String) : Bool := r.offset = 0 && r.length = text.utf8ByteSize

/-- The region at a position of the text the regions were extracted from. -/
def selectAt (regions : List Region) (text : String) (p : Position) : Option Region :=
  let byLine := (regions.filter (·.range.containsLine p.line)).getLast?
  match regions with
  | [only] => if only.isWhole text then some only else byLine
  | _ => byLine

/-- Whether a region is a document with an operation or fragment of the given name. -/
def defines (r : Region) (name : String) : Bool :=
  match Document.parse? r.content with
  | none => false
  | some d => d.definitions.any (·.isExecutableNamed name)

/-- The first region that defines an operation or fragment of the given name. -/
def defining? (regions : List Region) (name : String) : Option Region :=
  regions.find? (·.defines name)

end Region
end EmbeddedGraphQL
