import EmbeddedGraphQL.LineIndex

/-!
# Embedded regions

A `Region` is a piece of GraphQL inside a host text: its content, where it stands, and the name of
the module it was declared in. Positions inside the region and positions in the host text convert
into each other: only the first line of a region is shifted sideways.
-/

namespace EmbeddedGraphQL

/-- The label of a region whose module is not known. -/
def unknownModule : String := "unknown"

/-- A piece of GraphQL inside a host text. -/
structure Region where
  /-- The text of the region. -/
  content : String
  /-- The name of the module the region is declared in, if one was found. -/
  moduleName : Option String
  /-- The byte offset of the content in the host text. -/
  offset : Nat
  /-- The size of the content in bytes. -/
  length : Nat
  /-- Where the content starts and ends in the host text. -/
  range : Range
deriving DecidableEq

namespace Region

/-- The byte offset after the content. -/
def stop (r : Region) : Nat := r.offset + r.length

/-- The module name to show for the region. -/
def label (r : Region) : String := r.moduleName.getD unknownModule

/-- The host position of a position inside the region. -/
def toHost (r : Region) (p : Position) : Position :=
  if p.line = 0 then ⟨r.range.start.line, r.range.start.character + p.character⟩
  else ⟨r.range.start.line + p.line, p.character⟩

/-- The position inside the region of a host position; none before the region starts. -/
def toLocal? (r : Region) (p : Position) : Option Position :=
  let start := r.range.start
  if p.line < start.line then none
  else if p.line = start.line then
    if p.character < start.character then none else some ⟨0, p.character - start.character⟩
  else some ⟨p.line - start.line, p.character⟩

end Region
end EmbeddedGraphQL
