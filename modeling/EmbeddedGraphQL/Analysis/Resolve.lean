import EmbeddedGraphQL.Analysis.Answer
import EmbeddedGraphQL.HoverText
import EmbeddedGraphQL.Record
import EmbeddedGraphQL.Region.Defining
import EmbeddedGraphQL.SourceCache

/-!
# Records under a position

The text that the analysis tool shows for a value names the record type generated for it. The
region that defines the operation or fragment of that name is looked for in the host text, and the
record path is resolved in the region.

* `ResolvedRecord.ofHover`: the record that a hover text names.
* `ResolvedRecord.find`: the record at a position of a file.
-/

namespace EmbeddedGraphQL

/-- A record named by a hover text, with the region it was resolved in. -/
structure ResolvedRecord where
  /-- The record. -/
  record : HoverRecord
  /-- The region that defines its operation or fragment. -/
  region : Region
  /-- What is told about it, with positions inside the region. -/
  context : RecordContext

namespace ResolvedRecord

/-- Where the record stands in the host text. -/
def hostRange (r : ResolvedRecord) : Option Range :=
  r.context.range.map fun range => ⟨r.region.toHost range.start, r.region.toHost range.stop⟩

/-- The record of some regions that a hover text names. -/
def inRegions? (schema : Schema) (regions : List Region) (record : HoverRecord) :
    Option ResolvedRecord := do
  let region ← Region.defining? regions record.definition
  let context ← (RecordContext.resolve schema region.content record.record).join
  return ⟨record, region, context⟩

/-- The record of a host text that a hover text names. The text is looked up only if one is
named. -/
def ofHover (schema : Schema) (cache : SourceCache) (text hover : String) :
    Option ResolvedRecord × SourceCache :=
  match HoverRecord.find? hover with
  | none => (none, cache)
  | some record =>
    let (regions, cache) := cache.lookup text
    (inRegions? schema regions record, cache)

/-- The record at a position of a file with the given text. -/
def find (settings : AnalysisSettings) (tool : Tool) (tree : FileTree) (schema : Schema)
    (cache : SourceCache) (file text : String) (position : Position) :
    Except AnalysisError (Option ResolvedRecord) × SourceCache :=
  match settings.hover tool tree file position with
  | .error e => (.error e, cache)
  | .ok none => (.ok none, cache)
  | .ok (some hover) =>
    let (found, cache) := ofHover schema cache text hover
    (.ok found, cache)

end ResolvedRecord
end EmbeddedGraphQL
