import EmbeddedGraphQL.Analysis.Resolve
import EmbeddedGraphQL.CommandLine.Extract

/-!
# Describing records

The record of a path in a region, or the record that the analysis tool names at a position.

* `contextCommand`: the record of a path.
* `hoverCommand`: the record at a position.
-/

namespace EmbeddedGraphQL

/-- A record as it is described. -/
structure RecordDescription where
  /-- Its path. -/
  record : String
  /-- The module of its region. -/
  label : String
  /-- What is told about it. -/
  context : RecordContext
  /-- Where it stands in the host file. -/
  span : Option String

namespace RecordDescription

/-- The description of a record in a region. -/
def inRegion (record : String) (region : Region) (context : RecordContext) : RecordDescription :=
  let host := context.range.map fun range : Range =>
    (⟨region.toHost range.start, region.toHost range.stop⟩ : Range)
  ⟨record, region.label, context, host.map Range.text⟩

/-- The description for people; what is not known is left out. -/
def listing (d : RecordDescription) : String :=
  let line (title : String) (text : Option String) : String :=
    (text.map fun text => "  " ++ title ++ ": " ++ text ++ "\n").getD ""
  d.record ++ " (" ++ d.label ++ ")\n" ++ line "type" (some d.context.type.name) ++
    line "field type" d.context.fieldType ++ line "description" d.context.description ++
    line "span" d.span

/-- A text, or null. -/
def optionalText (text : Option String) : Json := (text.map Json.str).getD .null

/-- The description as JSON. -/
def toJson (d : RecordDescription) : Json :=
  .object [("record", .str d.record), ("fragment", .str d.label),
    ("type", .str d.context.type.name), ("fieldType", optionalText d.context.fieldType),
    ("description", optionalText d.context.description), ("span", optionalText d.span)]

/-- The outcome that shows a description. -/
def outcome (d : RecordDescription) : OutputStyle → Outcome
  | .human => { output := d.listing }
  | .json => { output := d.toJson.pretty ++ "\n" }

/-- The outcome when there is no record to describe. -/
def missing (message : String) : OutputStyle → Outcome
  | .human => { status := 1, problems := message ++ "\n" }
  | .json => { status := 1, output := "null\n" }

end RecordDescription

/-- Describes the record of a path in the region at a position. -/
def contextCommand (tree : FileTree) (given : Option String) (file : String) (position : Position)
    (record : String) (style : OutputStyle) : Except CommandError Outcome := do
  let workspace ← tree.workspaceFor given file
  let host ← HostFile.read tree file
  let region ← host.regionAt workspace.config.extract position
  match RecordContext.resolve workspace.schema region.content record with
  | none => throw .badRegion
  | some none => return RecordDescription.missing (CommandError.noRecord record).message style
  | some (some context) => return (RecordDescription.inRegion record region context).outcome style

/-- Describes the record that the analysis tool names at a position. -/
def hoverCommand (tree : FileTree) (tool : Tool) (given : Option String) (file : String)
    (position : Position) (style : OutputStyle) : Except CommandError Outcome := do
  let workspace ← tree.workspaceFor given file
  let host ← HostFile.read tree file
  let cache ← host.cache workspace.config.extract
  match (ResolvedRecord.find workspace.config.analysis tool tree workspace.schema cache host.path
    host.text position).1 with
  | .error _ => throw .noHover
  | .ok none => return RecordDescription.missing "No generated record type under the cursor" style
  | .ok (some found) =>
    return (RecordDescription.inRegion found.record.record found.region found.context).outcome style

end EmbeddedGraphQL
