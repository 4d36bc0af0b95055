import EmbeddedGraphQL.Json.Basic

/-!
# Project configuration

What a project says about its embedded GraphQL: where its schema and documents are, how GraphQL is
tagged in them, and which tool answers questions about the host language.

* `ProjectConfig`: the configuration.
* `ProjectConfig.toJson`: its JSON form.
-/

namespace EmbeddedGraphQL

/-- One pattern of paths, or a list of them. -/
inductive Patterns where
  /-- One pattern. -/
  | one (pattern : String)
  /-- A list of patterns. -/
  | many (patterns : List String)
deriving DecidableEq

namespace Patterns

/-- The patterns as a list. -/
def toList : Patterns → List String
  | .one pattern => [pattern]
  | .many patterns => patterns

/-- One pattern is a text, several are a list. -/
def toJson : Patterns → Json
  | .one pattern => .str pattern
  | .many patterns => .array (patterns.map .str)

end Patterns

/-- How GraphQL is embedded. -/
structure ExtractSettings where
  /-- The tags that open a region. -/
  tags : List String := ["relay"]
  /-- How many texts are remembered with their regions. -/
  cacheCapacity : Nat := 5
deriving DecidableEq

/-- The JSON form of the settings. -/
def ExtractSettings.toJson (s : ExtractSettings) : Json :=
  .object [("tags", .array (s.tags.map .str)), ("cacheCapacity", .ofNat s.cacheCapacity)]

/-- How the analysis tool is run. -/
structure AnalysisSettings where
  /-- The program. -/
  command : String := "rescript-editor-analysis.exe"
  /-- How long to wait for its answer, in milliseconds. -/
  timeoutMs : Nat := 5000
  /-- The file that marks the directory it runs in. -/
  projectMarker : String := "bsconfig.json"
deriving DecidableEq

/-- The JSON form of the settings. -/
def AnalysisSettings.toJson (s : AnalysisSettings) : Json :=
  .object [("command", .str s.command), ("timeoutMs", .ofNat s.timeoutMs),
    ("projectMarker", .str s.projectMarker)]

/-- The configuration of a project. -/
structure ProjectConfig where
  /-- The schema files. -/
  schema : Patterns
  /-- The files to look for embedded GraphQL in, if the project limits them. -/
  documents : Option Patterns := none
  /-- How GraphQL is embedded. -/
  extract : ExtractSettings := {}
  /-- How the analysis tool is run. -/
  analysis : AnalysisSettings := {}
deriving DecidableEq

/-- The JSON form of a configuration. Documents that are not limited are left out. -/
def ProjectConfig.toJson (c : ProjectConfig) : Json :=
  let documents := c.documents.toList.map fun patterns => ("documents", patterns.toJson)
  .object ([("schema", c.schema.toJson)] ++ documents ++
    [("extract", c.extract.toJson), ("analysis", c.analysis.toJson)])

end EmbeddedGraphQL
