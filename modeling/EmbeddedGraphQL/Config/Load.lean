import EmbeddedGraphQL.Config.Basic
import EmbeddedGraphQL.Config.Record
import EmbeddedGraphQL.Json.Read
import EmbeddedGraphQL.Path
import EmbeddedGraphQL.Text.Alphanumeric
import EmbeddedGraphQL.Text.Blank

/-!
# Loading a configuration

The name of a configuration file says its format. Fields that are left out have their defaults, and
a configuration that could not be used is refused.

* `ProjectConfig.read?`: the configuration a value of a data format stands for.
* `ProjectConfig.problem?`: what is wrong with a configuration.
* `ProjectConfig.load`: the configuration a text stands for.
-/

namespace EmbeddedGraphQL

/-- What is wrong with a configuration. -/
inductive ConfigProblem where
  /-- The text is no YAML, or no configuration in YAML. -/
  | badYaml
  /-- The text is no JSON, or no configuration in JSON. -/
  | badJson
  /-- There are no schema patterns. -/
  | noSchema
  /-- A schema pattern is blank. -/
  | blankSchema
  /-- There are no document patterns, or one is blank. -/
  | blankDocuments
  /-- There are no tags. -/
  | noTags
  /-- A tag has a character it must not have, or none. -/
  | badTag (tag : String)
  /-- Nothing is remembered. -/
  | noCapacity
  /-- The program of the analysis tool is blank. -/
  | blankCommand
  /-- The analysis tool is given no time. -/
  | noTimeout
deriving DecidableEq

/-- The text of a problem. -/
def ConfigProblem.message : ConfigProblem → String
  | .badYaml => "YAML parse error"
  | .badJson => "JSON parse error"
  | .noSchema => "Empty schema configuration"
  | .blankSchema => "Empty schema path"
  | .blankDocuments => "Empty document pattern"
  | .noTags => "At least one extract tag is required"
  | .badTag tag => "Invalid extract tag '" ++ tag ++ "'"
  | .noCapacity => "Cache capacity must be at least 1"
  | .blankCommand => "Empty analysis command"
  | .noTimeout => "Analysis timeout must be positive"

/-- Why there is no configuration. -/
inductive ConfigError where
  /-- The file cannot be read. -/
  | unreadable
  /-- The configuration at a path is wrong. -/
  | invalid (path : String) (problem : ConfigProblem)
  /-- The name of the file says no known format. -/
  | unsupportedFormat (path : String)
deriving DecidableEq

/-- The text of an error; a file that cannot be read has none of its own. -/
def ConfigError.message : ConfigError → Option String
  | .unreadable => none
  | .invalid path problem =>
    some ("Invalid configuration at " ++ path ++ ": " ++ problem.message)
  | .unsupportedFormat path => some ("Unsupported config file format: " ++ path)

/-- The configuration formats. -/
inductive ConfigFormat where
  /-- YAML. -/
  | yaml
  /-- JSON. -/
  | json
  /-- Either of them, YAML first. -/
  | either
deriving DecidableEq

/-- The format that the name of a file says. -/
def ConfigFormat.ofPath? (path : String) : Option ConfigFormat :=
  match Path.extension? path with
  | some "yml" | some "yaml" => some .yaml
  | some "json" => some .json
  -- a name that starts with its only dot has no extension
  | none => if Path.fileName? path = some ".graphqlrc" then some .either else none
  | some _ => none

section Reading

variable {α : Type} (format : DataFormat α)

/-- The patterns a value stands for. -/
def Patterns.read? (v : α) : Option Patterns :=
  match format.ownText? v with
  | some pattern => some (.one pattern)
  | none => do
    let items ← format.ownItems? v
    return .many (← items.mapM format.ownText?)

/-- The value of a field, read if it is there. -/
def readField? {β : Type} (names : List String) (record : WrittenRecord α) (name : String)
    (missing : β) (read? : α → Option β) : Option β :=
  match record.field? names name with
  | none => some missing
  | some v => read? v

/-- The fields of the extraction settings, in order. -/
def ExtractSettings.fieldNames : List String := ["tags", "cacheCapacity"]

/-- The extraction settings a value stands for. -/
def ExtractSettings.read? (v : α) : Option ExtractSettings := do
  let record ← format.record? v
  if !record.admits fieldNames then none
  let missing : ExtractSettings := {}
  return {
    tags := ← readField? fieldNames record "tags" missing.tags fun v =>
      format.items? v >>= fun items => items.mapM format.text?
    cacheCapacity := ← readField? fieldNames record "cacheCapacity" missing.cacheCapacity
      format.natural? }

/-- The fields of the analysis settings, in order. -/
def AnalysisSettings.fieldNames : List String := ["command", "timeoutMs", "projectMarker"]

/-- The analysis settings a value stands for. -/
def AnalysisSettings.read? (v : α) : Option AnalysisSettings := do
  let record ← format.record? v
  if !record.admits fieldNames then none
  let missing : AnalysisSettings := {}
  return {
    command := ← readField? fieldNames record "command" missing.command format.text?
    timeoutMs := ← readField? fieldNames record "timeoutMs" missing.timeoutMs format.natural?
    projectMarker := ← readField? fieldNames record "projectMarker" missing.projectMarker
      format.text? }

/-- The fields of a configuration, in order. -/
def ProjectConfig.fieldNames : List String := ["schema", "documents", "extract", "analysis"]

/-- The configuration a value stands for. Only the schema has to be there. -/
def ProjectConfig.read? (v : α) : Option ProjectConfig := do
  let record ← format.record? v
  if !record.admits fieldNames then none
  return {
    schema := ← record.field? fieldNames "schema" >>= Patterns.read? format
    documents := ← readField? fieldNames record "documents" none fun v =>
      if format.isNull v then some none else (Patterns.read? format v).map some
    extract := ← readField? fieldNames record "extract" {} (ExtractSettings.read? format)
    analysis := ← readField? fieldNames record "analysis" {} (AnalysisSettings.read? format) }

end Reading

/-- Whether a text holds nothing but blanks. -/
def isBlankText (text : String) : Bool := Text.isAllBlank text.toList

/-- Whether a tag has characters, and only letters, digits, underscores and dots. -/
def isTag (tag : String) : Bool :=
  !tag.isEmpty && tag.toList.all fun c => Text.isAlphanumeric c || c == '_' || c == '.'

namespace ProjectConfig

/-- The first thing that is wrong with a configuration. -/
def problem? (c : ProjectConfig) : Option ConfigProblem :=
  if c.schema.toList.isEmpty then some .noSchema
  else if c.schema.toList.any isBlankText then some .blankSchema
  else if c.documents.any fun d => d.toList.isEmpty || d.toList.any isBlankText then
    some .blankDocuments
  else if c.extract.tags.isEmpty then some .noTags
  else
    match c.extract.tags.find? (!isTag ·) with
    | some tag => some (.badTag tag)
    | none =>
      if c.extract.cacheCapacity = 0 then some .noCapacity
      else if isBlankText c.analysis.command then some .blankCommand
      else if c.analysis.timeoutMs = 0 then some .noTimeout
      else none

/-- The configuration a YAML text stands for. -/
def ofYaml? (contents : String) : Option ProjectConfig := do
  let root ← Yaml.Node.parse? contents
  read? root.format root

/-- The configuration a JSON text stands for. -/
def ofJson? (contents : String) : Option ProjectConfig := Json.parse? contents >>= read? Json.format

/-- The configuration a text in a format stands for, whether it can be used or not. -/
def parse (format : ConfigFormat) (contents : String) : Except ConfigProblem ProjectConfig :=
  match format with
  | .yaml => (ofYaml? contents).elim (.error .badYaml) .ok
  | .json => (ofJson? contents).elim (.error .badJson) .ok
  -- where both formats fail, the fault is said to be with the second one
  | .either => ((ofYaml? contents).or (ofJson? contents)).elim (.error .badJson) .ok

/-- The configuration that stands in a file of the given name. -/
def load (contents path : String) : Except ConfigError ProjectConfig :=
  match ConfigFormat.ofPath? path with
  | none => .error (.unsupportedFormat path)
  | some format =>
    match parse format contents with
    | .error problem => .error (.invalid path problem)
    | .ok config =>
      match config.problem? with
      | some problem => .error (.invalid path problem)
      | none => .ok config

end ProjectConfig
end EmbeddedGraphQL
