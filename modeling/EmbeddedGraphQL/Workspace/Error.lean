import EmbeddedGraphQL.Config.Load

/-!
# Errors of workspaces

Why a workspace cannot be loaded: its configuration, the files of its schema, or the schema itself.
-/

namespace EmbeddedGraphQL

/-- Why the schema of a project cannot be read. -/
inductive SchemaFileProblem where
  /-- A text is no pattern of paths. -/
  | badPattern (pattern : String)
  /-- No file fits a pattern. -/
  | noMatch (pattern : String)
  /-- There are no patterns. -/
  | noPatterns
deriving DecidableEq

/-- The text of a problem. -/
def SchemaFileProblem.message : SchemaFileProblem → String
  | .badPattern pattern => "Invalid glob pattern '" ++ pattern ++ "'"
  | .noMatch pattern => "No files matched pattern: " ++ pattern
  | .noPatterns => "No schema files found"

/-- Why a workspace cannot be loaded. -/
inductive WorkspaceError where
  /-- There is no usable configuration. -/
  | config (cause : ConfigError)
  /-- The schema files cannot be found. -/
  | schemaFiles (problem : SchemaFileProblem)
  /-- A schema file cannot be read. -/
  | unreadable
  /-- The schema files form no schema. -/
  | badSchema
  /-- There is no configuration for a directory. -/
  | projectNotFound (root : String)
deriving DecidableEq

/-- The text of an error, if it has one of its own. -/
def WorkspaceError.message : WorkspaceError → Option String
  | .config cause => cause.message
  | .schemaFiles problem => some ("Schema loading error: " ++ problem.message)
  | .unreadable => none
  | .badSchema => none
  | .projectNotFound root => some ("Project not found: " ++ root)

end EmbeddedGraphQL
