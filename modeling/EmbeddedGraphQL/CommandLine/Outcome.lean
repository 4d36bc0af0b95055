/-!
# Outcomes

What carrying out a command leads to: a status, the texts that are written for the reader and about
problems, and files that are written. A command that cannot be carried out has a cause.

* `CommandError`, `CommandError.message`: the causes and their texts.
* `Outcome`: what a command leads to.
-/

namespace EmbeddedGraphQL

/-- Why a command cannot be carried out. -/
inductive CommandError where
  /-- A path leads nowhere. -/
  | cannotResolve (path : String)
  /-- A configuration file cannot be used. -/
  | badConfig (path : String)
  /-- The project of the file cannot be loaded. -/
  | badProject
  /-- The schema of the given configuration cannot be loaded. -/
  | badSchema
  /-- A text is no pattern of documents. -/
  | badDocuments (pattern : String)
  /-- A file is of no known language. -/
  | unsupportedFile (path : String)
  /-- A file cannot be read. -/
  | cannotRead (path : String)
  /-- The extraction settings cannot be used. -/
  | badExtractSettings
  /-- There is no region at a line of a file. -/
  | noRegion (path : String) (line : Nat)
  /-- A region is no document. -/
  | badRegion
  /-- The analysis tool gives no answer. -/
  | noHover
  /-- There is no record of a path. -/
  | noRecord (record : String)
  /-- A field cannot be added. -/
  | cannotAddField
  /-- A line lies before the region. -/
  | lineBeforeRegion (line : Nat)
  /-- There are no selections on some lines. -/
  | noSelections (first last : Nat)
  /-- A name is no name of a fragment. -/
  | badFragmentName
  /-- The region cannot be changed. -/
  | cannotReplace
  /-- A record is no connection field of a fragment. -/
  | noConnection (record : String)
deriving DecidableEq

/-- The text of an error. -/
def CommandError.message : CommandError → String
  | .cannotResolve path => "Failed to resolve " ++ path
  | .badConfig path => "Failed to load config " ++ path
  | .badProject => "Failed to load project"
  | .badSchema => "Failed to load schema"
  | .badDocuments pattern => "Invalid documents pattern '" ++ pattern ++ "'"
  | .unsupportedFile path => "Unsupported file type: " ++ path
  | .cannotRead path => "Failed to read " ++ path
  | .badExtractSettings => "Invalid extract settings"
  | .noRegion path line => "No embedded GraphQL at " ++ path ++ ":" ++ toString line
  | .badRegion => "Failed to parse embedded GraphQL"
  | .noHover => "Failed to resolve hover"
  | .noRecord record => "No node with record path '" ++ record ++ "'"
  | .cannotAddField => "Failed to add field"
  | .lineBeforeRegion line => "Line " ++ toString line ++ " is before the embedded GraphQL"
  | .noSelections first last =>
    "No selections to extract on lines " ++ toString first ++ "-" ++ toString last
  | .badFragmentName => "Invalid fragment name"
  | .cannotReplace => "Failed to rewrite fragment"
  | .noConnection record => "'" ++ record ++ "' is not a connection field of a fragment"

/-- What a command leads to. -/
structure Outcome where
  /-- The exit status. -/
  status : Nat := 0
  /-- What is written for the reader. -/
  output : String := ""
  /-- What is written about problems. -/
  problems : String := ""
  /-- Files that are written, with their texts. -/
  files : List (String × String) := []
deriving DecidableEq

namespace Outcome

/-- The outcome of a command that cannot be carried out. -/
def failed (e : CommandError) : Outcome :=
  { status := 1, problems := "Error: " ++ e.message ++ "\n" }

/-- An outcome, or that of a command that cannot be carried out. -/
def ofExcept : Except CommandError Outcome → Outcome
  | .ok outcome => outcome
  | .error e => failed e

/-- An outcome with a text about problems in front. -/
def warn (text : String) (outcome : Outcome) : Outcome :=
  { outcome with problems := text ++ outcome.problems }

end Outcome
end EmbeddedGraphQL
