import EmbeddedGraphQL.CommandLine.Project
import EmbeddedGraphQL.Edit.AddField
import EmbeddedGraphQL.Edit.ExtractFragment
import EmbeddedGraphQL.Edit.Paginate
import EmbeddedGraphQL.Region.Reformat

/-!
# Editing and reprinting regions

To edit, the region at a position is changed and shown; the file stays as it is. To reprint, every
region of a file is printed anew, and the text is shown, or written to the file if it has changed.

* `EditTarget.load`: the region at a position, as a document.
* `addFieldCommand`, `extractFragmentCommand`, `paginateCommand`: the commands that edit.
* `formatCommand`: the command that reprints.
-/

namespace EmbeddedGraphQL

/-! ## Editing -/

/-- The region at a position, as a document. -/
structure EditTarget where
  /-- The schema. -/
  schema : Schema
  /-- The region. -/
  region : Region
  /-- The document. -/
  document : Document

namespace EditTarget

/-- The region at a position of a file. -/
def load (tree : FileTree) (given : Option String) (file : String) (position : Position) :
    Except CommandError EditTarget := do
  let workspace ← tree.workspaceFor given file
  let host ← HostFile.read tree file
  let region ← host.regionAt workspace.config.extract position
  match Document.parse? region.content with
  | none => throw .badRegion
  | some document => return ⟨workspace.schema, region, document⟩

/-- A document in place of the region, up to its last character that is not blank. -/
def text (target : EditTarget) (d : Document) : String :=
  Text.trimEndString (target.region.printed d) ++ "\n"

/-- A line of the host file as a line of the region. -/
def localLine (target : EditTarget) (line : Nat) : Except CommandError Nat :=
  let start := target.region.range.start.line
  if line < start then .error (.lineBeforeRegion line) else .ok (line - start)

end EditTarget

/-- Adds a field to the record of a path in the region at a position. -/
def addFieldCommand (tree : FileTree) (given : Option String) (file : String) (position : Position)
    (record field : String) : Except CommandError Outcome := do
  let target ← EditTarget.load tree given file position
  match Record.find? target.schema target.document record with
  | none => throw (.noRecord record)
  | some found =>
    match target.document.addField target.schema record found.type.name field with
    | .error _ => throw .cannotAddField
    | .ok none => throw (.noRecord record)
    | .ok (some changed) => return { output := target.text changed }

/-- The new fragment, and the region with a spread of it. -/
def showExtracted (target : EditTarget) (plan : FragmentPlan) (name : String) :
    Except CommandError Outcome :=
  match plan.definition name, target.document.replaceWithSpread plan name with
  | .error _, _ => .error .badFragmentName
  | .ok _, .error _ => .error .cannotReplace
  | .ok fragment, .ok changed =>
    .ok { output := Printer.fragment (.lines 0) fragment ++ "\n\n" ++ target.text changed }

/-- What is told about variables whose types are not known. -/
def unresolvedWarning (names : List String) : String :=
  if names.isEmpty then ""
  else "⚠ Could not determine types for: " ++ ", ".intercalate names ++ "\n"

/-- Moves the selections on some lines of the region at a position into a fragment. -/
def extractFragmentCommand (tree : FileTree) (given : Option String) (file : String)
    (position : Position) (lines : LineRange) (name : String) : Except CommandError Outcome := do
  let target ← EditTarget.load tree given file position
  let own : LineRange := ⟨← target.localLine lines.first, ← target.localLine lines.last⟩
  match FragmentPlan.find? target.schema target.document target.region.content own with
  | none => throw (.noSelections lines.first lines.last)
  | some plan =>
    let shown := Outcome.ofExcept (showExtracted target plan name)
    return shown.warn (unresolvedWarning plan.unresolved)

/-- Sets up pagination of the record of a path in the region at a position. -/
def paginateCommand (tree : FileTree) (given : Option String) (file : String) (position : Position)
    (record : String) : Except CommandError Outcome := do
  let target ← EditTarget.load tree given file position
  match target.document.paginate? target.schema record with
  | none => throw (.noConnection record)
  | some changed => return { output := target.text changed }

/-! ## Reprinting -/

/-- Reprints every region of a file, in place or not. -/
def formatCommand (tree : FileTree) (given : Option String) (path : String) (write : Bool) :
    Except CommandError Outcome := do
  let file ← HostFile.read tree path
  let settings ← tree.extractSettingsFor given path
  let regions := (← file.extractor settings.tags).extract file.text
  let text := Region.reformat regions file.text
  let skipped := Region.unreadable regions
  let outcome : Outcome :=
    if write then
      { output := "✓ Formatted " ++ toString (regions.length - skipped) ++ " region(s)\n"
        files := if text = file.text then [] else [(path, text)] }
    else { output := text }
  if skipped = 0 then return outcome
  else
    return outcome.warn ("⚠ " ++ toString skipped ++
      " region(s) could not be parsed and were left as they were\n")

end EmbeddedGraphQL
