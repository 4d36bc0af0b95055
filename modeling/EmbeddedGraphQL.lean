import EmbeddedGraphQL.Text.Measure
import EmbeddedGraphQL.Text.Blank
import EmbeddedGraphQL.Text.Word
import EmbeddedGraphQL.Text.Alphanumeric
import EmbeddedGraphQL.Text.Lines
import EmbeddedGraphQL.Position
import EmbeddedGraphQL.LineIndex
import EmbeddedGraphQL.Path
import EmbeddedGraphQL.Region.Basic
import EmbeddedGraphQL.Region.Opening
import EmbeddedGraphQL.SourceCache
import EmbeddedGraphQL.Indentation
import EmbeddedGraphQL.RecordPath
import EmbeddedGraphQL.HoverText
import EmbeddedGraphQL.Document.Value
import EmbeddedGraphQL.Document.Basic
import EmbeddedGraphQL.Document.Same
import EmbeddedGraphQL.Document.Token
import EmbeddedGraphQL.Document.Grammar
import EmbeddedGraphQL.Document.Printer
import EmbeddedGraphQL.Region.Defining
import EmbeddedGraphQL.Schema.Basic
import EmbeddedGraphQL.Schema.Builtin
import EmbeddedGraphQL.Schema.Build
import EmbeddedGraphQL.Address
import EmbeddedGraphQL.Walk
import EmbeddedGraphQL.Record
import EmbeddedGraphQL.Edit.Error
import EmbeddedGraphQL.Edit.Directive
import EmbeddedGraphQL.Edit.Scaffold
import EmbeddedGraphQL.Edit.AddField
import EmbeddedGraphQL.Edit.Paginate
import EmbeddedGraphQL.Edit.Enclosing
import EmbeddedGraphQL.Edit.ExtractFragment
import EmbeddedGraphQL.Text.CodePoint
import EmbeddedGraphQL.Text.Decimal
import EmbeddedGraphQL.Json.Basic
import EmbeddedGraphQL.Json.Quoted
import EmbeddedGraphQL.Json.Double
import EmbeddedGraphQL.Json.Number
import EmbeddedGraphQL.Json.Read
import EmbeddedGraphQL.Json.Write
import EmbeddedGraphQL.Yaml.Cursor
import EmbeddedGraphQL.Yaml.BlockScalar
import EmbeddedGraphQL.Yaml.Property
import EmbeddedGraphQL.Yaml.Directive
import EmbeddedGraphQL.Yaml.Token
import EmbeddedGraphQL.Yaml.Node
import EmbeddedGraphQL.Yaml.Scalar
import EmbeddedGraphQL.Config.Record
import EmbeddedGraphQL.Config.Basic
import EmbeddedGraphQL.Config.Load
import EmbeddedGraphQL.FileTree
import EmbeddedGraphQL.Glob.Pattern
import EmbeddedGraphQL.Glob.Expand
import EmbeddedGraphQL.Config.Find
import EmbeddedGraphQL.Workspace.Error
import EmbeddedGraphQL.Workspace.SchemaFiles
import EmbeddedGraphQL.Workspace.Cache
import EmbeddedGraphQL.Region.File
import EmbeddedGraphQL.Analysis.Tool
import EmbeddedGraphQL.Analysis.Answer
import EmbeddedGraphQL.Analysis.Resolve
import EmbeddedGraphQL.Region.Reformat
import EmbeddedGraphQL.CommandLine.Command
import EmbeddedGraphQL.CommandLine.Arguments
import EmbeddedGraphQL.CommandLine.Outcome
import EmbeddedGraphQL.CommandLine.Project
import EmbeddedGraphQL.CommandLine.Extract
import EmbeddedGraphQL.CommandLine.Context
import EmbeddedGraphQL.CommandLine.Edit
import EmbeddedGraphQL.CommandLine.Run
import EmbeddedGraphQL.Main
import EmbeddedGraphQL.Proofs.Lists
import EmbeddedGraphQL.Proofs.Address.Lens
import EmbeddedGraphQL.Proofs.Walk.Visits
import EmbeddedGraphQL.Proofs.Walk.Standing
import EmbeddedGraphQL.Proofs.Walk.Preorder
import EmbeddedGraphQL.Proofs.Document.Lexemes
import EmbeddedGraphQL.Proofs.Record.Lookup
import EmbeddedGraphQL.Proofs.Document.Grammatical
import EmbeddedGraphQL.Proofs.Document.Reading
import EmbeddedGraphQL.Proofs.Document.Placement
import EmbeddedGraphQL.Proofs.Edit.Enclosing
import EmbeddedGraphQL.Proofs.Edit.Inlining
import EmbeddedGraphQL.Proofs.Region.Closing
import EmbeddedGraphQL.Proofs.Document.Glyphs
import EmbeddedGraphQL.Proofs.Document.SameParts
import EmbeddedGraphQL.Proofs.Region.Splitting
import EmbeddedGraphQL.Proofs.Document.Surroundings
import EmbeddedGraphQL.Proofs.Document.Written
import EmbeddedGraphQL.Proofs.Document.PrintedGlyphs
import EmbeddedGraphQL.Proofs.Document.ReadGlyphs
import EmbeddedGraphQL.Proofs.Document.RereadParts
import EmbeddedGraphQL.Proofs.Document.RereadDefinitions
import EmbeddedGraphQL.Proofs.Document.Reprinting
import EmbeddedGraphQL.Proofs.Region.Format
import EmbeddedGraphQL.Proofs.LineIndex.Reached
import EmbeddedGraphQL.Proofs.Region.Scanning
import EmbeddedGraphQL.Proofs.Region.Coordinates
import EmbeddedGraphQL.Proofs.Record.Uniqueness
import EmbeddedGraphQL.Proofs.Document.TokenText
import EmbeddedGraphQL.Proofs.Document.Between
import EmbeddedGraphQL.Proofs.Document.Spans
import EmbeddedGraphQL.Proofs.Record.FirstMatch
import EmbeddedGraphQL.Proofs.Document.VariableUses
import EmbeddedGraphQL.Proofs.Walk.Variables
import EmbeddedGraphQL.Proofs.Document.Nesting
import EmbeddedGraphQL.Proofs.Record.Hovered
import EmbeddedGraphQL.Proofs.SourceCache.Run
import EmbeddedGraphQL.Proofs.SourceCache.Recency
import EmbeddedGraphQL.Proofs.SourceCache.Transparency
import EmbeddedGraphQL.Proofs.Text.Pieces
import EmbeddedGraphQL.Proofs.LineIndex.Table
import EmbeddedGraphQL.Proofs.LineIndex.Checked
import EmbeddedGraphQL.Proofs.LineIndex.Counting
import EmbeddedGraphQL.Proofs.LineIndex.RoundTrip
import EmbeddedGraphQL.Proofs.Region.Gaps
import EmbeddedGraphQL.Proofs.Walk.Inherited
import EmbeddedGraphQL.Proofs.Schema.Built
import EmbeddedGraphQL.Proofs.Typing.WellTyped
import EmbeddedGraphQL.Proofs.Typing.Scaffold
import EmbeddedGraphQL.Proofs.Edit.AddedField
import EmbeddedGraphQL.Proofs.Edit.Paginated
import EmbeddedGraphQL.Proofs.Document.Exchange
import EmbeddedGraphQL.Proofs.Document.Printed
import EmbeddedGraphQL.Proofs.Edit.Reparsing
import EmbeddedGraphQL.Proofs.Workspace.Run
import EmbeddedGraphQL.Proofs.Workspace.FirstLoad
import EmbeddedGraphQL.Proofs.Region.TagOrder
import EmbeddedGraphQL.Proofs.Json.RoundTrip
import EmbeddedGraphQL.Proofs.Config.Serialized
import EmbeddedGraphQL.Proofs.Document.SamePrinted
import EmbeddedGraphQL.Proofs.Document.Unbroken
import EmbeddedGraphQL.Proofs.Region.Idempotent
import EmbeddedGraphQL.Proofs.Edit.Innermost
import EmbeddedGraphQL.Proofs.Edit.Smallest
import EmbeddedGraphQL.Proofs.Document.VariableSpans
import EmbeddedGraphQL.Proofs.Edit.CollectedVariables
import EmbeddedGraphQL.Proofs.Schema.Named
import EmbeddedGraphQL.Proofs.Edit.DeclaredTypes
import EmbeddedGraphQL.Proofs.Walk.Growth
import EmbeddedGraphQL.Proofs.Record.Stable
import EmbeddedGraphQL.Proofs.Edit.AppendedField
import EmbeddedGraphQL.Proofs.Edit.Repaginated
import EmbeddedGraphQL.Proofs.Address.Lawful
import EmbeddedGraphQL.Proofs.Edit.Merging
import EmbeddedGraphQL.Proofs.Record.Moved
import EmbeddedGraphQL.Proofs.Record.Shape
import EmbeddedGraphQL.Proofs.Edit.InsertedSpread
import EmbeddedGraphQL.Proofs.Typing.ScaffoldSets
import EmbeddedGraphQL.Proofs.Text.Runs
import EmbeddedGraphQL.Proofs.Indentation.Restored
import EmbeddedGraphQL.Proofs.Region.Selected
import EmbeddedGraphQL.Proofs.HoverText.LastBlock
import EmbeddedGraphQL.Proofs.LineIndex.Lines
import EmbeddedGraphQL.Proofs.Region.Declared
import EmbeddedGraphQL.Proofs.Region.Undisturbed
import EmbeddedGraphQL.Proofs.Region.Checked
import EmbeddedGraphQL.Proofs.Edit.ReplacedSelections
import EmbeddedGraphQL.Proofs.Text.Cuts
import EmbeddedGraphQL.Proofs.LineIndex.Bisection
import EmbeddedGraphQL.Proofs.LineIndex.Divided
import EmbeddedGraphQL.Proofs.RecordPath.Joined
import EmbeddedGraphQL.Proofs.RecordPath.Steps
