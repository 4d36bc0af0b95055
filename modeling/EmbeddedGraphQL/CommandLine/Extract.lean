import EmbeddedGraphQL.CommandLine.Command
import EmbeddedGraphQL.CommandLine.Project
import EmbeddedGraphQL.Json.Write
import EmbeddedGraphQL.Text.Lines

/-!
# Listing regions

The regions of a file, or of the files in a directory. The documents that a project names, if it
does, are the only files of a directory that are looked at.

* `FileTree.hostFiles`: the files that are looked at.
* `extractCommand`: the command.
-/

namespace EmbeddedGraphQL
namespace FileTree

/-- The files at or below a path that are of a known language, by the order of names, at most
`depth` levels down. -/
def filesBelow (tree : FileTree) : Nat → String → List String
  | 0, _ => []
  | depth + 1, path =>
    if tree.isDirectory path then
      (tree.children path).flatMap fun name => filesBelow tree depth (Path.join path name)
    else if (HostLanguage.ofPath? path).isSome then [path]
    else []

/-- The places of the files of a known language that fit a pattern. -/
def documentPlaces (tree : FileTree) (base pattern : String) : Except CommandError (List Place) :=
  let pattern := Path.join base pattern
  match tree.glob? pattern with
  | none => .error (.badDocuments pattern)
  | some paths =>
    .ok ((paths.filter fun path =>
      tree.isFile path && (HostLanguage.ofPath? path).isSome).filterMap tree.resolve?)

/-- The files in a directory that fit one of some patterns, by the order of their names. -/
def documentFiles (tree : FileTree) (directory base : String) (patterns : List String) :
    Except CommandError (List String) := do
  match tree.resolve? directory with
  | none => throw (.cannotResolve directory)
  | some above =>
    let places := (← patterns.mapM (tree.documentPlaces base)).flatten
    let inside := (places.filter above.isPrefixOf).eraseDups
    return (inside.mergeSort fun a b => !(b < a)).map Place.path

/-- The files that are looked at for a path: the file itself, or those in the directory. -/
def hostFiles (tree : FileTree) (path : String) (config : Option (String × ProjectConfig)) :
    Except CommandError (List String) :=
  if !tree.isDirectory path then .ok [path]
  else
    let documents : Option (String × Patterns) := do
      let (configPath, config) ← config
      return (← Path.parent? configPath, ← config.documents)
    match documents with
    | some (base, patterns) => tree.documentFiles path base patterns.toList
    | none => .ok (tree.filesBelow (tree.entries.length + 1) path)

end FileTree

/-- A range as two lines and characters. -/
def Range.text (r : Range) : String :=
  toString r.start.line ++ ":" ++ toString r.start.character ++ "-" ++ toString r.stop.line ++
    ":" ++ toString r.stop.character

/-- A region, for people: its module and range, and its lines further in. -/
def Region.listing (r : Region) : String :=
  let lines := (Text.lines (Text.trim r.content.toList)).map fun line =>
    "    " ++ String.ofList line ++ "\n"
  "  " ++ r.label ++ " " ++ r.range.text ++ "\n" ++ String.join lines

/-- The regions of files, for people. Files without regions are only counted. -/
def regionsListing (files : List (String × List Region)) : String :=
  let listed := files.map fun (path, regions) =>
    if regions.isEmpty then "" else path ++ "\n" ++ String.join (regions.map Region.listing)
  let total := Text.total (·.2.length) files
  String.join listed ++ "\n✓ " ++ toString total ++ " GraphQL region(s) in " ++
    toString files.length ++ " file(s)\n"

/-- A position as a list of its line and character. -/
def Position.toJson (p : Position) : Json := .array [.ofNat p.line, .ofNat p.character]

/-- A region of a file, as JSON. -/
def Region.toJson (path : String) (r : Region) : Json :=
  .object [("file", .str path), ("module", .str r.label), ("start", r.range.start.toJson),
    ("end", r.range.stop.toJson), ("content", .str r.content)]

/-- The regions of files, as JSON. -/
def regionsJson (files : List (String × List Region)) : Json :=
  .array (files.flatMap fun (path, regions) => regions.map (Region.toJson path))

/-- Lists the regions of a file, or of the files in a directory. -/
def extractCommand (tree : FileTree) (given : Option String) (path : String)
    (style : OutputStyle) : Except CommandError Outcome := do
  let config ← tree.configFor given path
  let settings := (config.map (·.2.extract)).getD {}
  let files ← (← tree.hostFiles path config).mapM fun path => do
    let file ← HostFile.read tree path
    return (path, (← file.extractor settings.tags).extract file.text)
  match style with
  | .human => return { output := regionsListing files }
  | .json => return { output := (regionsJson files).pretty ++ "\n" }

end EmbeddedGraphQL
