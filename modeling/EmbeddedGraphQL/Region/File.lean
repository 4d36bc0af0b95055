import EmbeddedGraphQL.FileTree
import EmbeddedGraphQL.Region.Basic
import EmbeddedGraphQL.Region.Opening

/-!
# The regions of a host text

GraphQL is found in files that are GraphQL throughout, and in ReScript files that embed it. The name
of a file says its language; a file of an unknown language is not read.

An `Extractor` finds the regions of a host text. A text that is GraphQL throughout is one region.
In an embedding language the regions are found from left to right: each search starts after the
closing backtick of the region before, and a region that never closes ends the search.

* `HostLanguage.ofPath?`: the language of a file.
* `Extractor.make`: an extractor needs at least one tag.
* `Extractor.extract`: the regions of a text, from left to right.
* `FileTree.regions`: the regions of the text in a file.
-/

namespace EmbeddedGraphQL

/-! ## Languages -/

/-- A language in which GraphQL is found. -/
inductive HostLanguage where
  /-- The whole text is GraphQL. -/
  | graphQL
  /-- GraphQL stands in tagged templates. -/
  | reScript
deriving DecidableEq

namespace HostLanguage

/-- The language of a file, by the extension of its path. -/
def ofPath? (path : String) : Option HostLanguage :=
  match Path.extension? path with
  | some "graphql" | some "gql" => some .graphQL
  | some "res" | some "resi" => some .reScript
  | _ => none

/-- Whether GraphQL is embedded in texts of the language. -/
def isEmbedded : HostLanguage → Bool
  | .graphQL => false
  | .reScript => true

end HostLanguage

/-! ## Extraction -/

/-- Why regions cannot be extracted. -/
inductive ExtractError where
  /-- There is no tag to look for. -/
  | noTags
  /-- The file is of no known language. -/
  | unsupportedFileType (path : String)
  /-- The file cannot be read. -/
  | unreadable
deriving DecidableEq

/-- The text of an error; a file that cannot be read has none of its own. -/
def ExtractError.message : ExtractError → Option String
  | .noTags => some "No tag identifiers configured"
  | .unsupportedFileType path => some ("Unsupported file type: " ++ path)
  | .unreadable => none

/-- What to extract: the language of the host text and the tags that open a region. -/
structure Extractor where
  /-- The language of the host text. -/
  language : HostLanguage
  /-- The tags, at least one. -/
  tags : List String
deriving DecidableEq

namespace Extractor

/-- An extractor for a language and a list of tags, which must not be empty. -/
def make (language : HostLanguage) (tags : List String) : Except ExtractError Extractor :=
  if tags.isEmpty then .error .noTags else .ok ⟨language, tags⟩

/-- The name of the module declared on a line or, failing that, on the line before. -/
def moduleOf (text : List Char) (index : LineIndex) (line : Nat) : Option String :=
  let declaredOn (line : Nat) : Option (List Char) :=
    (index.lineSpan? line).bind fun span =>
      let rest := Text.dropBytes span.start text
      ModuleName.declared? (Text.takeBytes (span.stop - span.start) rest)
  let before := match line with
    | 0 => none
    | line + 1 => declaredOn line
  ((declaredOn line).or before).map String.ofList

/-- The regions of `rest`, the part of the host text `text` from byte offset `offset` on. -/
def regionsFrom (tags : List (List Char)) (text : List Char) (index : LineIndex) (offset : Nat)
    (rest : List Char) : List Region :=
  match _h : Opening.find? tags offset rest with
  | none => []
  | some opening =>
    -- an opening that is never closed is not passed over: whatever stands behind it is lost
    match closing? (Text.utf8 opening.rest) with
    | none => []
    | some length =>
      let stop := opening.stop + length
      { content := String.ofList (Text.takeBytes length opening.rest)
        moduleName := moduleOf text index (index.position opening.start).line
        offset := opening.stop
        length := length
        range := index.range ⟨opening.stop, stop⟩ } ::
      regionsFrom tags text index (stop + 1) (Text.dropBytes (length + 1) opening.rest)
termination_by rest.length
decreasing_by
  have h1 := Opening.length_of_find? _h
  have h2 := Text.length_dropBytes_le (length + 1) opening.rest
  omega

/-- The one region of a text that is GraphQL throughout. -/
def wholeText (text : String) : Region :=
  { content := text
    moduleName := none
    offset := 0
    length := text.utf8ByteSize
    range := ⟨.origin, (LineIndex.ofString text).position text.utf8ByteSize⟩ }

/-- The regions of a text, from left to right. -/
def extract (e : Extractor) (text : String) : List Region :=
  if e.language.isEmbedded then
    regionsFrom (e.tags.map String.toList) text.toList (LineIndex.ofString text) 0 text.toList
  else [wholeText text]

end Extractor

/-! ## Files -/

/-- The regions of the text in a file. -/
def FileTree.regions (tree : FileTree) (path : String) (tags : List String) :
    Except ExtractError (List Region) :=
  match HostLanguage.ofPath? path with
  | none => .error (.unsupportedFileType path)
  | some language =>
    match tree.readText? path with
    | none => .error .unreadable
    | some text => (Extractor.make language tags).map (·.extract text)

end EmbeddedGraphQL
