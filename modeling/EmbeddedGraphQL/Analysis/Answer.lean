import EmbeddedGraphQL.Analysis.Tool

/-!
# Answers of the analysis tool

The JSON values that the program prints, read as hover texts and locations. A record in them is an
object, in which the last of several members with the same key counts, or a list of its fields.

* `AnalysisSettings.hover`: the text shown at a position.
* `AnalysisSettings.typeDefinition`: where the type of the value at a position is defined.
-/

namespace EmbeddedGraphQL

/-- The fields of a record with the given names. -/
def Json.fields? (names : List String) : Json → Option (List Json)
  | .object members => names.mapM (Json.last? members)
  | .array items => if items.length = names.length then some items else none
  | _ => none

/-- What an answer holds; null answers nothing. -/
def readAnswer {α : Type} (read? : Json → Option α) (answer : Option Json) :
    Except AnalysisError (Option α) :=
  match answer with
  | none => .ok none
  | some value =>
    if value.isNull then .ok none
    else
      match read? value with
      | some a => .ok (some a)
      | none => .error .badOutput

/-! ## Hover texts -/

/-- The text of hover contents: a text, or the text under `value` in an object. -/
def hoverContents? : Json → Option String
  | .str text => some text
  | .object members => Json.last? members "value" >>= Json.text?
  | _ => none

/-- The text of a hover answer. -/
def hoverText? (answer : Json) : Option String := do
  match ← answer.fields? ["contents"] with
  | [contents] => hoverContents? contents
  | _ => none

/-- The text shown at a position in a file. -/
def AnalysisSettings.hover (settings : AnalysisSettings) (tool : Tool) (tree : FileTree)
    (file : String) (position : Position) : Except AnalysisError (Option String) :=
  settings.run tool tree .hover file position >>= readAnswer hoverText?

/-! ## Locations -/

/-- A place in some document. -/
structure Location where
  /-- The address of the document. -/
  uri : String
  /-- The part of its text. -/
  range : Range
deriving DecidableEq

/-- The position a value stands for. -/
def Position.ofJson? (v : Json) : Option Position := do
  match ← v.fields? ["line", "character"] with
  | [line, character] => return ⟨← line.natural?, ← character.natural?⟩
  | _ => none

/-- The range a value stands for. -/
def Range.ofJson? (v : Json) : Option Range := do
  match ← v.fields? ["start", "end"] with
  | [start, stop] => return ⟨← Position.ofJson? start, ← Position.ofJson? stop⟩
  | _ => none

/-- The location a value stands for. -/
def Location.ofJson? (v : Json) : Option Location := do
  match ← v.fields? ["uri", "range"] with
  | [uri, range] => return ⟨← uri.text?, ← Range.ofJson? range⟩
  | _ => none

/-- Where the type of the value at a position in a file is defined. -/
def AnalysisSettings.typeDefinition (settings : AnalysisSettings) (tool : Tool) (tree : FileTree)
    (file : String) (position : Position) : Except AnalysisError (Option Location) :=
  settings.run tool tree .typeDefinition file position >>= readAnswer Location.ofJson?

end EmbeddedGraphQL
