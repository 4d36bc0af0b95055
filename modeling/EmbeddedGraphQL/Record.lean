import EmbeddedGraphQL.Document.Grammar
import EmbeddedGraphQL.LineIndex
import EmbeddedGraphQL.Walk

/-!
# Records

A record is what a record path refers to in a document: an operation, a fragment, a field or an
inline fragment with a type condition. Where several have the same path, the first one in the order
of the walk is meant.

* `Record.locate?`: the address of the record of a path, whatever its type.
* `Record.find?`: the record of a path, if its type is known to the schema.
* `RecordContext.resolve`: the record of a path in a text.
-/

namespace EmbeddedGraphQL

/-- What a record path refers to. -/
structure Record where
  /-- Where in the document it stands. -/
  address : Address
  /-- Its type. -/
  type : SchemaType
  /-- Its declaration, if it is a field that has one. -/
  declaration : Option FieldDeclaration
  /-- Where in the source it stands. -/
  span : Option Span
  /-- Its description. -/
  description : Option String

namespace Record

/-- A place that may be a record: its type, its declaration, where it stands and its
description. -/
structure Candidate where
  /-- The type, if it is known. -/
  type : Option SchemaType
  /-- The declaration, if it is a field that has one. -/
  declaration : Option FieldDeclaration
  /-- Where it stands in the source. -/
  span : Option Span
  /-- The description. -/
  description : Option String

/-- A candidate that is described by its type. -/
def Candidate.ofType (type : Option SchemaType) (span : Option Span) : Candidate :=
  ⟨type, none, span, type.bind (·.description)⟩

/-- The candidate that is entered at a visit, if one is. -/
def candidate? (schema : Schema) (info : TypeInfo) : Visit → Option Candidate
  | .enterOperation o => some (.ofType (info.parentType schema) o.span)
  | .enterFragment f => some (.ofType (info.parentType schema) f.span)
  | .enterField f =>
    let declaration := info.fieldDeclaration
    some ⟨info.fieldNamedType schema, declaration, f.span, declaration.bind (·.description)⟩
  | .enterInline f =>
    if f.typeCondition.isSome then some (.ofType (info.parentType schema) f.span) else none
  | _ => none

/-- Keeps the first candidate of a path whose type is known; later ones of that path can only give
a description that is missing. -/
def capture (schema : Schema) (path : String) : Visitor (Option Record) := fun info visit found =>
  match candidate? schema info visit with
  | none => found
  | some c =>
    if info.path.agreesWith path then
      match found with
      | some record => some { record with description := record.description.or c.description }
      | none =>
        c.type.map fun type => ⟨info.address, type, c.declaration, c.span, c.description⟩
    else found

/-- The record of a path, if its type is known to the schema. -/
def find? (schema : Schema) (d : Document) (path : String) : Option Record :=
  Walk.document schema (capture schema path) d none

/-- Keeps the address of the first candidate of a path. -/
def locator (schema : Schema) (path : String) : Visitor (Option Address) := fun info visit found =>
  if found.isNone && (candidate? schema info visit).isSome && info.path.agreesWith path then
    some info.address
  else found

/-- The address of the record of a path, whatever its type. -/
def locate? (schema : Schema) (d : Document) (path : String) : Option Address :=
  Walk.document schema (locator schema path) d none

end Record

/-- What is told about the record of a path in a text. -/
structure RecordContext where
  /-- The type of the record. -/
  type : SchemaType
  /-- Where the record starts and ends in the text. -/
  range : Option Range
  /-- The description. -/
  description : Option String
  /-- The declared type of the field, as written. -/
  fieldType : Option String

namespace RecordContext

/-- What is told about a record of a text. -/
def ofRecord (source : String) (record : Record) : RecordContext :=
  { type := record.type
    range := record.span.map (LineIndex.ofString source).range
    description := record.description
    fieldType := record.declaration.map (·.type.text) }

/-- What is told about the record of a path in a text that stands for the document. -/
def inDocument? (schema : Schema) (d : Document) (source path : String) : Option RecordContext :=
  (Record.find? schema d path).map (ofRecord source)

/-- What is told about the record of a path in a text: nothing at all if the text is no document,
and none if there is no such record. -/
def resolve (schema : Schema) (source path : String) : Option (Option RecordContext) :=
  (Document.parse? source).map fun d => inDocument? schema d source path

end RecordContext
end EmbeddedGraphQL
