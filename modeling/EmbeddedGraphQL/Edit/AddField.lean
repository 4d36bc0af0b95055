import EmbeddedGraphQL.Edit.Error
import EmbeddedGraphQL.Edit.Scaffold
import EmbeddedGraphQL.Record

/-!
# Adding a field

A field is added at the end of the selections of a record, with a scaffolded selection under it if
its type needs one. A field that is there already stays as it is.
-/

namespace EmbeddedGraphQL

/-- A new selection of a field of a type. -/
def Schema.newSelection (schema : Schema) (typeName fieldName : String) :
    Except EditError Selection :=
  match schema.fieldType? typeName fieldName with
  | none => .error (.unknownField typeName fieldName)
  | some (_, type) => do
    let name ← checkedName fieldName
    return Selection.newField name (schema.scaffoldUnder type)

/-- The document with a field of a type added to the record of a path; none if there is no such
record. -/
def Document.addField (schema : Schema) (d : Document) (path typeName fieldName : String) :
    Except EditError (Option Document) :=
  match Record.locate? schema d path with
  | none => .ok none
  | some address =>
    match d.get? address with
    | none => .ok none
    | some node =>
      if Selection.hasField node.selections fieldName then .ok (some d)
      else do
        let field ← schema.newSelection typeName fieldName
        -- a node was found at the address, so the change cannot fail
        return some ((d.modify? address fun n =>
          n.withSelections (n.selections ++ [field])).getD d)

end EmbeddedGraphQL
