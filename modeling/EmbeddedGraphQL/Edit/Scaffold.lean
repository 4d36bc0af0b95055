import EmbeddedGraphQL.Schema.Basic

/-!
# Scaffolded selections

A field of a composite type needs selections. Where none are given, a small selection is made up:
the type's first field, with a selection under it if that field needs one again, to a bounded
depth. Selections on an abstract type start with `__typename`.

* `Schema.firstField?`: the field to select first.
* `Schema.scaffold`: selections for a type.
-/

namespace EmbeddedGraphQL
namespace Schema

/-- How many levels of fields are scaffolded. -/
def scaffoldDepth : Nat := 3

/-- The field to select first on an object or interface type: `id` if there is one, on the root of
mutations a field of an object type, otherwise the first one declared. -/
def firstField? (schema : Schema) (typeName : String) : Option FieldDeclaration := do
  let fields ← schema.fields? typeName
  let id := fields.find? (·.name = "id")
  let ofObject :=
    if schema.root? .mutation = some typeName then
      fields.find? fun f => schema.kind? f.type.innerName = some .object
    else none
  (id.or ofObject).or fields.head?

/-- The selection of the type's name. -/
def typenameSelection : Selection := Selection.newField typenameField []

/-- Selections on a type, with fields on so many levels. -/
def scaffoldLevels (schema : Schema) : Nat → String → List Selection
  | 0, _ => [typenameSelection]
  | levels + 1, typeName =>
    let own := if schema.isAbstract typeName then [typenameSelection] else []
    let first := match schema.firstField? typeName with
      | none => []
      | some f =>
        let inner := f.type.innerName
        let nested := if schema.isComposite inner then scaffoldLevels schema levels inner else []
        [Selection.newField f.name nested]
    let selections := own ++ first
    -- a selection set must hold something
    if selections.isEmpty then [typenameSelection] else selections

/-- Selections for a type that stands at a depth of a scaffold. -/
def scaffold (schema : Schema) (typeName : String) (depth : Nat) : List Selection :=
  scaffoldLevels schema (scaffoldDepth - depth) typeName

/-- The selections under a field of a type: none unless the type is composite. -/
def scaffoldUnder (schema : Schema) (type : TypeRef) : List Selection :=
  if schema.isComposite type.innerName then schema.scaffold type.innerName 0 else []

end Schema
end EmbeddedGraphQL
