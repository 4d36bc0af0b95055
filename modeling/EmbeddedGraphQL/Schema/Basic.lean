import EmbeddedGraphQL.Document.Basic

/-!
# Schemas

A schema says which types and directives there are and on which types operations start. Types,
fields and values keep the order in which they were defined.

* `Schema.type?`, `Schema.directive?`, `Schema.root?`: look-up by name.
* `Schema.fieldType?`: the type of a field, of which `__typename` is one everywhere.
-/

namespace EmbeddedGraphQL

/-- A type of a schema. -/
structure SchemaType where
  /-- The name. -/
  name : String
  /-- The description. -/
  description : Option String
  /-- What the type is made of. -/
  body : TypeBody

/-- The kinds of types. -/
inductive TypeKind where
  /-- A type of single values. -/
  | scalar
  /-- A type with fields. -/
  | object
  /-- An abstract type with fields. -/
  | interface
  /-- An abstract type that is one of its members. -/
  | union
  /-- A type of named values. -/
  | enum
  /-- A type of named inputs. -/
  | inputObject
deriving DecidableEq

namespace TypeBody

/-- The kind of a type. -/
def kind : TypeBody → TypeKind
  | .scalar => .scalar
  | .object _ _ => .object
  | .interface _ _ => .interface
  | .union _ => .union
  | .enum _ => .enum
  | .inputObject _ => .inputObject

/-- The fields of an object or interface type. -/
def fields? : TypeBody → Option (List FieldDeclaration)
  | .object _ fields => some fields
  | .interface _ fields => some fields
  | _ => none

/-- The fields of an input type. -/
def inputs? : TypeBody → Option (List InputDeclaration)
  | .inputObject fields => some fields
  | _ => none

end TypeBody

/-- A schema. -/
structure Schema where
  /-- The types, in order. -/
  types : List SchemaType
  /-- The directives, in order. -/
  directives : List DirectiveDeclaration
  /-- The types on which operations start. -/
  roots : List (OperationKind × String)

/-- The field that names the type of an object, which every type has. -/
def typenameField : String := "__typename"

namespace Schema

/-- The type of a name. -/
def type? (schema : Schema) (name : String) : Option SchemaType :=
  schema.types.find? (·.name = name)

/-- The kind of the type of a name. -/
def kind? (schema : Schema) (name : String) : Option TypeKind :=
  (schema.type? name).map (·.body.kind)

/-- The directive of a name. -/
def directive? (schema : Schema) (name : String) : Option DirectiveDeclaration :=
  schema.directives.find? (·.name = name)

/-- The type on which operations of a kind start. -/
def root? (schema : Schema) (kind : OperationKind) : Option String :=
  (schema.roots.find? (·.1 = kind)).map (·.2)

/-- The declared fields of an object or interface type. -/
def fields? (schema : Schema) (typeName : String) : Option (List FieldDeclaration) :=
  (schema.type? typeName).bind (·.body.fields?)

/-- A declared field of an object or interface type. -/
def field? (schema : Schema) (typeName fieldName : String) : Option FieldDeclaration :=
  (schema.fields? typeName).bind fun fields => fields.find? (·.name = fieldName)

/-- The declared type of a field of an input type. -/
def inputType? (schema : Schema) (typeName fieldName : String) : Option TypeRef :=
  (((schema.type? typeName).bind (·.body.inputs?)).bind fun fields =>
    fields.find? (·.name = fieldName)).map (·.type)

/-- The declaration and the type of a field. The field `__typename` is there on any type and has no
declaration. -/
def fieldType? (schema : Schema) (typeName fieldName : String) :
    Option (Option FieldDeclaration × TypeRef) :=
  if fieldName = typenameField then some (none, .named "String" true)
  else (schema.field? typeName fieldName).map fun field => (some field, field.type)

/-- Whether a name is that of an interface or union. -/
def isAbstract (schema : Schema) (typeName : String) : Bool :=
  match schema.kind? typeName with
  | some .interface | some .union => true
  | _ => false

/-- Whether a name is that of an object, interface or union. -/
def isComposite (schema : Schema) (typeName : String) : Bool :=
  match schema.kind? typeName with
  | some .object | some .interface | some .union => true
  | _ => false

end Schema
end EmbeddedGraphQL
