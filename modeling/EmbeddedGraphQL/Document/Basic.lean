import EmbeddedGraphQL.Document.Value

/-!
# Documents

A GraphQL document is a list of definitions: operations and fragments, and the definitions and
extensions of types, directives and schemas. Every definition and every selection remembers where
it stands in the source it was read from; what an edit puts in stands nowhere. Two documents are
the same when they are equal up to those places.

* `Selection`, `Operation`, `Fragment`: what is executed.
* `TypeDeclaration`, `DirectiveDeclaration`: what a schema is made of.
* `Document`: a list of definitions, `Document.same` its equality up to places.
-/

namespace EmbeddedGraphQL

/-- A field, without the selections under it. -/
structure Field where
  /-- The name the result is given under, if it is not the field's. -/
  aliasName : Option String
  /-- The name of the field. -/
  name : String
  /-- The arguments. -/
  arguments : List Argument
  /-- The directives. -/
  directives : List Directive
  /-- Where the field stands. -/
  span : Option Span

/-- An inline fragment, without the selections under it. -/
structure InlineFragment where
  /-- The type the selections are for, if it differs from the enclosing one. -/
  typeCondition : Option String
  /-- The directives. -/
  directives : List Directive
  /-- Where the inline fragment stands. -/
  span : Option Span

/-- A reference to a fragment. -/
structure FragmentSpread where
  /-- The name of the fragment. -/
  name : String
  /-- The directives. -/
  directives : List Directive
  /-- Where the spread stands. -/
  span : Option Span

/-- One entry of a selection set. -/
inductive Selection where
  /-- A field with the selections under it. -/
  | field (field : Field) (selections : List Selection)
  /-- An inline fragment with the selections under it. -/
  | inline (fragment : InlineFragment) (selections : List Selection)
  /-- A reference to a fragment. -/
  | spread (spread : FragmentSpread)

namespace Selection

/-- Where a selection stands. -/
def span : Selection → Option Span
  | .field f _ => f.span
  | .inline f _ => f.span
  | .spread s => s.span

/-- The selections under a selection; a spread has none. -/
def children : Selection → List Selection
  | .field _ selections => selections
  | .inline _ selections => selections
  | .spread _ => []

/-- The directives of a selection. -/
def directives : Selection → List Directive
  | .field f _ => f.directives
  | .inline f _ => f.directives
  | .spread s => s.directives

/-- A field of the given name and selections that stands nowhere. -/
def newField (name : String) (selections : List Selection) : Selection :=
  .field ⟨none, name, [], [], none⟩ selections

/-- Whether one of the selections is a field of the given name, whatever its alias. -/
def hasField (selections : List Selection) (name : String) : Bool :=
  selections.any fun
    | .field f _ => f.name = name
    | _ => false

end Selection

/-- The kinds of operations. -/
inductive OperationKind where
  /-- Reads. -/
  | query
  /-- Writes, then reads. -/
  | mutation
  /-- Reads on every event. -/
  | subscription
deriving DecidableEq

/-- The keyword of an operation kind. -/
def OperationKind.keyword : OperationKind → String
  | .query => "query"
  | .mutation => "mutation"
  | .subscription => "subscription"

/-- The operation kind of a keyword. -/
def OperationKind.ofKeyword? : String → Option OperationKind
  | "query" => some .query
  | "mutation" => some .mutation
  | "subscription" => some .subscription
  | _ => none

/-- A variable of an operation. -/
structure VariableDefinition where
  /-- The name, without the `$`. -/
  name : String
  /-- The type. -/
  type : TypeRef
  /-- The value if none is given. -/
  default : Option Value
  /-- The directives. -/
  directives : List Directive

/-- An operation. -/
structure Operation where
  /-- The kind. -/
  kind : OperationKind
  /-- The name, if it has one. -/
  name : Option String
  /-- The variables. -/
  variableDefinitions : List VariableDefinition
  /-- The directives. -/
  directives : List Directive
  /-- What is selected on the root type. -/
  selections : List Selection
  /-- Where the operation stands. -/
  span : Option Span

/-- A fragment definition. -/
structure Fragment where
  /-- The name. -/
  name : String
  /-- The type the selections are for. -/
  typeCondition : String
  /-- The directives. -/
  directives : List Directive
  /-- What is selected on that type. -/
  selections : List Selection
  /-- Where the fragment stands. -/
  span : Option Span

/-- An argument of a field or directive, or a field of an input type, as declared. -/
structure InputDeclaration where
  /-- The description. -/
  description : Option String
  /-- The name. -/
  name : String
  /-- The type. -/
  type : TypeRef
  /-- The value if none is given. -/
  default : Option Value
  /-- The directives. -/
  directives : List Directive

/-- A field of an object or interface type, as declared. -/
structure FieldDeclaration where
  /-- The description. -/
  description : Option String
  /-- The name. -/
  name : String
  /-- The arguments. -/
  arguments : List InputDeclaration
  /-- The type. -/
  type : TypeRef
  /-- The directives. -/
  directives : List Directive

/-- A value of an enum type, as declared. -/
structure EnumDeclaration where
  /-- The description. -/
  description : Option String
  /-- The name. -/
  name : String
  /-- The directives. -/
  directives : List Directive

/-- What a type is made of. -/
inductive TypeBody where
  /-- A type of single values. -/
  | scalar
  /-- A type with fields. -/
  | object (interfaces : List String) (fields : List FieldDeclaration)
  /-- An abstract type with fields. -/
  | interface (interfaces : List String) (fields : List FieldDeclaration)
  /-- An abstract type that is one of its members. -/
  | union (members : List String)
  /-- A type of named values. -/
  | enum (values : List EnumDeclaration)
  /-- A type of named inputs. -/
  | inputObject (fields : List InputDeclaration)

/-- The definition or extension of a type. -/
structure TypeDeclaration where
  /-- The name of the type. -/
  name : String
  /-- The directives. -/
  directives : List Directive
  /-- What the type is made of, or what is added to it. -/
  body : TypeBody

/-- The definition of a directive. -/
structure DirectiveDeclaration where
  /-- The name, without the `@`. -/
  name : String
  /-- The arguments. -/
  arguments : List InputDeclaration
  /-- Whether the directive may be repeated on one part of a document. -/
  repeatable : Bool
  /-- The places where the directive may stand. -/
  locations : List String

/-- The definition or extension of a schema. -/
structure SchemaDeclaration where
  /-- The directives. -/
  directives : List Directive
  /-- The root types by operation kind. -/
  roots : List (OperationKind × String)

/-- One definition of a document. -/
inductive Definition where
  /-- An operation. -/
  | operation (operation : Operation)
  /-- A fragment. -/
  | fragment (fragment : Fragment)
  /-- The definition of a directive. -/
  | directive (description : Option String) (directive : DirectiveDeclaration) (span : Option Span)
  /-- The definition of a schema. -/
  | schema (description : Option String) (schema : SchemaDeclaration) (span : Option Span)
  /-- The extension of a schema. -/
  | schemaExtension (schema : SchemaDeclaration) (span : Option Span)
  /-- The definition of a type. -/
  | type (description : Option String) (type : TypeDeclaration) (span : Option Span)
  /-- The extension of a type. -/
  | typeExtension (type : TypeDeclaration) (span : Option Span)

namespace Definition

/-- Where a definition stands, its description included. -/
def span : Definition → Option Span
  | .operation o => o.span
  | .fragment f => f.span
  | .directive _ _ span => span
  | .schema _ _ span => span
  | .schemaExtension _ span => span
  | .type _ _ span => span
  | .typeExtension _ span => span

/-- The name of a definition. -/
def name? : Definition → Option String
  | .operation o => o.name
  | .fragment f => some f.name
  | .directive _ d _ => some d.name
  | .schema _ _ _ => none
  | .schemaExtension _ _ => none
  | .type _ t _ => some t.name
  | .typeExtension t _ => some t.name

/-- Whether a definition is an operation or a fragment of the given name. -/
def isExecutableNamed (d : Definition) (name : String) : Bool :=
  match d with
  | .operation o => o.name = some name
  | .fragment f => f.name = name
  | _ => false

end Definition

/-- A GraphQL document. -/
structure Document where
  /-- The definitions, in order. -/
  definitions : List Definition

end EmbeddedGraphQL
