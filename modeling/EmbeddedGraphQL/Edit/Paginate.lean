import EmbeddedGraphQL.Edit.Directive
import EmbeddedGraphQL.Edit.Scaffold
import EmbeddedGraphQL.Record

/-!
# Pagination

A connection is a field whose type has `edges`, each with a `node`. A connection inside a fragment
is paginated: the fragment can be fetched again by a query of its own and takes the size of a page
and where to start, and the field gets these two as arguments and a key that names the connection.

* `Schema.connectionNode?`: the type of the nodes of a connection.
* `Document.paginate?`: the document with a connection paginated.
-/

namespace EmbeddedGraphQL

/-- The type of the nodes of a connection type, if it is one. -/
def Schema.connectionNode? (schema : Schema) (typeName : String) : Option TypeRef := do
  let (_, edges) ← schema.fieldType? typeName "edges"
  let (_, node) ← schema.fieldType? edges.innerName "node"
  return node

namespace Pagination

/-- How many items a page has unless told otherwise. -/
def pageSize : String := "20"

/-- What makes a fragment fetchable by a query of its own. -/
def refetchArguments (fragmentName : String) : List Argument :=
  [⟨"queryName", .string (fragmentName ++ "PaginationQuery")⟩]

/-- What a paginated fragment takes. -/
def argumentDefinitions : List Argument :=
  [⟨"first", .object [("type", .string "Int"), ("defaultValue", .int pageSize)]⟩,
    ⟨"after", .object [("type", .string "String")]⟩]

/-- What a paginated field is given. -/
def fieldArguments : List Argument := [⟨"first", .var "first" none⟩, ⟨"after", .var "after" none⟩]

/-- The key that names a connection. -/
def connectionArguments (fragmentName fieldName : String) : List Argument :=
  [⟨"key", .string (fragmentName ++ "_" ++ fieldName)⟩]

/-- A fragment definition that can be paginated. -/
def paginateFragment (fragmentName : String) (node : Node) : Node :=
  node.withDirectives
    (Directive.merge "argumentDefinitions" argumentDefinitions
      (Directive.merge "refetchable" (refetchArguments fragmentName) node.directives))

/-- The selection of the nodes of a connection. -/
def edgesSelection (schema : Schema) (nodeType : TypeRef) : Selection :=
  Selection.newField "edges"
    [Selection.newField "node" (schema.scaffold nodeType.innerName 0)]

/-- A field that is paginated. -/
def paginateField (schema : Schema) (fragmentName : String) (nodeType : TypeRef) : Node → Node
  | .field f selections =>
    let edges :=
      if Selection.hasField selections "edges" then [] else [edgesSelection schema nodeType]
    .field
      { f with
        arguments := Argument.merge f.arguments fieldArguments
        directives :=
          Directive.merge "connection" (connectionArguments fragmentName f.name) f.directives }
      (selections ++ edges)
  | node => node

end Pagination

/-- The name of the fragment that is the definition of a number. -/
def Document.fragmentName? (d : Document) (index : Nat) : Option String :=
  match d.definitions[index]? with
  | some (.fragment f) => some f.name
  | _ => none

/-- The document with the connection of a path paginated; none if the path does not lead to a
connection inside a fragment. -/
def Document.paginate? (schema : Schema) (d : Document) (path : String) : Option Document := do
  let record ← Record.find? schema d path
  -- a declaration is what fields have and operations, fragments and `__typename` do not
  let _ ← record.declaration
  let nodeType ← schema.connectionNode? record.type.name
  let name ← d.fragmentName? record.address.definition
  let withFragment ←
    d.modify? (.ofDefinition record.address.definition) (Pagination.paginateFragment name)
  -- directives on the fragment move no selection, so the address of the field is still right
  match withFragment.get? record.address with
  | some (.field _ _) =>
    withFragment.modify? record.address (Pagination.paginateField schema name nodeType)
  | _ => none

end EmbeddedGraphQL
