import EmbeddedGraphQL.Document.Basic

/-!
# Equality up to places

Two documents are the same when they differ at most in the places their parts remember. Edits are
compared by this equality.
-/

namespace EmbeddedGraphQL

/-- Whether two options are both empty or hold what `eq` accepts. -/
def sameOption {α : Type} (eq : α → α → Bool) : Option α → Option α → Bool
  | none, none => true
  | some a, some b => eq a b
  | _, _ => false

/-- Whether two lists of directives are the same. -/
def sameDirectives : List Directive → List Directive → Bool := sameList Directive.same

namespace Selection

/-- Whether two fields are the same, the selections under them apart. -/
def sameHead (a b : Field) : Bool :=
  a.aliasName == b.aliasName && a.name == b.name &&
    sameList Argument.same a.arguments b.arguments && sameDirectives a.directives b.directives

mutual

/-- Whether two selections are the same. -/
def same : Selection → Selection → Bool
  | .field a as, .field b bs => sameHead a b && sameSet as bs
  | .inline a as, .inline b bs =>
    a.typeCondition == b.typeCondition && sameDirectives a.directives b.directives && sameSet as bs
  | .spread a, .spread b => a.name == b.name && sameDirectives a.directives b.directives
  | _, _ => false

/-- Whether two selection sets are the same. -/
def sameSet : List Selection → List Selection → Bool
  | [], [] => true
  | a :: as, b :: bs => a.same b && sameSet as bs
  | _, _ => false

end

end Selection

/-- Whether two variable definitions are the same. -/
def VariableDefinition.same (a b : VariableDefinition) : Bool :=
  a.name == b.name && a.type == b.type && sameOption Value.same a.default b.default &&
    sameDirectives a.directives b.directives

/-- Whether two operations are the same. -/
def Operation.same (a b : Operation) : Bool :=
  a.kind == b.kind && a.name == b.name &&
    sameList VariableDefinition.same a.variableDefinitions b.variableDefinitions &&
    sameDirectives a.directives b.directives && Selection.sameSet a.selections b.selections

/-- Whether two fragments are the same. -/
def Fragment.same (a b : Fragment) : Bool :=
  a.name == b.name && a.typeCondition == b.typeCondition &&
    sameDirectives a.directives b.directives && Selection.sameSet a.selections b.selections

/-- Whether two input declarations are the same. -/
def InputDeclaration.same (a b : InputDeclaration) : Bool :=
  a.description == b.description && a.name == b.name && a.type == b.type &&
    sameOption Value.same a.default b.default && sameDirectives a.directives b.directives

/-- Whether two field declarations are the same. -/
def FieldDeclaration.same (a b : FieldDeclaration) : Bool :=
  a.description == b.description && a.name == b.name &&
    sameList InputDeclaration.same a.arguments b.arguments && a.type == b.type &&
    sameDirectives a.directives b.directives

/-- Whether two enum values are the same. -/
def EnumDeclaration.same (a b : EnumDeclaration) : Bool :=
  a.description == b.description && a.name == b.name && sameDirectives a.directives b.directives

/-- Whether two types are made of the same. -/
def TypeBody.same : TypeBody → TypeBody → Bool
  | .scalar, .scalar => true
  | .object is fs, .object js gs => is == js && sameList FieldDeclaration.same fs gs
  | .interface is fs, .interface js gs => is == js && sameList FieldDeclaration.same fs gs
  | .union ms, .union ns => ms == ns
  | .enum vs, .enum ws => sameList EnumDeclaration.same vs ws
  | .inputObject fs, .inputObject gs => sameList InputDeclaration.same fs gs
  | _, _ => false

/-- Whether two type declarations are the same. -/
def TypeDeclaration.same (a b : TypeDeclaration) : Bool :=
  a.name == b.name && sameDirectives a.directives b.directives && a.body.same b.body

/-- Whether two directive declarations are the same. -/
def DirectiveDeclaration.same (a b : DirectiveDeclaration) : Bool :=
  a.name == b.name && sameList InputDeclaration.same a.arguments b.arguments &&
    a.repeatable == b.repeatable && a.locations == b.locations

/-- Whether two schema declarations are the same. -/
def SchemaDeclaration.same (a b : SchemaDeclaration) : Bool :=
  sameDirectives a.directives b.directives && a.roots == b.roots

/-- Whether two definitions are the same. -/
def Definition.same : Definition → Definition → Bool
  | .operation a, .operation b => a.same b
  | .fragment a, .fragment b => a.same b
  | .directive d a _, .directive e b _ => d == e && a.same b
  | .schema d a _, .schema e b _ => d == e && a.same b
  | .schemaExtension a _, .schemaExtension b _ => a.same b
  | .type d a _, .type e b _ => d == e && a.same b
  | .typeExtension a _, .typeExtension b _ => a.same b
  | _, _ => false

/-- Whether two documents are the same. -/
def Document.same (a b : Document) : Bool := sameList Definition.same a.definitions b.definitions

end EmbeddedGraphQL
