import EmbeddedGraphQL.Address
import EmbeddedGraphQL.RecordPath
import EmbeddedGraphQL.Schema.Basic

/-!
# Typed walk

A walk visits the operations and fragments of a document from the outside in and from left to
right. It carries a `TypeInfo` along: stacks of the types that selections are made on, of the
fields around the current place and of the types that values are expected to have, the record path
and the address. What is entered is pushed before it is visited and popped when it is left.

* `Visit`: what is visited.
* `TypeInfo`: what is known at the place of a visit.
* `Walk.document`: the walk through a document, for any visitor.
-/

namespace EmbeddedGraphQL

/-- What a walk visits. -/
inductive Visit where
  /-- An operation, before its parts. -/
  | enterOperation (operation : Operation)
  /-- An operation, after its parts. -/
  | leaveOperation (operation : Operation)
  /-- A fragment definition, before its parts. -/
  | enterFragment (fragment : Fragment)
  /-- A fragment definition, after its parts. -/
  | leaveFragment (fragment : Fragment)
  /-- A selection set that is not empty, and where its owner stands. -/
  | enterSet (selections : List Selection) (owner : Option Span)
  /-- A field, before its parts. -/
  | enterField (field : Field)
  /-- A field, after its parts. -/
  | leaveField (field : Field)
  /-- An inline fragment, before its parts. -/
  | enterInline (fragment : InlineFragment)
  /-- An inline fragment, after its parts. -/
  | leaveInline (fragment : InlineFragment)
  /-- A spread. -/
  | spread (spread : FragmentSpread)
  /-- A variable in a value, and where it stands. -/
  | var (name : String) (span : Option Span)

/-- What is known at a place of a walk. The innermost entry of each stack comes first. -/
structure TypeInfo where
  /-- The types that the enclosing selection sets select on. -/
  parentTypes : List (Option String)
  /-- The declarations of the enclosing fields. -/
  fieldDeclarations : List (Option FieldDeclaration)
  /-- The types of the enclosing fields. -/
  fieldTypes : List (Option TypeRef)
  /-- The types that the enclosing values are expected to have. -/
  inputTypes : List (Option TypeRef)
  /-- The record path of the current place. -/
  path : RecordPath
  /-- The address of the current place. -/
  address : Address

namespace TypeInfo

/-- What is known before a walk. -/
def initial : TypeInfo := ⟨[], [], [], [], .root, .ofDefinition 0⟩

/-- The name of the type that the innermost selection set selects on. -/
def parentTypeName (info : TypeInfo) : Option String := info.parentTypes.head?.join

/-- The type that the innermost selection set selects on, if the schema has it. -/
def parentType (info : TypeInfo) (schema : Schema) : Option SchemaType :=
  info.parentTypeName.bind schema.type?

/-- The declaration of the innermost field. -/
def fieldDeclaration (info : TypeInfo) : Option FieldDeclaration :=
  info.fieldDeclarations.head?.join

/-- The type of the innermost field. -/
def fieldType (info : TypeInfo) : Option TypeRef := info.fieldTypes.head?.join

/-- The named type inside the type of the innermost field, if the schema has it. -/
def fieldNamedType (info : TypeInfo) (schema : Schema) : Option SchemaType :=
  info.fieldType.bind fun type => schema.type? type.innerName

/-- The type the current value is expected to have. -/
def inputType (info : TypeInfo) : Option TypeRef := info.inputTypes.head?.join

/-- Inside a selection set on a type. -/
def pushParent (info : TypeInfo) (type : Option String) : TypeInfo :=
  { info with parentTypes := type :: info.parentTypes }

/-- Outside the innermost selection set. -/
def popParent (info : TypeInfo) : TypeInfo := { info with parentTypes := info.parentTypes.tail }

/-- Inside a field. -/
def pushField (info : TypeInfo) (declaration : Option FieldDeclaration) (type : Option TypeRef) :
    TypeInfo :=
  { info with
    fieldDeclarations := declaration :: info.fieldDeclarations
    fieldTypes := type :: info.fieldTypes }

/-- Outside the innermost field. -/
def popField (info : TypeInfo) : TypeInfo :=
  { info with
    fieldDeclarations := info.fieldDeclarations.tail
    fieldTypes := info.fieldTypes.tail }

/-- Inside a value of an expected type. -/
def pushInput (info : TypeInfo) (type : Option TypeRef) : TypeInfo :=
  { info with inputTypes := type :: info.inputTypes }

/-- Outside the innermost value. -/
def popInput (info : TypeInfo) : TypeInfo := { info with inputTypes := info.inputTypes.tail }

/-- One segment further down the record path. -/
def pushPath (info : TypeInfo) (segment : String) : TypeInfo :=
  { info with path := info.path.push segment }

/-- One segment further up the record path. -/
def popPath (info : TypeInfo) : TypeInfo := { info with path := info.path.pop.2 }

/-- At a selection of the current set. -/
def pushIndex (info : TypeInfo) (index : Nat) : TypeInfo :=
  { info with address := info.address.child index }

/-- Away from the current selection. -/
def popIndex (info : TypeInfo) : TypeInfo := { info with address := info.address.parent }

end TypeInfo

/-- A visitor with a state: what it does at each visit. -/
abbrev Visitor (σ : Type) : Type := TypeInfo → Visit → σ → σ

/-- A walk under way: what is known at its place, and the state of the visitor. -/
structure Walk (σ : Type) where
  /-- What is known at the current place. -/
  info : TypeInfo
  /-- The state of the visitor. -/
  state : σ

namespace Walk

variable {σ : Type}

/-- Lets the visitor see something. -/
def see (visitor : Visitor σ) (visit : Visit) (w : Walk σ) : Walk σ :=
  { w with state := visitor w.info visit w.state }

/-- Changes what is known. -/
def know (change : TypeInfo → TypeInfo) (w : Walk σ) : Walk σ := { w with info := change w.info }

/-! ## Values -/

/-- The type expected of a field of an object value. -/
def objectFieldType (schema : Schema) (expected : Option TypeRef) (name : String) :
    Option TypeRef :=
  expected.bind fun type => schema.inputType? type.innerName name

mutual

/-- The walk through a value of an expected type. -/
def value (schema : Schema) (visitor : Visitor σ) (expected : Option TypeRef) :
    Value → Walk σ → Walk σ
  | .var name span, w =>
    ((w.know (·.pushInput expected)).see visitor (.var name span)).know (·.popInput)
  | .list items, w =>
    (values schema visitor (expected.map (·.item)) items
      (w.know (·.pushInput expected))).know (·.popInput)
  | .object fields, w =>
    (objectFields schema visitor expected fields
      (w.know (·.pushInput expected))).know (·.popInput)
  | .null, w | .boolean _, w | .enum _, w | .int _, w | .float _, w | .string _, w => w

/-- The walk through the items of a list. -/
def values (schema : Schema) (visitor : Visitor σ) (expected : Option TypeRef) :
    List Value → Walk σ → Walk σ
  | [], w => w
  | v :: rest, w => values schema visitor expected rest (value schema visitor expected v w)

/-- The walk through the fields of an object of an expected type. -/
def objectFields (schema : Schema) (visitor : Visitor σ) (expected : Option TypeRef) :
    List (String × Value) → Walk σ → Walk σ
  | [], w => w
  | (name, v) :: rest, w =>
    objectFields schema visitor expected rest
      (value schema visitor (objectFieldType schema expected name) v w)

end

/-! ## Arguments and directives -/

/-- The declared type of an argument. -/
def argumentType (declared : Option (List InputDeclaration)) (name : String) : Option TypeRef :=
  (declared.bind fun inputs => inputs.find? (·.name = name)).map (·.type)

/-- The walk through arguments, given how they are declared. -/
def arguments (schema : Schema) (visitor : Visitor σ) (declared : Option (List InputDeclaration))
    (args : List Argument) (w : Walk σ) : Walk σ :=
  args.foldl (fun w a => value schema visitor (argumentType declared a.name) a.value w) w

/-- The walk through directives. -/
def directives (schema : Schema) (visitor : Visitor σ) (ds : List Directive) (w : Walk σ) :
    Walk σ :=
  ds.foldl (fun w d =>
    arguments schema visitor ((schema.directive? d.name).map (·.arguments)) d.arguments w) w

/-! ## Selections -/

/-- Lets the visitor see a selection set, unless it is empty. -/
def seeSet (visitor : Visitor σ) (owner : Option Span) (set : List Selection) (w : Walk σ) :
    Walk σ :=
  if set.isEmpty then w else w.see visitor (.enterSet set owner)

/-- Enters a field: finds its declaration on the type the current set selects on. -/
def enterField (schema : Schema) (visitor : Visitor σ) (f : Field) (w : Walk σ) : Walk σ :=
  let found := w.info.parentTypeName.bind (schema.fieldType? · f.name)
  let declaration := found.bind (·.1)
  let w := w.know fun info => (info.pushField declaration (found.map (·.2))).pushPath f.name
  let w := w.see visitor (.enterField f)
  -- the arguments and directives still see the type around the field, not that of the field
  let w := arguments schema visitor (declaration.map (·.arguments)) f.arguments w
  let w := directives schema visitor f.directives w
  w.know fun info => info.pushParent (info.fieldType.map (·.innerName))

/-- Leaves a field. -/
def leaveField (visitor : Visitor σ) (f : Field) (w : Walk σ) : Walk σ :=
  ((w.know (·.popParent)).see visitor (.leaveField f)).know (·.popPath.popField)

/-- Enters an inline fragment: a type condition is a segment of the record path, and without one
the enclosing type stays. -/
def enterInline (schema : Schema) (visitor : Visitor σ) (f : InlineFragment) (w : Walk σ) :
    Walk σ :=
  let w := match f.typeCondition with
    | some condition => w.know (·.pushPath condition)
    | none => w
  let w := w.know fun info => info.pushParent (f.typeCondition.or info.parentTypeName)
  directives schema visitor f.directives (w.see visitor (.enterInline f))

/-- Leaves an inline fragment. -/
def leaveInline (visitor : Visitor σ) (f : InlineFragment) (w : Walk σ) : Walk σ :=
  let w := (w.see visitor (.leaveInline f)).know (·.popParent)
  if f.typeCondition.isSome then w.know (·.popPath) else w

mutual

/-- The walk through a selection. -/
def selection (schema : Schema) (visitor : Visitor σ) : Selection → Walk σ → Walk σ
  | .field f set, w =>
    leaveField visitor f
      (selections schema visitor 0 set (seeSet visitor f.span set (enterField schema visitor f w)))
  | .inline f set, w =>
    leaveInline visitor f
      (selections schema visitor 0 set (seeSet visitor f.span set (enterInline schema visitor f w)))
  | .spread s, w => directives schema visitor s.directives (w.see visitor (.spread s))

/-- The walk through the selections of a set from a number on. -/
def selections (schema : Schema) (visitor : Visitor σ) (index : Nat) :
    List Selection → Walk σ → Walk σ
  | [], w => w
  | s :: rest, w =>
    selections schema visitor (index + 1) rest
      ((selection schema visitor s (w.know (·.pushIndex index))).know (·.popIndex))

end

/-! ## Definitions -/

/-- The walk through an operation. -/
def operation (schema : Schema) (visitor : Visitor σ) (o : Operation) (w : Walk σ) : Walk σ :=
  let w := (w.know (·.pushParent (schema.root? o.kind))).see visitor (.enterOperation o)
  let w := seeSet visitor o.span o.selections (directives schema visitor o.directives w)
  let w := selections schema visitor 0 o.selections w
  (w.see visitor (.leaveOperation o)).know (·.popParent)

/-- The walk through a fragment definition. -/
def fragment (schema : Schema) (visitor : Visitor σ) (f : Fragment) (w : Walk σ) : Walk σ :=
  let w := (w.know (·.pushParent (some f.typeCondition))).see visitor (.enterFragment f)
  let w := seeSet visitor f.span f.selections (directives schema visitor f.directives w)
  let w := selections schema visitor 0 f.selections w
  (w.see visitor (.leaveFragment f)).know (·.popParent)

/-- The walk through the definition of a number; types and directives are passed over. -/
def definition (schema : Schema) (visitor : Visitor σ) (index : Nat) (d : Definition)
    (w : Walk σ) : Walk σ :=
  -- every definition counts in the numbering, those that are passed over as well
  let w := w.know fun info => { info with path := .root, address := .ofDefinition index }
  match d with
  | .operation o => operation schema visitor o w
  | .fragment f => fragment schema visitor f w
  | _ => w

/-- The state of a visitor after the walk through a document. -/
def document (schema : Schema) (visitor : Visitor σ) (d : Document) (state : σ) : σ :=
  (d.definitions.zipIdx.foldl (fun w (definition, index) =>
    Walk.definition schema visitor index definition w) ⟨.initial, state⟩).state

end Walk
end EmbeddedGraphQL
