import EmbeddedGraphQL.Document.Grammar
import EmbeddedGraphQL.Schema.Builtin

/-!
# Building a schema

A schema is built from documents, definition by definition, on top of the built-in types and
directives. Every type, field, value, member, interface, root type and directive may be defined
once; only a built-in directive may be defined anew, which replaces it. An extension may stand
before the definition it extends. It must then be of a type that is defined later, and counts for
nothing if that type is of another kind; after the definition it must be of the same kind.

Without a definition of the schema itself, object types called `Query`, `Mutation` and
`Subscription` are where operations start.

* `Schema.Draft`: a schema under construction, and what is done with a definition.
* `Schema.ofDocuments?`, `Schema.parse?`: the schema that documents define.
-/

namespace EmbeddedGraphQL

/-- Two lists one after the other, unless a key would occur twice. -/
def appendDistinct {α : Type} (key : α → String) (old : List α) : List α → Option (List α)
  | [] => some old
  | a :: new =>
    if old.any fun b => key b = key a then none else appendDistinct key (old ++ [a]) new

namespace TypeBody

/-- The body of a kind with nothing in it. -/
def emptied : TypeBody → TypeBody
  | .scalar => .scalar
  | .object _ _ => .object [] []
  | .interface _ _ => .interface [] []
  | .union _ => .union []
  | .enum _ => .enum []
  | .inputObject _ => .inputObject []

/-- A body with the parts of another one of the same kind after its own; each part may occur
once. -/
def extend? : TypeBody → TypeBody → Option TypeBody
  | .scalar, .scalar => some .scalar
  | .object is fs, .object js gs => do
    return .object (← appendDistinct id is js) (← appendDistinct (·.name) fs gs)
  | .interface is fs, .interface js gs => do
    return .interface (← appendDistinct id is js) (← appendDistinct (·.name) fs gs)
  | .union ms, .union ns => do return .union (← appendDistinct id ms ns)
  | .enum vs, .enum ws => do return .enum (← appendDistinct (·.name) vs ws)
  | .inputObject fs, .inputObject gs => do return .inputObject (← appendDistinct (·.name) fs gs)
  | _, _ => none

end TypeBody

namespace Schema

/-- A schema under construction. -/
structure Draft where
  /-- The types so far. -/
  types : List SchemaType
  /-- Extensions of types that are not defined yet. -/
  early : List TypeDeclaration
  /-- The directives so far; the mark tells which of them are built in. -/
  directives : List (Bool × DirectiveDeclaration)
  /-- Whether the schema itself is defined. -/
  defined : Bool
  /-- The root types so far. -/
  roots : List (OperationKind × String)
  /-- Extensions of the schema before its definition. -/
  earlyRoots : List SchemaDeclaration

namespace Draft

/-- The built-in types and directives, and nothing else. -/
def initial : Draft :=
  ⟨Builtin.types, [], Builtin.directives.map (true, ·), false, [], []⟩

/-- Root types after others; each kind of operation starts on one type. -/
def addRoots? (old new : List (OperationKind × String)) : Option (List (OperationKind × String)) :=
  appendDistinct (·.1.keyword) old new

/-- A type extended by what came before its definition; what is of another kind is dropped. -/
def applyEarly (type : SchemaType) : List TypeDeclaration → Option SchemaType
  | [] => some type
  | e :: rest =>
    if e.body.kind = type.body.kind then do
      let body ← type.body.extend? e.body
      applyEarly { type with body := body } rest
    else applyEarly type rest

/-- The draft with a type defined. -/
def defineType? (draft : Draft) (description : Option String) (type : TypeDeclaration) :
    Option Draft := do
  if draft.types.any (·.name = type.name) then none
  -- going through an extension of the empty body finds parts that are defined twice
  let body ← type.body.emptied.extend? type.body
  -- `others` wait for a definition that is still to come
  let (own, others) := draft.early.partition (·.name = type.name)
  let complete ← applyEarly ⟨type.name, description, body⟩ own
  return { draft with types := draft.types ++ [complete], early := others }

/-- The types with the one of a name extended; the extension must be of its kind. -/
def extendAmong? (e : TypeDeclaration) : List SchemaType → Option (List SchemaType)
  | [] => none
  | type :: rest =>
    if type.name = e.name then
      (type.body.extend? e.body).map fun body => { type with body := body } :: rest
    else (extendAmong? e rest).map (type :: ·)

/-- The draft with a type extended, or with the extension kept for later. -/
def extendType? (draft : Draft) (e : TypeDeclaration) : Option Draft :=
  if draft.types.any (·.name = e.name) then
    (extendAmong? e draft.types).map fun types => { draft with types := types }
  else some { draft with early := draft.early ++ [e] }

/-- The directives with one more, or with a built-in one replaced. -/
def defineAmong? (d : DirectiveDeclaration) :
    List (Bool × DirectiveDeclaration) → Option (List (Bool × DirectiveDeclaration))
  | [] => some [(false, d)]
  | (builtin, other) :: rest =>
    if other.name = d.name then if builtin then some ((false, d) :: rest) else none
    else (defineAmong? d rest).map ((builtin, other) :: ·)

/-- The draft with the schema itself defined. -/
def defineSchema? (draft : Draft) (schema : SchemaDeclaration) : Option Draft := do
  if draft.defined then none
  let roots ← addRoots? [] schema.roots
  let complete ← draft.earlyRoots.foldlM (fun roots e => addRoots? roots e.roots) roots
  return { draft with defined := true, roots := complete, earlyRoots := [] }

/-- The draft with the schema itself extended, or with the extension kept for later. -/
def extendSchema? (draft : Draft) (e : SchemaDeclaration) : Option Draft :=
  if draft.defined then
    (addRoots? draft.roots e.roots).map fun roots => { draft with roots := roots }
  else some { draft with earlyRoots := draft.earlyRoots ++ [e] }

/-- The draft with one more definition; operations and fragments have no place in a schema. -/
def add? (draft : Draft) : Definition → Option Draft
  | .operation _ => none
  | .fragment _ => none
  | .directive _ d _ =>
    (defineAmong? d draft.directives).map fun ds => { draft with directives := ds }
  | .schema _ schema _ => draft.defineSchema? schema
  | .schemaExtension schema _ => draft.extendSchema? schema
  | .type description type _ => draft.defineType? description type
  | .typeExtension type _ => draft.extendType? type

/-- The root types of a schema that does not name them: the object types called like the kinds of
operations. -/
def impliedRoots (types : List SchemaType) : List (OperationKind × String) :=
  [(OperationKind.query, "Query"), (.mutation, "Mutation"), (.subscription, "Subscription")].filter
    fun (_, name) => types.any fun type => type.name = name && type.body.kind = .object

/-- The root types of a finished draft. -/
def finalRoots? (draft : Draft) : Option (List (OperationKind × String)) :=
  if draft.defined then some draft.roots
  else
    let implied := impliedRoots draft.types
    -- an extension needs something to extend
    if implied.isEmpty && !draft.earlyRoots.isEmpty then none
    else draft.earlyRoots.foldlM (fun roots e => addRoots? roots e.roots) implied

/-- The schema of a draft in which every extension has found its definition. -/
def finish? (draft : Draft) : Option Schema := do
  if !draft.early.isEmpty then none
  let roots ← draft.finalRoots?
  return ⟨draft.types, draft.directives.map (·.2), roots⟩

end Draft

/-- The schema that documents define together. -/
def ofDocuments? (documents : List Document) : Option Schema := do
  let definitions := documents.flatMap (·.definitions)
  let draft ← definitions.foldlM Draft.add? Draft.initial
  draft.finish?

/-- The schema that texts define together. -/
def ofTexts? (texts : List String) : Option Schema :=
  (texts.mapM Document.parse?).bind ofDocuments?

/-- The schema that a text defines. -/
def parse? (text : String) : Option Schema := ofTexts? [text]

/-- Whether a type is one of those every schema starts with. -/
def isBuiltin (type : SchemaType) : Bool := Builtin.types.any (·.name = type.name)

end Schema
end EmbeddedGraphQL
