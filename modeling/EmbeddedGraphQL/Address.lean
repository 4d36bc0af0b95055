import EmbeddedGraphQL.Document.Basic

/-!
# Addresses

An `Address` says where in a document an operation, fragment, field or inline fragment stands: the
number of its definition, then at each level the number of the selection that leads to it. What
stands there is a `Node`, which can be read and written. Spreads own no selections and are not
addressed.

* `Document.get?`: the node at an address.
* `Document.set?`: the document with another node of the same kind at an address.
* `Document.modify?`: the document with the node at an address changed.
-/

namespace EmbeddedGraphQL

/-- Where in a document a node stands. -/
structure Address where
  /-- The number of the definition. -/
  definition : Nat
  /-- The numbers of the selections that lead to the node, from the outside in. -/
  selections : List Nat
deriving DecidableEq

namespace Address

/-- The address of a definition. -/
def ofDefinition (definition : Nat) : Address := ⟨definition, []⟩

/-- The address of a selection in the set of the node at an address. -/
def child (a : Address) (index : Nat) : Address := ⟨a.definition, a.selections ++ [index]⟩

/-- The address of the node that holds the node at an address. -/
def parent (a : Address) : Address := ⟨a.definition, a.selections.dropLast⟩

/-- The text that stands for an address in messages. -/
def text (a : Address) : String :=
  "SelectionAddress \x7b definition: " ++ toString a.definition ++ ", selections: [" ++
    ", ".intercalate (a.selections.map toString) ++ "] \x7d"

end Address

/-- A part of a document that owns a selection set. -/
inductive Node where
  /-- An operation. -/
  | operation (operation : Operation)
  /-- A fragment definition. -/
  | fragment (fragment : Fragment)
  /-- A field and the selections under it. -/
  | field (field : Field) (selections : List Selection)
  /-- An inline fragment and the selections under it. -/
  | inline (fragment : InlineFragment) (selections : List Selection)

namespace Node

/-- The selection set of a node. -/
def selections : Node → List Selection
  | .operation o => o.selections
  | .fragment f => f.selections
  | .field _ selections => selections
  | .inline _ selections => selections

/-- Where a node stands in the source. -/
def span : Node → Option Span
  | .operation o => o.span
  | .fragment f => f.span
  | .field f _ => f.span
  | .inline f _ => f.span

/-- The directives of a node. -/
def directives : Node → List Directive
  | .operation o => o.directives
  | .fragment f => f.directives
  | .field f _ => f.directives
  | .inline f _ => f.directives

/-- The node with other selections. -/
def withSelections (node : Node) (selections : List Selection) : Node :=
  match node with
  | .operation o => .operation { o with selections := selections }
  | .fragment f => .fragment { f with selections := selections }
  | .field f _ => .field f selections
  | .inline f _ => .inline f selections

/-- The node with other directives. -/
def withDirectives (node : Node) (directives : List Directive) : Node :=
  match node with
  | .operation o => .operation { o with directives := directives }
  | .fragment f => .fragment { f with directives := directives }
  | .field f selections => .field { f with directives := directives } selections
  | .inline f selections => .inline { f with directives := directives } selections

/-- The node that a definition is. -/
def ofDefinition? : Definition → Option Node
  | .operation o => some (.operation o)
  | .fragment f => some (.fragment f)
  | _ => none

/-- The node that a selection is. -/
def ofSelection? : Selection → Option Node
  | .field f selections => some (.field f selections)
  | .inline f selections => some (.inline f selections)
  | .spread _ => none

end Node

namespace Selection

/-- The node reached from a selection set along the numbers of selections. -/
def descend? : List Nat → List Selection → Option Node
  | [], _ => none
  | [index], set => set[index]?.bind Node.ofSelection?
  | index :: next :: rest, set =>
    match set[index]? with
    | some (.field _ inner) => descend? (next :: rest) inner
    | some (.inline _ inner) => descend? (next :: rest) inner
    | _ => none

/-- A selection replaced by a node of the same kind. -/
def replace? : Selection → Node → Option Selection
  | .field _ _, .field f selections => some (.field f selections)
  | .inline _ _, .inline f selections => some (.inline f selections)
  | _, _ => none

/-- A selection set in which the node at the end of the numbers of selections is replaced. -/
def write? (node : Node) : List Nat → List Selection → Option (List Selection)
  | [], _ => none
  | [index], set => do
    let old ← set[index]?
    let new ← old.replace? node
    return set.set index new
  | index :: next :: rest, set =>
    match set[index]? with
    | some (.field f inner) => do
      let changed ← write? node (next :: rest) inner
      return set.set index (.field f changed)
    | some (.inline f inner) => do
      let changed ← write? node (next :: rest) inner
      return set.set index (.inline f changed)
    | _ => none

end Selection

namespace Document

/-- The node at an address. -/
def get? (d : Document) (a : Address) : Option Node := do
  let root ← d.definitions[a.definition]? >>= Node.ofDefinition?
  if a.selections.isEmpty then return root else Selection.descend? a.selections root.selections

/-- A definition replaced by a node of the same kind. -/
def replaceDefinition? : Definition → Node → Option Definition
  | .operation _, .operation o => some (.operation o)
  | .fragment _, .fragment f => some (.fragment f)
  | _, _ => none

/-- The document with another node of the same kind at an address. -/
def set? (d : Document) (a : Address) (node : Node) : Option Document := do
  let old ← d.definitions[a.definition]?
  let root ← Node.ofDefinition? old
  let changed ←
    if a.selections.isEmpty then pure node
    else root.withSelections <$> Selection.write? node a.selections root.selections
  let new ← replaceDefinition? old changed
  return ⟨d.definitions.set a.definition new⟩

/-- The document with the node at an address changed into one of the same kind. -/
def modify? (d : Document) (a : Address) (change : Node → Node) : Option Document := do
  let node ← d.get? a
  d.set? a (change node)

end Document
end EmbeddedGraphQL
