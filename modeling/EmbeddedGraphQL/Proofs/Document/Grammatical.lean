import EmbeddedGraphQL.Document.Grammar
import EmbeddedGraphQL.Proofs.Document.Lexemes

/-!
# Grammatical documents

The documents that some text stands for, said of the document itself: names are names, numbers are
written as numbers, what must not be empty is not, and nothing is nested deeper than allowed.

* `Value.Grammatical`, `TypeRef.Grammatical`, `Selection.Grammatical`: the nested parts, each within
  an allowance of depth.
* `Definition.Grammatical`, `Document.Grammatical`: definitions and whole documents.
-/

namespace EmbeddedGraphQL

/-- The words that stand for a value of their own and name no enum value. -/
def valueWords : List String := ["true", "false", "null"]

/-! ## Values, types and directives -/

namespace Value

mutual

/-- Whether a value can be written within an allowance of depth, with variables or without. -/
def Grammatical (const : Bool) : Nat → Value → Prop
  | _, .null => True
  | _, .boolean _ => True
  | _, .string _ => True
  | _, .enum name => isName name = true ∧ name ∉ valueWords
  | _, .int digits => Lexeme.IsNumber false digits
  | _, .float digits => Lexeme.IsNumber true digits
  | _, .var name _ => const = false ∧ isName name = true
  | depth, .list items => GrammaticalItems const depth items
  | depth, .object fields => GrammaticalFields const depth fields

/-- Whether the items of a list can be written; each takes one from the allowance. -/
def GrammaticalItems (const : Bool) : Nat → List Value → Prop
  | _, [] => True
  | depth, v :: rest =>
    (0 < depth ∧ v.Grammatical const (depth - 1)) ∧ GrammaticalItems const depth rest

/-- Whether the fields of an object can be written; each takes one from the allowance. -/
def GrammaticalFields (const : Bool) : Nat → List (String × Value) → Prop
  | _, [] => True
  | depth, (name, v) :: rest =>
    (isName name = true ∧ 0 < depth ∧ v.Grammatical const (depth - 1)) ∧
      GrammaticalFields const depth rest

end

/-- The items of a list can be written if each of them can. -/
theorem grammaticalItems_iff {const : Bool} {depth : Nat} {items : List Value} :
    GrammaticalItems const depth items ↔
      ∀ v ∈ items, 0 < depth ∧ v.Grammatical const (depth - 1) := by
  induction items with
  | nil => simp [GrammaticalItems]
  | cons v rest ih => rw [GrammaticalItems, ih, List.forall_mem_cons]

/-- The fields of an object can be written if each of them can. -/
theorem grammaticalFields_iff {const : Bool} {depth : Nat} {fields : List (String × Value)} :
    GrammaticalFields const depth fields ↔
      ∀ p ∈ fields, isName p.1 = true ∧ 0 < depth ∧ p.2.Grammatical const (depth - 1) := by
  induction fields with
  | nil => simp [GrammaticalFields]
  | cons field rest ih =>
    obtain ⟨name, v⟩ := field
    rw [GrammaticalFields, ih, List.forall_mem_cons]

end Value

/-- Whether a type reference can be written within an allowance of depth. -/
def TypeRef.Grammatical : Nat → TypeRef → Prop
  | _, .named name _ => isName name = true
  | depth, .list item _ => 0 < depth ∧ item.Grammatical (depth - 1)

/-- Whether an argument can be written. -/
structure Argument.Grammatical (const : Bool) (depth : Nat) (a : Argument) : Prop where
  name : isName a.name = true
  value : a.value.Grammatical const depth

/-- Whether a directive can be written. -/
structure Directive.Grammatical (const : Bool) (depth : Nat) (d : Directive) : Prop where
  name : isName d.name = true
  arguments : ∀ a ∈ d.arguments, a.Grammatical const depth

/-! ## Selections -/

/-- Whether the head of a field can be written. -/
structure Field.Grammatical (depth : Nat) (f : Field) : Prop where
  aliasName : ∀ name ∈ f.aliasName, isName name = true
  name : isName f.name = true
  arguments : ∀ a ∈ f.arguments, a.Grammatical false depth
  directives : ∀ d ∈ f.directives, d.Grammatical false depth

/-- Whether the head of an inline fragment can be written. -/
structure InlineFragment.Grammatical (depth : Nat) (f : InlineFragment) : Prop where
  typeCondition : ∀ name ∈ f.typeCondition, isName name = true
  directives : ∀ d ∈ f.directives, d.Grammatical false depth

/-- Whether a spread can be written; `on` names no fragment. -/
structure FragmentSpread.Grammatical (depth : Nat) (s : FragmentSpread) : Prop where
  name : isName s.name = true
  notOn : s.name ≠ "on"
  directives : ∀ d ∈ s.directives, d.Grammatical false depth

namespace Selection

mutual

/-- Whether a selection can be written; an inline fragment selects something. -/
def Grammatical : Nat → Selection → Prop
  | depth, .field f set => f.Grammatical depth ∧ GrammaticalSet depth set
  | depth, .inline f set => f.Grammatical depth ∧ set ≠ [] ∧ GrammaticalSet depth set
  | depth, .spread s => s.Grammatical depth

/-- Whether the entries of a selection set can be written; each takes one from the allowance. -/
def GrammaticalSet : Nat → List Selection → Prop
  | _, [] => True
  | depth, s :: rest => (0 < depth ∧ s.Grammatical (depth - 1)) ∧ GrammaticalSet depth rest

end

/-- The entries of a selection set can be written if each of them can. -/
theorem grammaticalSet_iff {depth : Nat} {set : List Selection} :
    GrammaticalSet depth set ↔ ∀ s ∈ set, 0 < depth ∧ s.Grammatical (depth - 1) := by
  induction set with
  | nil => simp [GrammaticalSet]
  | cons s rest ih => rw [GrammaticalSet, ih, List.forall_mem_cons]

end Selection

/-! ## Definitions -/

open Grammar (maxDepth)

/-- Whether a variable definition can be written. -/
structure VariableDefinition.Grammatical (v : VariableDefinition) : Prop where
  name : isName v.name = true
  type : v.type.Grammatical maxDepth
  default : ∀ d ∈ v.default, d.Grammatical true maxDepth
  directives : ∀ d ∈ v.directives, d.Grammatical true maxDepth

/-- Whether an operation can be written. -/
structure Operation.Grammatical (o : Operation) : Prop where
  name : ∀ name ∈ o.name, isName name = true
  variableDefinitions : ∀ v ∈ o.variableDefinitions, v.Grammatical
  directives : ∀ d ∈ o.directives, d.Grammatical false maxDepth
  nonempty : o.selections ≠ []
  selections : Selection.GrammaticalSet maxDepth o.selections

/-- Whether a fragment definition can be written; `on` names no fragment. -/
structure Fragment.Grammatical (f : Fragment) : Prop where
  name : isName f.name = true
  notOn : f.name ≠ "on"
  typeCondition : isName f.typeCondition = true
  directives : ∀ d ∈ f.directives, d.Grammatical false maxDepth
  nonempty : f.selections ≠ []
  selections : Selection.GrammaticalSet maxDepth f.selections

/-- Whether the declaration of an argument or input field can be written. -/
structure InputDeclaration.Grammatical (i : InputDeclaration) : Prop where
  name : isName i.name = true
  type : i.type.Grammatical maxDepth
  default : ∀ d ∈ i.default, d.Grammatical true maxDepth
  directives : ∀ d ∈ i.directives, d.Grammatical true maxDepth

/-- Whether the declaration of a field can be written. -/
structure FieldDeclaration.Grammatical (f : FieldDeclaration) : Prop where
  name : isName f.name = true
  arguments : ∀ i ∈ f.arguments, i.Grammatical
  type : f.type.Grammatical maxDepth
  directives : ∀ d ∈ f.directives, d.Grammatical true maxDepth

/-- Whether the declaration of an enum value can be written. -/
structure EnumDeclaration.Grammatical (e : EnumDeclaration) : Prop where
  name : isName e.name = true
  notValue : e.name ∉ valueWords
  directives : ∀ d ∈ e.directives, d.Grammatical true maxDepth

/-- Whether what a type is made of can be written. -/
def TypeBody.Grammatical : TypeBody → Prop
  | .scalar => True
  | .object interfaces fields =>
    (∀ n ∈ interfaces, isName n = true) ∧ ∀ f ∈ fields, f.Grammatical
  | .interface interfaces fields =>
    (∀ n ∈ interfaces, isName n = true) ∧ ∀ f ∈ fields, f.Grammatical
  | .union members => ∀ n ∈ members, isName n = true
  | .enum values => ∀ v ∈ values, v.Grammatical
  | .inputObject fields => ∀ f ∈ fields, f.Grammatical

/-- Whether the declaration of a type can be written. -/
structure TypeDeclaration.Grammatical (t : TypeDeclaration) : Prop where
  name : isName t.name = true
  directives : ∀ d ∈ t.directives, d.Grammatical true maxDepth
  body : t.body.Grammatical

/-- Whether the declaration of a directive can be written. -/
structure DirectiveDeclaration.Grammatical (d : DirectiveDeclaration) : Prop where
  name : isName d.name = true
  arguments : ∀ i ∈ d.arguments, i.Grammatical
  nonempty : d.locations ≠ []
  locations : ∀ l ∈ d.locations, l ∈ Grammar.directiveLocations

/-- Whether the declaration of a schema can be written, as far as its parts go. -/
structure SchemaDeclaration.Grammatical (s : SchemaDeclaration) : Prop where
  directives : ∀ d ∈ s.directives, d.Grammatical true maxDepth
  roots : ∀ r ∈ s.roots, isName r.2 = true

/-- Whether a definition can be written, as far as its parts go; the extension of a type says
something. -/
def Definition.Grammatical : Definition → Prop
  | .operation o => o.Grammatical
  | .fragment f => f.Grammatical
  | .directive _ d _ => d.Grammatical
  | .schema _ s _ => s.Grammatical
  | .schemaExtension s _ => s.Grammatical
  | .type _ t _ => t.Grammatical
  | .typeExtension t _ => t.Grammatical ∧ Grammar.isNonEmpty t = true

/-- Whether a document can be written, as far as its parts go. -/
structure Document.Grammatical (d : Document) : Prop where
  nonempty : d.definitions ≠ []
  definitions : ∀ x ∈ d.definitions, x.Grammatical

end EmbeddedGraphQL
