import EmbeddedGraphQL.Edit.Enclosing
import EmbeddedGraphQL.Edit.Error

/-!
# Moving selections into a fragment

The selections on a range of lines become a fragment of their own: a definition that declares the
variables they use, and in their place a spread that passes the variables on. A spread can also be
put in without taking selections away.

* `FragmentPlan.find?`: which selections a range of lines takes.
* `FragmentPlan.definition`, `Document.replaceWithSpread`: the fragment and the document without
  its selections.
* `SpreadPlace.find?`, `Document.insertSpread`: a place for a spread, and the spread put in there.
-/

namespace EmbeddedGraphQL

/-- Which selections become a fragment. -/
structure FragmentPlan where
  /-- The selections, in order. -/
  selections : List Selection
  /-- The whole set they are taken from. -/
  targetSet : List Selection
  /-- The address of the owner of that set. -/
  target : Address
  /-- The numbers of the selections in that set. -/
  indices : List Nat
  /-- The type the set selects on. -/
  typeName : String
  /-- The variables used, with the written types expected of them, sorted by name. -/
  variableTypes : List (String × String)
  /-- The variables about which too little is known. -/
  unresolved : List String

namespace FragmentPlan

/-- The selections on a range of lines of the text a document was read from. -/
def find? (schema : Schema) (d : Document) (source : String) (lines : LineRange) :
    Option FragmentPlan := do
  let found ← Enclosing.find? schema d source lines
  let children := found.children lines
  if children.isEmpty then none
  return {
    selections := children.map (·.1)
    targetSet := found.set.selections
    target := found.set.address
    indices := children.map (·.2)
    typeName := found.set.typeName
    variableTypes := found.variableTypes
    unresolved := found.unresolved }

/-- The declaration of the variables a fragment uses, if there are any. -/
def declarations (plan : FragmentPlan) : Except EditError (List Directive) :=
  if plan.variableTypes.isEmpty then .ok []
  else do
    let args ← plan.variableTypes.mapM fun (name, type) => do
      let name ← checkedName name
      return (⟨name, .object [("type", .string type)]⟩ : Argument)
    return [⟨"argumentDefinitions", args⟩]

/-- The variables passed on to a fragment, if there are any. -/
def passedOn (plan : FragmentPlan) : Except EditError (List Directive) :=
  if plan.variableTypes.isEmpty then .ok []
  else do
    let args ← plan.variableTypes.mapM fun (name, _) => do
      let name ← checkedName name
      return (⟨name, .var name none⟩ : Argument)
    return [⟨"arguments", args⟩]

/-- The definition of the fragment. -/
def definition (plan : FragmentPlan) (name : String) : Except EditError Fragment := do
  -- the names of the variables are refused before the name of the fragment is
  let directives ← plan.declarations
  let name ← checkedName name
  return ⟨name, plan.typeName, directives, plan.selections, none⟩

end FragmentPlan

/-- A spread that stands nowhere. -/
def Selection.newSpread (name : String) (directives : List Directive) :
    Except EditError Selection := do
  let name ← checkedName name
  return .spread ⟨name, directives, none⟩

/-- A selection set without the selections of the given numbers. -/
def Selection.without (indices : List Nat) (set : List Selection) : List Selection :=
  (set.zipIdx.filter fun (_, index) => !indices.contains index).map (·.1)

/-- A selection set with a selection put in at a number, or at the end if it is shorter. -/
def Selection.insertAt (index : Nat) (s : Selection) (set : List Selection) : List Selection :=
  set.take index ++ s :: set.drop index

/-- The document with another selection set in the node at an address. -/
def Document.changeSelections (d : Document) (a : Address)
    (change : List Selection → List Selection) : Except EditError Document :=
  match d.modify? a fun node => node.withSelections (change node.selections) with
  | some changed => .ok changed
  | none => .error (.nodeNotFound a)

/-- The document with a spread in place of the selections of a plan. -/
def Document.replaceWithSpread (d : Document) (plan : FragmentPlan) (name : String) :
    Except EditError Document := do
  let directives ← plan.passedOn
  let spread ← Selection.newSpread name directives
  match plan.indices.min? with
  | none => return d
  | some first =>
    d.changeSelections plan.target fun set =>
      -- nothing in front of the first selection is taken away, so its number is right in the
      -- shorter set as well
      Selection.insertAt first spread (Selection.without plan.indices set)

/-- Where a spread can be put in. -/
structure SpreadPlace where
  /-- The selection it is put in front of; without one it comes last. -/
  before : Option Selection
  /-- The number of that selection. -/
  index : Option Nat
  /-- The whole set. -/
  targetSet : List Selection
  /-- The address of the owner of the set. -/
  target : Address
  /-- The type the set selects on. -/
  typeName : String

/-- Where a spread for a range of lines belongs: in front of the first selection on the lines. -/
def SpreadPlace.find? (schema : Schema) (d : Document) (source : String) (lines : LineRange) :
    Option SpreadPlace := do
  let found ← Enclosing.find? schema d source lines
  let anchor := (found.children lines).head?
  return {
    before := anchor.map (·.1)
    index := anchor.map (·.2)
    targetSet := found.set.selections
    target := found.set.address
    typeName := found.set.typeName }

/-- The document with a spread put in. -/
def Document.insertSpread (d : Document) (place : SpreadPlace) (name : String) :
    Except EditError Document := do
  let spread ← Selection.newSpread name []
  d.changeSelections place.target fun set =>
    match place.index with
    | some index => Selection.insertAt index spread set
    | none => set ++ [spread]

end EmbeddedGraphQL
