import EmbeddedGraphQL.LineIndex
import EmbeddedGraphQL.Walk

/-!
# Selections of a range of lines

A range of lines chosen in a text points at selections: the innermost selection set whose owner
spans all of the lines, and those of its selections that lie inside them. The variables used on the
lines are collected with the types expected of them.

* `EnclosingSearch`: what a walk gathers about a range of lines.
* `Enclosing.find?`: the selection set around a range of lines, with its variables.
* `Enclosing.children`: the selections inside the range.
-/

namespace EmbeddedGraphQL

/-- A selection set, the node that owns it and the type it selects on. -/
structure EnclosingSet where
  /-- The selections. -/
  selections : List Selection
  /-- The address of the owner. -/
  address : Address
  /-- The type the set selects on. -/
  typeName : String

/-- What a walk gathers about a range of lines. -/
structure EnclosingSearch where
  /-- The last set whose owner spans the range; without content if its type is not known. -/
  set : Option (Option EnclosingSet)
  /-- The variables used on the lines, with the written types expected of them, sorted by name. -/
  variableTypes : List (String × String)
  /-- The variables about which it is not known where they stand or what type is expected. -/
  unresolved : List String

namespace EnclosingSearch

/-- What is gathered before the walk. -/
def initial : EnclosingSearch := ⟨none, [], []⟩

/-- Entries sorted by key with one put in; the last value of a key counts. -/
def insertSorted (key value : String) : List (String × String) → List (String × String)
  | [] => [(key, value)]
  | (k, v) :: rest =>
    if key = k then (key, value) :: rest
    else if key < k then (key, value) :: (k, v) :: rest
    else (k, v) :: insertSorted key value rest

/-- The search with a variable marked as unresolved. -/
def flag (search : EnclosingSearch) (name : String) : EnclosingSearch :=
  if search.unresolved.contains name then search
  else { search with unresolved := search.unresolved ++ [name] }

/-- What is gathered at a selection set. -/
def atSet (schema : Schema) (index : LineIndex) (lines : LineRange) (info : TypeInfo)
    (selections : List Selection) (owner : Option Span) (search : EnclosingSearch) :
    EnclosingSearch :=
  match owner with
  | none => search
  | some span =>
    if (index.lineRange span).contains lines then
      -- an inner set of unknown type hides the outer one, which would take too much
      let known := (info.parentType schema).bind fun _ => info.parentTypeName
      { search with
        set := some (known.map fun typeName => ⟨selections, info.address, typeName⟩) }
    else search

/-- What is gathered at a variable. -/
def atVariable (index : LineIndex) (lines : LineRange) (info : TypeInfo) (name : String)
    (span : Option Span) (search : EnclosingSearch) : EnclosingSearch :=
  match span with
  -- without a place the variable may well stand on the lines
  | none => search.flag name
  | some span =>
    if lines.contains (index.lineRange span) then
      match info.inputType with
      | some type =>
        { search with variableTypes := insertSorted name type.text search.variableTypes }
      | none => search.flag name
    else search

/-- What is gathered at a visit. -/
def visitor (schema : Schema) (index : LineIndex) (lines : LineRange) : Visitor EnclosingSearch :=
  fun info visit search =>
    match visit with
    | .enterSet selections owner => search.atSet schema index lines info selections owner
    | .var name span => search.atVariable index lines info name span
    | _ => search

end EnclosingSearch

/-- The selection set around a range of lines of a text. -/
structure Enclosing where
  /-- The set. -/
  set : EnclosingSet
  /-- The lines of the text. -/
  index : LineIndex
  /-- The variables used on the lines, with the written types expected of them. -/
  variableTypes : List (String × String)
  /-- The variables about which too little is known. -/
  unresolved : List String

namespace Enclosing

/-- The selection set around a range of lines of the text a document was read from. -/
def find? (schema : Schema) (d : Document) (source : String) (lines : LineRange) :
    Option Enclosing := do
  let index := LineIndex.ofString source
  let search := Walk.document schema (EnclosingSearch.visitor schema index lines) d .initial
  let set ← search.set.join
  return ⟨set, index, search.variableTypes, search.unresolved⟩

/-- Whether a selection lies inside a range of lines. -/
def isInside (index : LineIndex) (lines : LineRange) (s : Selection) : Bool :=
  match s.span with
  | none => false
  | some span => lines.contains (index.lineRange span)

/-- The selections of the set inside a range of lines, with their numbers. -/
def children (e : Enclosing) (lines : LineRange) : List (Selection × Nat) :=
  e.set.selections.zipIdx.filter fun (s, _) => isInside e.index lines s

end Enclosing
end EmbeddedGraphQL
