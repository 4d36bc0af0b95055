import EmbeddedGraphQL.Edit.Error

/-!
# Merging arguments and directives

New arguments replace those of the same name and come last. A new directive is merged into the
first one of its name, or added at the end if there is none.

* `Argument.merge`: arguments with others merged in.
* `Directive.merge`: directives with another one merged in.
-/

namespace EmbeddedGraphQL

/-- Arguments with others merged in: those of the same name go, and the others follow. -/
def Argument.merge (old new : List Argument) : List Argument :=
  old.filter (fun a => !new.any (·.name = a.name)) ++ new

/-- Directives with one merged in: into the first of its name, or at the end. -/
def Directive.merge (name : String) (args : List Argument) : List Directive → List Directive
  | [] => [⟨name, args⟩]
  | d :: rest =>
    if d.name = name then { d with arguments := Argument.merge d.arguments args } :: rest
    else d :: merge name args rest

namespace Node

/-- A node with a directive merged in. -/
def addDirective (node : Node) (name : String) (args : List Argument) : Except EditError Node := do
  let name ← checkedName name
  return node.withDirectives (Directive.merge name args node.directives)

end Node

/-- A spread with a directive merged in. -/
def FragmentSpread.addDirective (s : FragmentSpread) (name : String) (args : List Argument) :
    Except EditError FragmentSpread := do
  let name ← checkedName name
  return { s with directives := Directive.merge name args s.directives }

end EmbeddedGraphQL
