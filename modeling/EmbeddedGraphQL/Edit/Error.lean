import EmbeddedGraphQL.Address

/-!
# Errors of edits

Why an edit of a document is refused.
-/

namespace EmbeddedGraphQL

/-- Why an edit is refused. -/
inductive EditError where
  /-- A text that cannot name anything was given as a name. -/
  | invalidName (text : String)
  /-- The type has no such field. -/
  | unknownField (typeName fieldName : String)
  /-- Nothing that owns selections stands at the address. -/
  | nodeNotFound (address : Address)
deriving DecidableEq

/-- The text of an error. -/
def EditError.message : EditError → String
  | .invalidName text => "Invalid GraphQL name: " ++ text
  | .unknownField typeName fieldName =>
    "Type `" ++ typeName ++ "` has no field `" ++ fieldName ++ "`"
  | .nodeNotFound address => "No node at " ++ address.text

/-- A text as a name, which it must be able to be. -/
def checkedName (text : String) : Except EditError String :=
  if isName text then .ok text else .error (.invalidName text)

end EmbeddedGraphQL
