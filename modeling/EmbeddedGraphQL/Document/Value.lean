import EmbeddedGraphQL.Position

/-!
# Names, types and values

The smallest parts of a GraphQL document. Numbers keep the text they were written with. A variable
remembers where it stands in the source it was read from; a variable that was put in by an edit
stands nowhere.

* `isName`: the texts that may name something.
* `TypeRef`: a reference to a type.
* `Value`: a value, `Value.same` its equality up to places in the source.
-/

namespace EmbeddedGraphQL

/-- Whether a character may start a name. -/
def isNameStart (c : Char) : Bool := c.isAlpha || c == '_'

/-- Whether a character may continue a name. -/
def isNameContinue (c : Char) : Bool := c.isAlphanum || c == '_'

/-- Whether a text may name something: letters, digits and underscores, and no digit in front. -/
def isName (text : String) : Bool :=
  match text.toList with
  | [] => false
  | c :: rest => isNameStart c && rest.all isNameContinue

/-- A reference to a type: a name or a list, each of them required or not. -/
inductive TypeRef where
  /-- The type of a name. -/
  | named (name : String) (required : Bool)
  /-- Lists of a type. -/
  | list (item : TypeRef) (required : Bool)
deriving DecidableEq

namespace TypeRef

/-- The name inside all lists. -/
def innerName : TypeRef → String
  | .named name _ => name
  | .list item _ => item.innerName

/-- The type of the items of a list; any other type stays as it is. -/
def item : TypeRef → TypeRef
  | .named name required => .named name required
  | .list item _ => item

/-- The mark of a required type. -/
def mark (required : Bool) : String := if required then "!" else ""

/-- The written form of a type reference. -/
def text : TypeRef → String
  | .named name required => name ++ mark required
  | .list item required => "[" ++ item.text ++ "]" ++ mark required

end TypeRef

/-- A value in a document. -/
inductive Value where
  /-- The value `null`. -/
  | null
  /-- `true` or `false`. -/
  | boolean (b : Bool)
  /-- A value of an enum type. -/
  | enum (name : String)
  /-- A whole number, as written. -/
  | int (digits : String)
  /-- A number with a fraction or an exponent, as written. -/
  | float (digits : String)
  /-- A text. -/
  | string (text : String)
  /-- A variable, and where it stands. -/
  | var (name : String) (span : Option Span)
  /-- A list of values. -/
  | list (items : List Value)
  /-- Named values. -/
  | object (fields : List (String × Value))

namespace Value

mutual

/-- Whether two values are equal up to the places of their variables. -/
def same : Value → Value → Bool
  | .null, .null => true
  | .boolean a, .boolean b => a == b
  | .enum a, .enum b => a == b
  | .int a, .int b => a == b
  | .float a, .float b => a == b
  | .string a, .string b => a == b
  | .var a _, .var b _ => a == b
  | .list as, .list bs => sameItems as bs
  | .object as, .object bs => sameFields as bs
  | _, _ => false

/-- Whether two lists of values are equal up to the places of their variables. -/
def sameItems : List Value → List Value → Bool
  | [], [] => true
  | a :: as, b :: bs => a.same b && sameItems as bs
  | _, _ => false

/-- Whether two lists of named values are equal up to the places of their variables. -/
def sameFields : List (String × Value) → List (String × Value) → Bool
  | [], [] => true
  | (m, a) :: as, (n, b) :: bs => m == n && a.same b && sameFields as bs
  | _, _ => false

end

end Value

/-- A named argument. -/
structure Argument where
  /-- The name. -/
  name : String
  /-- The value. -/
  value : Value

/-- An annotation of a part of a document. -/
structure Directive where
  /-- The name, without the `@`. -/
  name : String
  /-- The arguments. -/
  arguments : List Argument

/-- Whether two lists have the same length and agree item by item. -/
def sameList {α : Type} (eq : α → α → Bool) : List α → List α → Bool
  | [], [] => true
  | a :: as, b :: bs => eq a b && sameList eq as bs
  | _, _ => false

/-- Whether two arguments are equal up to places. -/
def Argument.same (a b : Argument) : Bool := a.name == b.name && a.value.same b.value

/-- Whether two directives are equal up to places. -/
def Directive.same (a b : Directive) : Bool :=
  a.name == b.name && sameList Argument.same a.arguments b.arguments

end EmbeddedGraphQL
