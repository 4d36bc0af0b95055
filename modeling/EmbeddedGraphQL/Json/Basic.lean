import EmbeddedGraphQL.Text.Decimal

/-!
# JSON values

A value keeps its numbers as they are written and the members of its objects in the order they are
written, repeated keys included.

* `Json.text?`, `Json.natural?`, `Json.items?`, `Json.members?`: what a value holds.
* `Json.last?`: the member of an object that counts when a key is repeated.
-/

namespace EmbeddedGraphQL

/-- A JSON value. -/
inductive Json where
  /-- The null value. -/
  | null
  /-- A truth value. -/
  | bool (value : Bool)
  /-- A number, as written. -/
  | num (literal : String)
  /-- A text. -/
  | str (value : String)
  /-- A quoted text whose escapes stand for no text, or an object with such a key. It does no harm
  where nobody reads it. -/
  | broken
  /-- A list of values. -/
  | array (items : List Json)
  /-- An object, with its members in order. -/
  | object (members : List (String × Json))

namespace Json

/-- The value of a text. -/
def text? : Json → Option String
  | .str value => some value
  | _ => none

/-- The items of a list. -/
def items? : Json → Option (List Json)
  | .array items => some items
  | _ => none

/-- The members of an object. -/
def members? : Json → Option (List (String × Json))
  | .object members => some members
  | _ => none

/-- Whether a value is null. -/
def isNull : Json → Bool
  | .null => true
  | _ => false

/-- The least number that is too large for a machine word. -/
def wordBound : Nat := Nat.pow 2 64

/-- The number some digits stand for, if there are any and it fits a machine word. -/
def word? (digits : List Char) : Option Nat :=
  if !digits.isEmpty && digits.all Char.isDigit && Decimal.digitsValue digits < wordBound then
    some (Decimal.digitsValue digits)
  else none

/-- The value of a number that is written with digits alone and fits a machine word. -/
def natural? : Json → Option Nat
  | .num literal => word? literal.toList
  | _ => none

/-- The last member of an object with a key. -/
def last? (members : List (String × Json)) (key : String) : Option Json :=
  (members.reverse.find? (·.1 = key)).map (·.2)

/-- A number that is written with digits alone. -/
def ofNat (n : Nat) : Json := .num (toString n)

end Json
end EmbeddedGraphQL
