import EmbeddedGraphQL.Text.CodePoint
import EmbeddedGraphQL.Text.Decimal

/-!
# Plain scalars of YAML

A plain scalar may be the null value, a truth value or a number; any other is a text.

* `Scalar.isNull`, `Scalar.isBool`, `Scalar.isInteger`, `Scalar.isFloat`: what is not a text.
* `Scalar.isText`: what is.
-/

namespace EmbeddedGraphQL
namespace Yaml
namespace Scalar

/-- Whether a plain scalar is the null value. -/
def isNull (text : String) : Bool := text ∈ ["", "~", "null", "Null", "NULL"]

/-- Whether a plain scalar is a truth value. -/
def isBool (text : String) : Bool := text ∈ ["true", "True", "TRUE", "false", "False", "FALSE"]

/-- The number written with digits of a base up to sixteen. -/
def ofDigits? (base : Nat) (digits : List Char) : Option Nat :=
  if digits.isEmpty then none
  else digits.foldlM (fun n c => (Text.hexDigit? c).bind fun d =>
    if d < base then some (base * n + d) else none) 0

/-- The number written with a mark for its base, or in decimal without a zero in front of other
digits. -/
def magnitude? : List Char → Option Nat
  | '0' :: 'x' :: digits => ofDigits? 16 digits
  | '0' :: 'o' :: digits => ofDigits? 8 digits
  | '0' :: 'b' :: digits => ofDigits? 2 digits
  | ['0'] => some 0
  | '0' :: _ => none
  | digits => ofDigits? 10 digits

/-- The text without the plus it starts with. -/
def dropPlus : List Char → List Char
  | '+' :: rest => rest
  | text => text

/-- The natural number a plain scalar stands for. -/
def natural? (text : String) : Option Nat := magnitude? (dropPlus text.toList)

/-- The least number that is too large for a whole number. -/
def wholeBound : Nat := Nat.pow 2 128

/-- The least number that is too large for a whole number behind a minus. -/
def negativeBound : Nat := Nat.pow 2 127 + 1

/-- Whether a plain scalar is a whole number. -/
def isInteger (text : String) : Bool :=
  match text.toList with
  | '-' :: rest => (magnitude? rest).any (· < negativeBound)
  | _ => (natural? text).any (· < wholeBound)

/-- Whether digits alone have a zero in front of others; such a scalar is no number. -/
def isPadded (text : List Char) : Bool :=
  match (Decimal.splitSign text).2 with
  | '0' :: c :: rest => (c :: rest).all Char.isDigit
  | _ => false

/-- Whether a plain scalar is a number with a fraction or an exponent, infinite or no number. -/
def isFloat (text : String) : Bool :=
  let unsigned := dropPlus text.toList
  if text ∈ [".inf", ".Inf", ".INF", "+.inf", "+.Inf", "+.INF", "-.inf", "-.Inf", "-.INF", ".nan",
    ".NaN", ".NAN"] then true
  else if unsigned.length < text.length && (unsigned.head?.any (· ∈ ['+', '-'])) then false
  else !isPadded text.toList && ((Decimal.ofLiteral? unsigned).map Decimal.inRange).getD false

/-- Whether a plain scalar is a text. -/
def isText (text : String) : Bool :=
  !(isNull text || isBool text || isInteger text || isFloat text)

end Scalar
end Yaml
end EmbeddedGraphQL
