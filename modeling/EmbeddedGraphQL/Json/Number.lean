import EmbeddedGraphQL.Json.Basic
import EmbeddedGraphQL.Json.Double

/-!
# Numbers of JSON

A number that is written with digits alone and fits a machine word is whole. Any other stands for a
number of double precision: of its digits, as many as fit a machine word are read as a whole number,
which is then multiplied with or divided by a power of ten.

* `Number.ofLiteral?`: what a literal stands for.
* `Number.text`: how a number is written.
* `Json.settle?`: a value with its numbers written the way their values are.
-/

namespace EmbeddedGraphQL
namespace Json

/-- What a number stands for. -/
inductive Number where
  /-- A whole number. -/
  | whole (value : Int)
  /-- A number of double precision, with its sign. -/
  | real (negative : Bool) (size : Double)
deriving DecidableEq

namespace Number

/-! ## Reading -/

/-- A number with digits added to it as long as the result fits a machine word, and how many
were. -/
def addDigits (n : Nat) : List Char → Nat × Nat
  | [] => (n, 0)
  | c :: rest =>
    let next := 10 * n + (c.toNat - '0'.toNat)
    if next < wordBound then
      let (sum, count) := addDigits next rest
      (sum, count + 1)
    else (n, 0)

/-- The parts of a literal. -/
structure Literal where
  /-- Whether it starts with a minus. -/
  negative : Bool
  /-- The digits before the point. -/
  whole : List Char
  /-- The digits after the point. -/
  fraction : List Char
  /-- What is left after the digits. -/
  rest : List Char
deriving DecidableEq

/-- The parts of a literal. -/
def parts (literal : List Char) : Literal :=
  let (negative, text) := Decimal.splitSign literal
  let whole := text.takeWhile Char.isDigit
  match text.dropWhile Char.isDigit with
  | '.' :: more => ⟨negative, whole, more.takeWhile Char.isDigit, more.dropWhile Char.isDigit⟩
  | more => ⟨negative, whole, [], more⟩

/-- The greatest size of a whole number with a minus that fits a machine word. -/
def negativeBound : Nat := Nat.pow 2 63

/-- The whole number of a sign and a size, if it fits a machine word. Zero has no minus. -/
def whole? (negative : Bool) (size : Nat) : Option Int :=
  if !negative then some size
  else if 0 < size && size ≤ negativeBound then some (-size)
  else none

/-- What a literal stands for, if it is not too large. -/
def ofLiteral? (literal : List Char) : Option Number := do
  let l := parts literal
  let (size, count) := addDigits 0 l.whole
  let dropped := l.whole.length - count
  let integer :=
    if dropped = 0 && l.fraction.isEmpty && l.rest.isEmpty then whole? l.negative size else none
  match integer with
  | some value => return .whole value
  | none =>
    let (size, places) := addDigits size l.fraction
    let exponent ← Decimal.exponent? l.rest
    let x ← Double.ofRatio? size 1
    let x ← x.timesPowerOfTen? (dropped - places + exponent)
    return .real l.negative x

/-! ## Writing -/

/-- Zeros. -/
def zeros (n : Int) : String := String.ofList (List.replicate n.toNat '0')

/-- How a decimal number is written: with a point, and with an exponent if it is far from one. -/
def decimalText (d : Decimal) : String :=
  let digits := Nat.toDigits 10 d.mantissa
  let text := String.ofList digits
  let top : Int := digits.length + d.exponent
  if 0 ≤ d.exponent && top ≤ 16 then text ++ zeros d.exponent ++ ".0"
  else if 0 < top && top ≤ 16 then
    String.ofList (digits.take top.toNat) ++ "." ++ String.ofList (digits.drop top.toNat)
  else if -5 < top && top ≤ 0 then "0." ++ zeros (-top) ++ text
  else
    let rest := digits.drop 1
    let point := if rest.isEmpty then "" else "." ++ String.ofList rest
    String.ofList (digits.take 1) ++ point ++ "e" ++ toString (top - 1)

/-- How a number is written. -/
def text : Number → String
  | .whole value => toString value
  | .real negative size => (if negative then "-" else "") ++ decimalText size.shortest

end Number

/-! ## Values -/

mutual

/-- A value with its numbers written the way their values are. No number may be too large and no
quoted text broken. -/
def settle? : Json → Option Json
  | .num literal => (Number.ofLiteral? literal.toList).map (.num ·.text)
  | .broken => none
  | .array items => (settleItems? items).map .array
  | .object members => (settleMembers? members).map .object
  | value => some value

/-- Values with their numbers written the way their values are. -/
def settleItems? : List Json → Option (List Json)
  | [] => some []
  | item :: items => do return (← settle? item) :: (← settleItems? items)

/-- Members with their numbers written the way their values are. -/
def settleMembers? : List (String × Json) → Option (List (String × Json))
  | [] => some []
  | (key, value) :: members => do return (key, ← settle? value) :: (← settleMembers? members)

end

end Json
end EmbeddedGraphQL
