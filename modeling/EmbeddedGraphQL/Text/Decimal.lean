/-!
# Decimal numbers

Numbers are written in decimal with an optional fraction and exponent. A number is in range when it
rounds to a finite number of double precision.

* `Decimal.ofLiteral?`: the number a literal stands for.
* `Decimal.trimmed`: the number without zeros at the end.
* `Decimal.inRange`: whether it is in range.
-/

namespace EmbeddedGraphQL

/-- The number `mantissa * 10 ^ exponent`, without its sign. -/
structure Decimal where
  /-- The digits, read as a whole number. -/
  mantissa : Nat
  /-- The power of ten. -/
  exponent : Int
deriving DecidableEq

namespace Decimal

/-- The number written with decimal digits. -/
def digitsValue (digits : List Char) : Nat :=
  digits.foldl (fun n c => 10 * n + (c.toNat - '0'.toNat)) 0

/-- A text without the sign it starts with, and whether that was a minus. -/
def splitSign : List Char → Bool × List Char
  | '-' :: text => (true, text)
  | '+' :: text => (false, text)
  | text => (false, text)

/-- The exponent a literal ends in, after its digits. -/
def exponent? : List Char → Option Int
  | [] => some 0
  | c :: text =>
    let (negative, digits) := splitSign text
    if (c = 'e' || c = 'E') && !digits.isEmpty && digits.all Char.isDigit then
      some (if negative then -(digitsValue digits : Int) else (digitsValue digits : Int))
    else none

/-- The number a literal stands for: an optional sign, digits with at most one point among or
around them, and an optional exponent. -/
def ofLiteral? (literal : List Char) : Option Decimal := do
  let text := (splitSign literal).2
  let whole := text.takeWhile Char.isDigit
  let (fraction, rest) := match text.dropWhile Char.isDigit with
    | '.' :: more => (more.takeWhile Char.isDigit, more.dropWhile Char.isDigit)
    | more => ([], more)
  if whole.isEmpty && fraction.isEmpty then none
  let exponent ← exponent? rest
  return ⟨digitsValue (whole ++ fraction), exponent - fraction.length⟩

/-- The same number without zeros at the end of its mantissa; `fuel` bounds their number. -/
def trimmedUpTo : Nat → Decimal → Decimal
  | 0, d => d
  | fuel + 1, d =>
    if d.mantissa ≠ 0 && d.mantissa % 10 = 0 then trimmedUpTo fuel ⟨d.mantissa / 10, d.exponent + 1⟩
    else d

/-- The same number without zeros at the end of its mantissa. -/
def trimmed (d : Decimal) : Decimal := trimmedUpTo d.mantissa d

/-- The least number that is too large: half a step above the largest finite number of double
precision. -/
def bound : Nat := Nat.pow 2 1024 - Nat.pow 2 970

/-- The number of decimal digits of `bound`. -/
def boundDigits : Nat := 309

/-- Whether the number rounds to a finite number of double precision. The number of its digits
decides, unless it is that of the bound. -/
def inRange (d : Decimal) : Bool :=
  if d.mantissa = 0 then true
  else
    let digits : Int := (Nat.toDigits 10 d.mantissa).length + d.exponent
    if digits < boundDigits then true
    else if (boundDigits : Int) < digits then false
    else if 0 ≤ d.exponent then d.mantissa * Nat.pow 10 d.exponent.toNat < bound
    else d.mantissa < bound * Nat.pow 10 (-d.exponent).toNat

end Decimal
end EmbeddedGraphQL
