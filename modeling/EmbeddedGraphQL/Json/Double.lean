import EmbeddedGraphQL.Text.Decimal

/-!
# Numbers of double precision

A number of double precision is a whole number below `2 ^ 53` times a power of two. What arithmetic
gives is rounded to the nearest such number, and from halfway between two of them to the even one.
Signs are kept elsewhere.

* `Double.ofRatio?`: the number nearest to a ratio.
* `Double.mul?`, `Double.div?`, `Double.timesPowerOfTen?`: arithmetic.
* `Double.shortest`: the fewest decimal digits that stand for a number.
-/

namespace EmbeddedGraphQL

/-- The number `mantissa * 2 ^ exponent`. The mantissa has 53 bits, or fewer if the exponent is the
least one. -/
structure Double where
  /-- The whole number. -/
  mantissa : Nat
  /-- The power of two. -/
  exponent : Int
deriving DecidableEq

namespace Double

/-- The least number that is too large for a mantissa. -/
def mantissaBound : Nat := Nat.pow 2 53

/-- The least power of two. -/
def leastExponent : Int := -1074

/-- The greatest power of two. -/
def greatestExponent : Int := 971

/-- The number zero. -/
def zero : Double := ⟨0, leastExponent⟩

/-- The whole number nearest to a ratio; from halfway, the even one. -/
def nearest (num den : Nat) : Nat :=
  let quotient := num / den
  let rest := num % den
  if den < 2 * rest || (2 * rest = den && quotient % 2 = 1) then quotient + 1 else quotient

/-- A ratio as a ratio of units `base ^ exponent`. -/
def inUnits (base num den : Nat) (exponent : Int) : Nat × Nat :=
  if exponent < 0 then (num * Nat.pow base (-exponent).toNat, den)
  else (num, den * Nat.pow base exponent.toNat)

/-- The power of two in whose units the whole part of a positive ratio has 53 bits, if it is not
below the least one. -/
def unit (num den : Nat) : Int :=
  let low : Int := (Nat.log2 num : Int) - Nat.log2 den - 53
  let (n, d) := inUnits 2 num den low
  max leastExponent (if n / d < mantissaBound then low else low + 1)

/-- The number nearest to a ratio, if it is not too large. -/
def ofRatio? (num den : Nat) : Option Double :=
  if num = 0 then some zero
  else
    let exponent := unit num den
    let (n, d) := inUnits 2 num den exponent
    let mantissa := nearest n d
    let rounded : Double :=
      if mantissa = mantissaBound then ⟨mantissa / 2, exponent + 1⟩ else ⟨mantissa, exponent⟩
    if greatestExponent < rounded.exponent then none else some rounded

/-- A number as a ratio. -/
def ratio (x : Double) : Nat × Nat :=
  if x.exponent < 0 then (x.mantissa, Nat.pow 2 (-x.exponent).toNat)
  else (x.mantissa * Nat.pow 2 x.exponent.toNat, 1)

/-! ## Arithmetic -/

/-- The product of two numbers. -/
def mul? (x y : Double) : Option Double := ofRatio? (x.ratio.1 * y.ratio.1) (x.ratio.2 * y.ratio.2)

/-- The quotient of two numbers. -/
def div? (x y : Double) : Option Double := ofRatio? (x.ratio.1 * y.ratio.2) (x.ratio.2 * y.ratio.1)

/-- The greatest power of ten that is a number of double precision. -/
def greatestPowerOfTen : Nat := 308

/-- The number nearest to a power of ten. -/
def powerOfTen? (n : Nat) : Option Double := ofRatio? (Nat.pow 10 n) 1

/-- A number times a power of ten, in steps of the greatest one at most; `fuel` bounds the number of
steps. Every step is rounded. -/
def timesPowerOfTenUpTo : Nat → Double → Int → Option Double
  | 0, x, exponent =>
    if exponent.natAbs ≤ greatestPowerOfTen then
      powerOfTen? exponent.natAbs >>= if exponent < 0 then x.div? else x.mul?
    else none
  | fuel + 1, x, exponent =>
    if exponent.natAbs ≤ greatestPowerOfTen then
      powerOfTen? exponent.natAbs >>= if exponent < 0 then x.div? else x.mul?
    else if x.mantissa = 0 then some x
    else if 0 ≤ exponent then none
    else do
      let x ← powerOfTen? greatestPowerOfTen >>= x.div?
      timesPowerOfTenUpTo fuel x (exponent + greatestPowerOfTen)

/-- A number times a power of ten. -/
def timesPowerOfTen? (x : Double) (exponent : Int) : Option Double :=
  timesPowerOfTenUpTo exponent.natAbs x exponent

/-! ## Decimal digits -/

/-- The number nearest to a decimal number. -/
def ofDecimal? (d : Decimal) : Option Double :=
  let (num, den) := inUnits 10 d.mantissa 1 (-d.exponent)
  ofRatio? num den

/-- How many decimal digits stand before the point of a positive ratio; below one, less than zero
by the zeros after the point. -/
def magnitude (num den : Nat) : Int :=
  let digits (n : Nat) : Int := (Nat.toDigits 10 n).length
  let low := digits num - digits den
  let (n, d) := inUnits 10 num den low
  if n < d then low else low + 1

/-- The decimal numbers next to a ratio in units of a power of ten, the nearer one first and the
even one from halfway. -/
def neighbours (num den : Nat) (exponent : Int) : List Decimal :=
  let (n, d) := inUnits 10 num den exponent
  let below : Decimal := ⟨n / d, exponent⟩
  let above : Decimal := ⟨n / d + 1, exponent⟩
  if nearest n d = n / d then [below, above] else [above, below]

/-- The number of decimal digits that is always enough. -/
def maxDigits : Nat := 17

/-- The decimal number of the fewest digits that stands for a number, the nearest of several. -/
def shortest (x : Double) : Decimal :=
  let (num, den) := x.ratio
  if num = 0 then ⟨0, 0⟩
  else
    let top := magnitude num den
    let withDigits (n : Nat) : Option Decimal :=
      (neighbours num den (top - n - 1)).find? fun d => ofDecimal? d = some x
    (((List.range maxDigits).findSome? withDigits).getD ⟨0, 0⟩).trimmed

end Double
end EmbeddedGraphQL
