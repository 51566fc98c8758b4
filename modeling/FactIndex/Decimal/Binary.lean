/-!
# The exact value of a float

A finite float is a whole number times a power of two. All roundings of this library are defined on
that exact value, in whole numbers.

## Main definitions

* `Binary`, `Float.binary?`: the exact value of a float.
* `roundDiv`: a quotient rounded to the nearest whole number, halves to the even neighbour.
* `Binary.floor`, `Binary.truncate`: the whole part, downwards and towards zero.
* `nearestQuotient`: the float nearest to a quotient of whole numbers.
-/

namespace FactIndex.Decimal

/-- The value `± significand * 2 ^ exponent`. -/
structure Binary where
  negative : Bool
  significand : Nat
  exponent : Int
deriving DecidableEq

/-- The exact value of a float. Infinities and undefined results have none. -/
def binary? (x : Float) : Option Binary :=
  let bits : Nat := x.toBits.toNat
  let negative := bits / Nat.pow 2 63 == 1
  let field : Nat := bits / Nat.pow 2 52 % Nat.pow 2 11
  let fraction : Nat := bits % Nat.pow 2 52
  if field == 2047 then none
  else if field == 0 then some ⟨negative, fraction, -1074⟩
  else some ⟨negative, Nat.pow 2 52 + fraction, (field : Int) - 1075⟩

/-- The quotient rounded to the nearest whole number. A half goes to the even neighbour. -/
def roundDiv (num den : Nat) : Nat :=
  let below := num / den
  let rest := num % den
  if 2 * rest < den then below
  else if den < 2 * rest then below + 1
  else if below % 2 == 0 then below else below + 1

namespace Binary

/-- The size of the value as a fraction: numerator and denominator. -/
def fraction (b : Binary) : Nat × Nat :=
  if b.exponent < 0 then (b.significand, Nat.pow 2 (-b.exponent).toNat)
  else (b.significand * Nat.pow 2 b.exponent.toNat, 1)

/-- Whether the value is a whole number. -/
def isWhole (b : Binary) : Bool := b.fraction.1 % b.fraction.2 == 0

/-- The value without its fraction. -/
def truncate (b : Binary) : Int :=
  let size : Int := b.fraction.1 / b.fraction.2
  if b.negative then -size else size

/-- The greatest whole number that is not above the value. -/
def floor (b : Binary) : Int :=
  let num : Int := b.fraction.1
  Int.fdiv (if b.negative then -num else num) b.fraction.2

end Binary

/-- The whole number that a float stands for, if it is one. -/
def whole? (x : Float) : Option Int :=
  (binary? x).bind fun b => if b.isWhole then some b.truncate else none

/-- The float nearest to a quotient of whole numbers. Beyond the whole numbers that floats hold
exactly, the quotient is taken to more places than a float has, with one more bit that says whether
something is left, and rounded once. -/
def nearestQuotient (a : Int) (b : Nat) : Float :=
  if a.natAbs < Nat.pow 2 53 && b < Nat.pow 2 53 then Float.ofInt a / Float.ofNat b
  else
    let shift := 66 + b.log2 - a.natAbs.log2
    let num := a.natAbs * Nat.pow 2 shift
    let sticky := if num % b == 0 then 0 else 1
    let size := (Float.ofNat (2 * (num / b) + sticky)).scaleB (-((shift : Int) + 1))
    if a < 0 then -size else size

end FactIndex.Decimal
