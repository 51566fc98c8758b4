import FactIndex.Decimal.Binary

/-!
# The shortest decimal of a float

The decimal with the fewest digits that reads back as the float, and of those the nearest to it.

The numbers that read back as `m * 2 ^ q` form an interval around it, whose ends belong to it when
`m` is even. For each number of digits the two neighbours of the value on the grid of decimals with
that many digits are tried: if any point of the grid lies in the interval, one of them does.

## Main definitions

* `Scaled`: a whole number times a power of ten.
* `shortest`: the shortest decimal of a float's exact value.
-/

namespace FactIndex.Decimal

/-- The value `significand * 10 ^ exponent`. -/
structure Scaled where
  significand : Nat
  exponent : Int
deriving DecidableEq

/-- The decimal digits of a whole number, first digit first. -/
def digitsOf (n : Nat) : List Char := Nat.toDigits 10 n

/-- How many decimal digits a whole number has. -/
def digitCount (n : Nat) : Nat := (digitsOf n).length

/-- The decimal without zeros at the end. Each step removes one, so the count of digits bounds
them. -/
def Scaled.stripped : Nat → Scaled → Scaled
  | 0, d => d
  | steps + 1, d =>
    if d.significand != 0 && d.significand % 10 == 0 then
      Scaled.stripped steps ⟨d.significand / 10, d.exponent + 1⟩
    else d

/-- The largest `e` with `10 ^ e ≤ num / den`. -/
def leadingExponent (num den : Nat) : Int :=
  let guess : Int := (digitCount num : Int) - digitCount den
  let reached :=
    if guess < 0 then den ≤ num * Nat.pow 10 (-guess).toNat else den * Nat.pow 10 guess.toNat ≤ num
  if reached then guess else guess - 1

/-- The interval of numbers that read back as the float, in units of a common denominator. -/
structure Rounding where
  value : Nat
  low : Nat
  high : Nat
  unit : Nat
  closed : Bool

/-- The interval around `m * 2 ^ q`. Below a power of two the next float is only half as far. -/
def Rounding.around (m : Nat) (q : Int) : Rounding :=
  let below := if m == Nat.pow 2 52 && q > -1074 then 1 else 2
  let scale := if q < 2 then 1 else Nat.pow 2 (q - 2).toNat
  let unit := if q < 2 then Nat.pow 2 (2 - q).toNat else 1
  ⟨4 * m * scale, (4 * m - below) * scale, (4 * m + 2) * scale, unit, m % 2 == 0⟩

/-- Whether `num / den` times the unit lies in the interval. -/
def Rounding.holds (r : Rounding) (num den : Nat) : Bool :=
  if r.closed then r.low * den ≤ num && num ≤ r.high * den
  else r.low * den < num && num < r.high * den

/-- The decimal of the given count of digits that reads back and is nearest, if there is one. -/
def Rounding.decimal? (r : Rounding) (lead : Int) (count : Nat) : Option Scaled :=
  let exponent := lead - count + 1
  let den := if exponent < 0 then Nat.pow 10 (-exponent).toNat else 1
  let step := if exponent < 0 then r.unit else r.unit * Nat.pow 10 exponent.toNat
  let value := r.value * den
  let below := value / step
  let lowFits := r.holds (below * step) den
  let highFits := r.holds ((below + 1) * step) den
  if lowFits && highFits then some ⟨roundDiv value step, exponent⟩
  else if lowFits then some ⟨below, exponent⟩
  else if highFits then some ⟨below + 1, exponent⟩
  else none

/-- The shortest decimal of `m * 2 ^ q`. Seventeen digits always suffice. -/
def shortest (m : Nat) (q : Int) : Scaled :=
  if m == 0 then ⟨0, 0⟩
  else
    let r := Rounding.around m q
    let lead := leadingExponent r.value r.unit
    let found := (List.range 17).findSome? fun i => r.decimal? lead (i + 1)
    Scaled.stripped 17 (found.getD ⟨0, 0⟩)

end FactIndex.Decimal
