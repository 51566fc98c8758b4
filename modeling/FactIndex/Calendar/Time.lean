import FactIndex.Decimal.Numeral
import FactIndex.Failure

/-!
# Points in time

A point in time is a date of one of two calendars with a time of day. Years are astronomical: year 0
is 1 BC. Points are compared by their day numbers, so that ranges work before year 1 as well.

Days are counted from noon of the first of January 4713 BC, with the time of day as fraction. The
formulas that turn a date into such a number and back need whole numbers, quotients and the whole
part of a number. They are written once for every arithmetic that has these operations: floats,
where a number can be too large, and exact fractions.

## Main definitions

* `DayArithmetic`: the operations that the formulas need, with the instances for `Float` and for `Rat`.
* `TimeOf`, `Time`: a date with a time of day, over any arithmetic and over floats.
* `TimeOf.dayNumber`, `TimeOf.ofDayNumber`: the two conversions.
* `Time.label`: the written form.
-/

namespace FactIndex.Calendar

open FactIndex.Decimal

/-! ## Numbers that count days -/

/-- The operations on day numbers. -/
class DayArithmetic (K : Type) extends Add K, Sub K, Mul K, Div K, OfScientific K where
  /-- A whole number as a day number. -/
  ofInt : Int → Except Failure K
  /-- The quotient of two whole numbers. -/
  quotient : Int → Nat → Except Failure K
  /-- The greatest whole number that is not above a day number. -/
  floor : K → Except Failure Int
  /-- A number rounded to three decimals, halves to even. -/
  toThousandth : K → K

/-- A float that came out of whole numbers. An infinite one was too large. -/
def finite (x : Float) : Except Failure Float :=
  if x.isFinite then .ok x else .error .tooLarge

/-- The whole part of a float, downwards. -/
def floorFloat (x : Float) : Except Failure Int :=
  match binary? x with
  | some b => .ok b.floor
  | none => .error (if x.isNaN then .badValue else .tooLarge)

/-- The whole part of a float, towards zero. -/
def truncateFloat (x : Float) : Except Failure Int :=
  match binary? x with
  | some b => .ok b.truncate
  | none => .error (if x.isNaN then .badValue else .tooLarge)

/-- A float rounded to three decimals, halves to even. -/
def thousandthOf (x : Float) : Float :=
  match binary? x with
  | none => x
  | some b =>
    let size := scaled (roundDiv (b.fraction.1 * 1000) b.fraction.2) (-3)
    if b.negative then -size else size

instance : DayArithmetic Float where
  ofInt n := finite (Float.ofInt n)
  quotient a b := finite (nearestQuotient a b)
  floor := floorFloat
  toThousandth := thousandthOf

/-- A fraction rounded to three decimals, halves to even. -/
def thousandthOfRat (x : Rat) : Rat :=
  let size : Rat := (roundDiv (x.num.natAbs * 1000) x.den : Nat) / 1000
  if x < 0 then -size else size

instance : DayArithmetic Rat where
  ofInt n := .ok n
  quotient a b := .ok (a / (b : Rat))
  floor x := .ok x.floor
  toThousandth := thousandthOfRat

/-! ## Dates -/

/-- The calendar of a date. -/
inductive Style where
  | gregorian
  | julian
deriving DecidableEq

/-- A date with a time of day. Nothing keeps the parts in their usual ranges: the day number of a
thirteenth month or of a negative hour is defined all the same. -/
structure TimeOf (K : Type) where
  year : Int
  month : Int
  day : Int
  hour : Int
  minute : Int
  second : K
  calendar : Style

/-- A date with a time of day whose seconds are a float. -/
abbrev Time := TimeOf Float

deriving instance DecidableEq for TimeOf

namespace TimeOf

variable {K : Type} [DayArithmetic K]

open DayArithmetic

/-- Days that the Gregorian calendar drops up to a year: one a century, but for every fourth. -/
def centuryShift (K : Type) [DayArithmetic K] (year : Int) : Except Failure Int := do
  let century ← floor (← quotient (K := K) year 100)
  let fourth ← floor (← quotient (K := K) century 4)
  return 2 - century + fourth

/-- The day number of a point in time. January and February count as months of the year before. -/
def dayNumber (t : TimeOf K) : Except Failure K := do
  let (year, month) := if t.month ≤ 2 then (t.year - 1, t.month + 12) else (t.year, t.month)
  let shift ←
    match t.calendar with
    | .gregorian => centuryShift K year
    | .julian => pure 0
  let yearDays ← floor ((365.25 : K) * (← ofInt (year + 4716)))
  let monthDays ← floor ((30.6001 : K) * (← ofInt (month + 1)))
  let noon := (← ofInt (yearDays + monthDays + t.day + shift)) - (1524.5 : K)
  let hours := (← ofInt t.hour) + (← quotient t.minute 60) + t.second / (← ofInt 3600)
  return noon + hours / (← ofInt 24)

/-- The point in time of a day number. Dates before 15 October 1582 are Julian. -/
def ofDayNumber (number : K) : Except Failure (TimeOf K) := do
  let whole ← floor (number + (0.5 : K))
  let fraction := number + (0.5 : K) - (← ofInt whole)
  let (shifted, calendar) ←
    if 2299161 ≤ whole then do
      let alpha ← floor (((← ofInt whole) - (1867216.25 : K)) / (36524.25 : K))
      let fourth ← floor (← quotient (K := K) alpha 4)
      pure (whole + 1 + alpha - fourth, Style.gregorian)
    else pure (whole, Style.julian)
  let b := shifted + 1524
  let c ← floor (((← ofInt b) - (122.1 : K)) / (365.25 : K))
  let d ← floor ((365.25 : K) * (← ofInt c))
  let e ← floor ((← ofInt (b - d)) / (30.6001 : K))
  let day := b - d - (← floor ((30.6001 : K) * (← ofInt e)))
  let month := if e < 14 then e - 1 else e - 13
  let year := if 2 < month then c - 4716 else c - 4715
  let seconds := toThousandth (fraction * (← ofInt 86400))
  let hour ← floor (seconds / (← ofInt 3600))
  let pastHour := seconds - (← ofInt 3600) * (← ofInt hour)
  let minute ← floor (pastHour / (← ofInt 60))
  let minutes ← floor (seconds / (← ofInt 60))
  let second := seconds - (← ofInt 60) * (← ofInt minutes)
  return ⟨year, month, day, hour, minute, second, calendar⟩

end TimeOf

/-- A whole number padded with zeros to a width. The sign counts. -/
def padded (width : Nat) (n : Int) : String :=
  let digits := toString n.natAbs
  let sign := if n < 0 then "-" else ""
  let zeros := width - (digits.length + sign.length)
  sign ++ String.ofList (List.replicate zeros '0') ++ digits

/-- The date, followed by the time of day unless that is midnight. -/
def Time.label (t : Time) : Except Failure String := do
  let date := padded 4 t.year ++ "-" ++ padded 2 t.month ++ "-" ++ padded 2 t.day
  if t.hour = 0 ∧ t.minute = 0 ∧ t.second == 0 then return date
  else
    let second ← truncateFloat t.second
    return date ++ "T" ++ padded 2 t.hour ++ ":" ++ padded 2 t.minute ++ ":" ++ padded 2 second

end FactIndex.Calendar
