import FactIndex.Decimal.Shortest

/-!
# Written forms of floats

A layout says how the digits of a float are set: which exponents are written out in full, how an
exponent is written, and what stands for values that have no digits.

## Main definitions

* `Layout.write`: the text of a float in a layout.
* `Layout.literal`: the form used in texts and in stored values.
* `Layout.document`: the form used in JSON documents.
* `fixedPlaces`: a float with a fixed number of decimals.
-/

namespace FactIndex.Decimal

/-- How floats are written. -/
structure Layout where
  /-- The least decimal exponent that is written out in full. -/
  lowest : Int
  /-- The least decimal exponent, above `lowest`, that is no longer written out in full. -/
  limit : Int
  /-- The least number of digits of an exponent. -/
  exponentWidth : Nat
  undefinedText : String
  infinityText : String
  negativeInfinityText : String

/-- The digits in full, with the point where the exponent of the first digit puts it. -/
def positional (digits : List Char) (lead : Int) : List Char :=
  if lead < 0 then ['0', '.'] ++ List.replicate (-lead - 1).toNat '0' ++ digits
  else
    let whole := lead.toNat + 1
    if digits.length ≤ whole then
      digits ++ List.replicate (whole - digits.length) '0' ++ ['.', '0']
    else digits.take whole ++ ['.'] ++ digits.drop whole

/-- One digit before the point, the others after it, and the exponent of the first. -/
def scientific (width : Nat) (digits : List Char) (lead : Int) : List Char :=
  let mantissa :=
    match digits with
    | first :: second :: rest => [first, '.', second] ++ rest
    | short => short
  let power := digitsOf lead.natAbs
  mantissa ++ ['e', if lead < 0 then '-' else '+'] ++
    List.replicate (width - power.length) '0' ++ power

/-- The text of a float. -/
def Layout.write (layout : Layout) (x : Float) : String :=
  match binary? x with
  | none =>
    if x.isNaN then layout.undefinedText
    else if x < 0 then layout.negativeInfinityText
    else layout.infinityText
  | some b =>
    let decimal := shortest b.significand b.exponent
    let digits := digitsOf decimal.significand
    let lead := decimal.exponent + digits.length - 1
    let body :=
      if layout.lowest ≤ lead && lead < layout.limit then positional digits lead
      else scientific layout.exponentWidth digits lead
    String.ofList (if b.negative then '-' :: body else body)

/-- Exponents from -4 to 15 are written in full, others have at least two digits. -/
def Layout.literal : Layout := ⟨-4, 16, 2, "nan", "inf", "-inf"⟩

/-- As `literal`, with the names that JSON texts use for values without digits. -/
def Layout.stored : Layout := ⟨-4, 16, 2, "NaN", "Infinity", "-Infinity"⟩

/-- Exponents from -5 to 15 are written in full, others without padding. Values without digits are
not kept. -/
def Layout.document : Layout := ⟨-5, 16, 1, "null", "null", "null"⟩

/-- A float with the given number of decimals. The exact value is rounded, halves to even. -/
def fixedPlaces (places : Nat) (x : Float) : String :=
  match binary? x with
  | none => if x.isNaN then "nan" else if x < 0 then "-inf" else "inf"
  | some b =>
    let scaled := roundDiv (b.fraction.1 * Nat.pow 10 places) b.fraction.2
    let digits := digitsOf scaled
    let padded := List.replicate (places + 1 - digits.length) '0' ++ digits
    let whole := padded.take (padded.length - places)
    let body := whole ++ ['.'] ++ padded.drop (padded.length - places)
    String.ofList (if b.negative then '-' :: body else body)

end FactIndex.Decimal
