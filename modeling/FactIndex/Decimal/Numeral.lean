import FactIndex.Decimal.Binary
import FactIndex.Text.Characters

/-!
# Reading numbers

Three grammars for written numbers share one scanner of decimals:

* the numbers of JSON texts,
* the texts that a numeric field accepts in place of a number,
* the texts that a numeric argument accepts, where digits may be of any script.

Digits may be grouped with an underscore between two of them where a grammar says so.

## Main definitions

* `scaled`: the float nearest to a whole number times a power of ten.
* `decimal?`: an unsigned decimal with optional fraction and exponent.
* `fieldInt?`, `fieldFloat?`: the texts that numeric fields accept.
* `argumentInt?`, `argumentFloat?`: the texts that numeric arguments accept.
-/

namespace FactIndex.Decimal

open FactIndex.Text

/-- The whole number that a run of digits stands for. -/
def wholeOf (digits : List Char) : Nat :=
  digits.foldl (fun n c => 10 * n + (c.toNat - 48)) 0

/-- A run of digits, at least one. -/
def whole (digits : List Char) : Option Nat :=
  if !digits.isEmpty && digits.all Char.isDigit then some (wholeOf digits) else none

/-- The float nearest to `significand * 10 ^ exponent`. Far beyond the range of floats the answer is
known without computing the power. -/
def scaled (significand : Nat) (exponent : Int) : Float :=
  let size : Int := (Nat.toDigits 10 significand).length + exponent
  if significand == 0 || size < -330 then 0
  else if 310 < size then 1 / 0
  else Float.ofScientific significand (exponent < 0) exponent.natAbs

/-- The digits at the front and what follows them. -/
def spanDigits (cs : List Char) : List Char × List Char := cs.span Char.isDigit

/-- The exponent at the front of what follows a mantissa: nothing, or `e`, a sign and digits. -/
def exponent? : List Char → Option Int
  | [] => some 0
  | e :: rest =>
    if e == 'e' || e == 'E' then
      match rest with
      | '+' :: digits => (whole digits).map Int.ofNat
      | '-' :: digits => (whole digits).map fun n => -(n : Int)
      | digits => (whole digits).map Int.ofNat
    else none

/-- An unsigned decimal: digits, perhaps a point, perhaps more digits, perhaps an exponent. One of
the two runs of digits may be empty. The result is a whole number and a power of ten. -/
def decimal? (cs : List Char) : Option (Nat × Int) :=
  let (front, rest) := spanDigits cs
  match rest with
  | '.' :: rest =>
    let (back, rest) := spanDigits rest
    if front.isEmpty && back.isEmpty then none
    else (exponent? rest).map fun e => (wholeOf (front ++ back), e - back.length)
  | rest =>
    if front.isEmpty then none
    else (exponent? rest).map fun e => (wholeOf front, e)

/-- An unsigned float: a decimal or one of the names of values without digits. -/
def unsignedFloat? (cs : List Char) : Option Float :=
  let name := String.ofList (cs.map Char.toLower)
  if name == "inf" || name == "infinity" then some (1 / 0)
  else if name == "nan" then some (0 / 0)
  else (decimal? cs).map fun d => scaled d.1 d.2

/-- A float with an optional sign. -/
def signedFloat? : List Char → Option Float
  | '+' :: rest => unsignedFloat? rest
  | '-' :: rest => (unsignedFloat? rest).map fun x => -x
  | cs => unsignedFloat? cs

/-- A whole number with an optional sign. -/
def signedInt? : List Char → Option Int
  | '+' :: rest => (whole rest).map Int.ofNat
  | '-' :: rest => (whole rest).map fun n => -(n : Int)
  | cs => (whole cs).map Int.ofNat

/-- The characters without grouping marks. Each mark has to stand between two digits. -/
def ungroup? (afterDigit : Bool) : List Char → Option (List Char)
  | [] => some []
  | c :: rest =>
    if c == '_' then
      match rest with
      | d :: _ => if afterDigit && d.isDigit then ungroup? false rest else none
      | [] => none
    else (ungroup? c.isDigit rest).map (c :: ·)

/-! ## Texts in numeric fields -/

/-- Whether two grouping marks stand side by side. -/
def hasDoubleMark : List Char → Bool
  | '_' :: '_' :: _ => true
  | _ :: rest => hasDoubleMark rest
  | [] => false

/-- The characters without grouping marks. A mark may stand neither at an end nor beside another. -/
def looseUngroup? (cs : List Char) : Option (List Char) :=
  if cs.head? == some '_' || cs.getLast? == some '_' || hasDoubleMark cs then none
  else some (cs.filter (· != '_'))

/-- The characters after leading zeros. One zero is kept if no digit other than zero follows. -/
def afterZeros : List Char → Option (List Char)
  | [] => some ['0']
  | c :: rest =>
    if c == '0' then afterZeros rest
    else if c == '_' then (if rest.isEmpty then none else afterZeros rest)
    else if c == '.' then some ('0' :: c :: rest)
    else if c.isDigit then some (c :: rest)
    else none

/-- The characters without a fraction that consists of zeros. -/
def withoutZeroFraction (cs : List Char) : List Char :=
  let (front, rest) := cs.span (· != '.')
  match rest with
  | '.' :: zeros => if zeros.all (· == '0') then front else cs
  | _ => cs

/-- The whole number that the text of a numeric field stands for: a sign, digits with grouping
marks, and perhaps a fraction of zeros, with white space around. -/
def fieldInt? (s : String) : Option Int :=
  let cs := trimWhere isSpace s.toList
  let unsigned :=
    match cs with
    | '+' :: '-' :: _ => none
    | '+' :: rest => some rest
    | cs => some cs
  let trimmed := unsigned.bind fun cs =>
    match cs with
    | '0' :: rest => afterZeros rest
    | c :: _ => if c.isDigit || c == '-' then some cs else none
    | [] => none
  (trimmed.bind fun cs => looseUngroup? (withoutZeroFraction cs)).bind fun cs =>
    match cs with
    | '-' :: rest => (whole rest).map fun n => -(n : Int)
    | cs => (whole cs).map Int.ofNat

/-- The float that the text of a numeric field stands for. -/
def fieldFloat? (s : String) : Option Float :=
  match signedFloat? (trimWhere isSpace s.toList) with
  | some x => some x
  | none => (looseUngroup? s.toList).bind fun cs => signedFloat? (trimWhere isSpace cs)

/-! ## Texts as numeric arguments -/

/-- The characters with the digits of every script replaced by the common ones, without white space at
the ends. -/
def normalDigits (s : String) : List Char :=
  (trimWhere isSpace s.toList).map fun c =>
    match digitValue? c with
    | some n => digitChar n
    | none => c

/-- The whole number that the text of an argument stands for. -/
def argumentInt? (s : String) : Option Int :=
  (ungroup? false (normalDigits s)).bind signedInt?

/-- The float that the text of an argument stands for. -/
def argumentFloat? (s : String) : Option Float :=
  (ungroup? false (normalDigits s)).bind signedFloat?

end FactIndex.Decimal
