import FactIndex.Decimal.Numeral
import FactIndex.Json.Token

/-!
# Plain scalars

A scalar that stands without quotes is a text unless it has the form of something else: a number, a
truth value, a date, nothing, or one of two marks.

## Main definitions

* `Form`: the forms of plain scalars.
* `Form.of`: the form of a scalar.
* `plainValue`: the value of a scalar.
-/

namespace FactIndex.Yaml

/-- The forms of plain scalars. -/
inductive Form where
  | text
  | truth
  | whole
  | float
  | nothing
  | date
  /-- The mark of a mapping that is merged into another. -/
  | merge
  /-- The mark of a default value. -/
  | default
deriving DecidableEq

/-! ## Shapes of numbers -/

/-- The characters after a sign, if there is one. -/
def afterSign : List Char → List Char
  | '-' :: rest => rest
  | '+' :: rest => rest
  | cs => cs

/-- A digit or the mark between groups of digits. -/
def isGrouped (c : Char) : Bool := c.isDigit || c == '_'

/-- A digit, and then digits and marks. -/
def startsWithDigit : List Char → Bool
  | c :: _ => c.isDigit
  | [] => false

/-- A digit of a base up to sixteen, or the mark between groups. -/
def isGroupedBelow (base : Nat) (c : Char) : Bool :=
  c == '_' || match Json.hexValue? c with
    | some n => n < base
    | none => false

/-- The parts after the first colon, each a number below sixty of at most two digits. -/
def isSixties : Nat → List Char → Bool
  | 0, _ => false
  | fuel + 1, ':' :: rest =>
    let (digits, rest) := rest.span Char.isDigit
    let fits := match digits with
      | [_] => true
      | [tens, _] => tens < '6'
      | _ => false
    fits && (rest.isEmpty || isSixties fuel rest)
  | _, _ => false

/-- Whether the characters, whose sign is gone, are a whole number. -/
def isWhole (cs : List Char) : Bool :=
  match cs with
  | '0' :: 'b' :: rest => !rest.isEmpty && rest.all (isGroupedBelow 2)
  | '0' :: 'x' :: rest => !rest.isEmpty && rest.all (isGroupedBelow 16)
  | '0' :: rest => rest.all (isGroupedBelow 8)
  | c :: rest =>
    let (_, tail) := rest.span isGrouped
    c.isDigit && (tail.isEmpty || isSixties tail.length tail)
  | [] => false

/-- Whether the characters are nothing, or an exponent with a sign. -/
def isExponent : List Char → Bool
  | [] => true
  | e :: sign :: rest =>
    (e == 'e' || e == 'E') && (sign == '+' || sign == '-') && !rest.isEmpty && rest.all Char.isDigit
  | _ => false

/-- Whether the characters, whose sign is gone, are a number with a point. -/
def isPointed (cs : List Char) : Bool :=
  startsWithDigit cs &&
    match cs.span isGrouped with
    | (_, '.' :: rest) => isExponent (rest.dropWhile isGrouped)
    | (_, rest) =>
      let (sixties, fraction) := rest.span (· ≠ '.')
      isSixties sixties.length sixties &&
        match fraction with
        | '.' :: digits => digits.all isGrouped
        | _ => false

/-- Whether the characters are a float. -/
def isFloat (cs : List Char) : Bool :=
  let unsigned := afterSign cs
  isPointed unsigned ||
    [".inf", ".Inf", ".INF"].contains (String.ofList unsigned) ||
    [".nan", ".NaN", ".NAN"].contains (String.ofList cs) ||
    match cs with
    | '.' :: rest => startsWithDigit rest && isExponent (rest.dropWhile isGrouped)
    | _ => false

/-! ## Dates -/

/-- So and so many digits, and what follows them. -/
def afterDigits (least most : Nat) (cs : List Char) : Option (List Char) :=
  let n := ((cs.take most).takeWhile Char.isDigit).length
  if least ≤ n then some (cs.drop n) else none

/-- What follows a character. -/
def after (c : Char) : List Char → Option (List Char)
  | d :: rest => if d = c then some rest else none
  | [] => none

/-- Whether the characters are a time zone, or nothing. -/
def isZone (cs : List Char) : Bool :=
  match cs.dropWhile fun c => c == ' ' || c == '\t' with
  | [] => cs.isEmpty
  | 'Z' :: rest => rest.isEmpty
  | sign :: rest =>
    (sign == '+' || sign == '-') &&
      match afterDigits 1 2 rest with
      | some [] => true
      | some (':' :: rest) => afterDigits 2 2 rest == some []
      | _ => false

/-- Whether the characters are a time of day. -/
def isClock (cs : List Char) : Bool :=
  let rest := do
    let rest ← after ':' (← afterDigits 1 2 cs)
    let rest ← after ':' (← afterDigits 2 2 rest)
    afterDigits 2 2 rest
  match rest with
  | some ('.' :: rest) => isZone (rest.dropWhile Char.isDigit)
  | some rest => isZone rest
  | none => false

/-- Whether the characters are a date, perhaps with a time of day. -/
def isDate (cs : List Char) : Bool :=
  let day (least : Nat) : Option (List Char) := do
    let rest ← after '-' (← afterDigits 4 4 cs)
    let rest ← after '-' (← afterDigits least 2 rest)
    afterDigits least 2 rest
  day 2 == some [] ||
    match day 1 with
    | some ('T' :: rest) | some ('t' :: rest) => isClock rest
    | some (c :: rest) =>
      (c == ' ' || c == '\t') && isClock (rest.dropWhile fun c => c == ' ' || c == '\t')
    | _ => false

/-! ## Forms -/

/-- The words for truth. -/
def trueWords : List String := ["yes", "Yes", "YES", "true", "True", "TRUE", "on", "On", "ON"]

/-- The words for falsehood. -/
def falseWords : List String := ["no", "No", "NO", "false", "False", "FALSE", "off", "Off", "OFF"]

/-- The form of a scalar. -/
def Form.of (s : String) : Form :=
  let cs := s.toList
  if trueWords.contains s || falseWords.contains s then .truth
  else if isFloat cs then .float
  else if isWhole (afterSign cs) then .whole
  else if s = "<<" then .merge
  else if ["~", "null", "Null", "NULL", ""].contains s then .nothing
  else if isDate cs then .date
  else if s = "=" then .default
  else .text

/-! ## Values -/

/-- The parts of a number to the base sixty, taken together. -/
def sixtiesOf (parts : List String) : Int :=
  parts.foldl (fun n part => n * 60 + (Decimal.wholeOf part.toList : Int)) 0

/-- The value of digits of a base. -/
def digitsOf (base : Nat) (cs : List Char) : Int :=
  cs.foldl (fun n c => n * base + ((Json.hexValue? c).getD 0 : Int)) 0

/-- The value of a whole number, whose sign and marks are gone. -/
def wholeValue : List Char → Int
  | '0' :: 'b' :: rest => digitsOf 2 rest
  | '0' :: 'x' :: rest => digitsOf 16 rest
  | '0' :: rest => digitsOf 8 rest
  | cs => sixtiesOf ((String.ofList cs).splitOn ":")

/-- The value of a float, whose sign and marks are gone. -/
def floatValue (cs : List Char) : Float :=
  match (String.ofList cs).splitOn ":" with
  | [_] =>
    match String.ofList (cs.map Char.toLower) with
    | ".inf" => 1 / 0
    | ".nan" => 0 / 0
    | text => (Decimal.argumentFloat? text).getD 0
  | parts => parts.foldl (fun x part => x * 60 + (Decimal.argumentFloat? part).getD 0) 0

/-- The value of a scalar that has a form. A default value stands for nothing that can be made. A date is
kept apart from texts and numbers, in a list of its own. -/
def valueOf (form : Form) (s : String) : Option Json :=
  let cs := s.toList.filter (· ≠ '_')
  let isNegative := cs.head? = some '-'
  match form with
  | .text | .merge => some (.str s)
  | .truth => some (.bool (trueWords.contains s))
  | .whole =>
    let n := wholeValue (afterSign cs)
    some (.int (if isNegative then -n else n))
  | .float =>
    let x := floatValue (afterSign cs)
    some (.float (if isNegative then -x else x))
  | .nothing => some .null
  | .date => some (.arr [.str s])
  | .default => none

/-- The value of a plain scalar. -/
def plainValue (s : String) : Option Json := valueOf (Form.of s) s

end FactIndex.Yaml
