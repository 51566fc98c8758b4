import FactIndex.Json.Basic
import FactIndex.Decimal.Layout

/-!
# Writing JSON texts

One printer serves all written forms. A style says what stands between members, whether members are
sorted, how floats are written and which characters are escaped.

## Main definitions

* `escape`: the characters of a text as they stand between quotes.
* `Style.print`: the text of a value.
* `Style.document`, `Style.canonical`, `Style.stored`: the three compact forms.
* `printIndented`: the form with one member a line.
-/

namespace FactIndex.Json

open FactIndex.Decimal

/-! ## Quoted texts -/

/-- The hexadecimal digit of a number below sixteen. -/
def hexDigit (n : Nat) : Char := if n < 10 then Char.ofNat (48 + n) else Char.ofNat (87 + n)

/-- A code unit as an escape with four hexadecimal digits. -/
def unitEscape (n : Nat) : List Char :=
  ['\\', 'u', hexDigit (n / 4096 % 16), hexDigit (n / 256 % 16), hexDigit (n / 16 % 16),
    hexDigit (n % 16)]

/-- A character as one or two escapes. -/
def wideEscape (c : Char) : List Char :=
  let n := c.toNat
  if n < 0x10000 then unitEscape n
  else
    let offset := n - 0x10000
    unitEscape (0xd800 + offset / 0x400) ++ unitEscape (0xdc00 + offset % 0x400)

/-- A character as it stands between quotes. -/
def escapeChar (asciiOnly : Bool) (c : Char) : List Char :=
  if c == '"' then ['\\', '"']
  else if c == '\\' then ['\\', '\\']
  else if c.toNat == 8 then ['\\', 'b']
  else if c.toNat == 9 then ['\\', 't']
  else if c.toNat == 10 then ['\\', 'n']
  else if c.toNat == 12 then ['\\', 'f']
  else if c.toNat == 13 then ['\\', 'r']
  else if c.toNat < 0x20 then unitEscape c.toNat
  else if asciiOnly && 0x7e < c.toNat then wideEscape c
  else [c]

/-- The characters of a text as they stand between quotes. -/
def escape (asciiOnly : Bool) (cs : List Char) : List Char :=
  cs.flatMap (escapeChar asciiOnly)

/-- A text between quotes. -/
def quote (asciiOnly : Bool) (s : String) : String :=
  String.ofList ('"' :: escape asciiOnly s.toList ++ ['"'])

/-! ## Values -/

/-- A written form of values. -/
structure Style where
  /-- What stands between two members or elements. -/
  between : String
  /-- What stands between a key and its value. -/
  afterKey : String
  /-- Whether only printable ASCII characters are written raw. -/
  asciiOnly : Bool
  /-- Whether members are sorted by key. -/
  sorted : Bool
  /-- How floats are written. -/
  floats : Layout

/-- The compact form of documents. -/
def Style.document : Style := ⟨",", ":", false, false, .document⟩

/-- The form that depends on neither spacing nor the order of members. -/
def Style.canonical : Style := ⟨",", ":", true, true, .stored⟩

/-- The form in which values are kept by a key-value server. -/
def Style.stored : Style := ⟨", ", ": ", true, false, .stored⟩

/-- The texts put between an opening and a closing bracket. -/
def bracket (opening closing between : String) (parts : List String) : String :=
  opening ++ between.intercalate parts ++ closing

/-- Key and written value pairs in increasing order of the keys. -/
def sortByKey (parts : List (String × String)) : List (String × String) :=
  parts.mergeSort fun a b => decide (a.1 ≤ b.1)

namespace Style

mutual

/-- The text of a value. -/
def print (style : Style) : Json → String
  | .null => "null"
  | .bool true => "true"
  | .bool false => "false"
  | .int n => toString n
  | .float x => style.floats.write x
  | .str s => quote style.asciiOnly s
  | .arr xs => bracket "[" "]" style.between (style.printList xs)
  | .obj ms =>
    let parts := style.printMembers ms
    let ordered := if style.sorted then sortByKey parts else parts
    bracket "\x7b" "\x7d" style.between
      (ordered.map fun p => quote style.asciiOnly p.1 ++ style.afterKey ++ p.2)

/-- The texts of the elements of an array. -/
def printList (style : Style) : List Json → List String
  | [] => []
  | x :: xs => style.print x :: style.printList xs

/-- The keys of an object with the texts of their values. -/
def printMembers (style : Style) : List (String × Json) → List (String × String)
  | [] => []
  | (k, v) :: ms => (k, style.print v) :: style.printMembers ms

end

end Style

/-! ## One member a line -/

/-- The lines of a container. Each part stands on its own line, two columns further in. -/
def block (opening closing : String) (column : Nat) (parts : List String) : String :=
  if parts.isEmpty then opening ++ closing
  else
    let line := "\n" ++ String.ofList (List.replicate (column + 2) ' ')
    let last := "\n" ++ String.ofList (List.replicate column ' ')
    opening ++ line ++ ("," ++ line).intercalate parts ++ last ++ closing

mutual

/-- The text of a value that starts at a column, one member a line. -/
def printIndented (column : Nat) : Json → String
  | .arr xs => block "[" "]" column (printIndentedList (column + 2) xs)
  | .obj ms => block "\x7b" "\x7d" column (printIndentedMembers (column + 2) ms)
  | value => Style.document.print value

/-- The texts of the elements of an array. -/
def printIndentedList (column : Nat) : List Json → List String
  | [] => []
  | x :: xs => printIndented column x :: printIndentedList column xs

/-- The texts of the members of an object. -/
def printIndentedMembers (column : Nat) : List (String × Json) → List String
  | [] => []
  | (k, v) :: ms =>
    (quote false k ++ ": " ++ printIndented column v) :: printIndentedMembers column ms

end

/-- The JSON text of a value, compact or indented by two columns. -/
def documentText (indented : Bool) (value : Json) : String :=
  if indented then printIndented 0 value else Style.document.print value

end FactIndex.Json
