import FactIndex.Decimal.Layout
import FactIndex.Yaml.Cursor
import FactIndex.Yaml.Scalar

/-!
# Writing YAML texts

Mappings and sequences are shown by indentation, only empty ones by brackets. A text goes without quotes
where it would be read back as the same text. Long texts are broken at blanks.

## Main definitions

* `Pen`: what has been written, and where the next character goes.
* `Quoting.of`: how a text is quoted.
* `Pen.node`: writes a value.
* `print`: the text of a value.
-/

namespace FactIndex.Yaml

/-- What has been written, and where the next character goes. -/
structure Pen where
  text : String := ""
  column : Nat := 0
  /-- Whether a blank, or nothing, comes last. -/
  isAfterBlank : Bool := true
  /-- Whether nothing but marks and blanks stand on the line. -/
  isIndented : Bool := true

/-- How wide lines are, as far as they can be broken. -/
def width : Nat := 80

namespace Pen

/-- Writes characters. -/
def write (p : Pen) (cs : List Char) : Pen :=
  { p with text := p.text ++ String.ofList cs, column := p.column + cs.length }

/-- Starts a line. -/
def newline (p : Pen) : Pen := ⟨p.text ++ "\n", 0, true, true⟩

/-- Goes to a column, on a new line unless the line has nothing but marks before it. -/
def goTo (p : Pen) (column : Nat) : Pen :=
  let p :=
    if !p.isIndented || column < p.column || (p.column == column && !p.isAfterBlank) then p.newline
    else p
  if p.column < column then
    { p.write (List.replicate (column - p.column) ' ') with isAfterBlank := true }
  else p

/-- Writes a mark, with a blank before it if needed. -/
def mark (p : Pen) (s : String) (apart : Bool) (isIndented : Bool := false) : Pen :=
  let cs := if p.isAfterBlank || !apart then s.toList else ' ' :: s.toList
  { p.write cs with isAfterBlank := false, isIndented := p.isIndented && isIndented }

/-- Goes on with a text on a new line. -/
def continueAt (p : Pen) (column : Nat) : Pen :=
  { p.goTo column with isAfterBlank := false, isIndented := false }

end Pen

/-! ## Quoting -/

/-- How a text is quoted. -/
inductive Quoting where
  | plain
  | single
  | double
deriving DecidableEq

namespace Quoting

/-- Whether a character is written as it is. -/
def isRaw (c : Char) : Bool := c == '\n' || (0x20 ≤ c.toNat && c.toNat ≤ 0x7e)

/-- Whether a character would be taken for a mark, seen with those around it. -/
def isMark (before : Option Char) (c : Char) (after : Option Char) : Bool :=
  let ends := match after with
    | some d => endsWord d
    | none => true
  match before with
  | none => "#,[]\x7b\x7d&*!|>'\"%@`".toList.contains c || ("?:-".toList.contains c && ends)
  | some b => (c == ':' && ends) || (c == '#' && endsWord b)

/-- Whether a character of a text satisfies a condition, seen with those around it. -/
def anyAround (p : Option Char → Char → Option Char → Bool) : Option Char → List Char → Bool
  | _, [] => false
  | before, c :: rest => p before c rest.head? || anyAround p (some c) rest

/-- Whether the text starts with the mark of a document. -/
def startsDocument (cs : List Char) : Bool :=
  ['-', '-', '-'].isPrefixOf cs || ['.', '.', '.'].isPrefixOf cs

/-- Whether blanks and line breaks lie next to each other. -/
def hasRaggedBreak (cs : List Char) : Bool :=
  anyAround (fun before c _ =>
    (c == ' ' && before == some '\n') || (c == '\n' && before == some ' ')) none cs

/-- Whether the text can stand between single quotes. -/
def allowsSingle (cs : List Char) : Bool := cs.all isRaw && !hasRaggedBreak cs

/-- Whether the text can stand without quotes. -/
def allowsPlain (cs : List Char) : Bool :=
  let isEdge (c : Option Char) : Bool := c == some ' ' || c == some '\n'
  cs.all isRaw && !cs.contains '\n' && !isEdge cs.head? && !isEdge cs.getLast? &&
    !startsDocument cs && !anyAround isMark none cs

/-- How a text is quoted, as a key or elsewhere. A key stays on its line. -/
def of (isKey : Bool) (s : String) : Quoting :=
  let cs := s.toList
  if Form.of s = .text ∧ allowsPlain cs then .plain
  else if allowsSingle cs ∧ !(isKey ∧ cs.contains '\n') then .single
  else .double

end Quoting

/-! ## Texts -/

/-- The runs of blanks, of line breaks and of other characters in a text. -/
def runs (cs : List Char) : List (List Char) :=
  let kind (c : Char) : Nat := if c == ' ' then 0 else if c == '\n' then 1 else 2
  cs.splitBy fun a b => kind a == kind b

namespace Pen

/-- Writes the runs of a text without quotes. A line that is too long is broken at a single blank. -/
def plainRuns (column : Nat) (splits : Bool) : List (List Char) → Pen → Pen
  | [], p => p
  | run :: rest, p =>
    plainRuns column splits rest
      (if run = [' '] ∧ width < p.column ∧ splits then p.continueAt column else p.write run)

/-- Writes a text without quotes. -/
def plain (p : Pen) (column : Nat) (splits : Bool) (cs : List Char) : Pen :=
  if cs.isEmpty then p
  else
    let p := if p.isAfterBlank then p else p.write [' ']
    plainRuns column splits (runs cs) { p with isAfterBlank := false, isIndented := false }

/-- Writes line breaks. One break more stands for the end of the line. -/
def breaks (p : Pen) : Nat → Pen
  | 0 => p
  | n + 1 => p.newline.breaks n

/-- Writes the runs of a text between single quotes. -/
def singleRuns (column : Nat) (splits : Bool) : Bool → List (List Char) → Pen → Pen
  | _, [], p => p
  | isFirst, run :: rest, p =>
    singleRuns column splits false rest
      (if run.head? = some '\n' then (p.newline.breaks run.length).goTo column
        else if run = [' '] ∧ width < p.column ∧ splits ∧ !isFirst ∧ rest ≠ [] then p.goTo column
        else p.write (run.flatMap fun c => if c = '\'' then ['\'', '\''] else [c]))

/-- Writes a text between single quotes. -/
def single (p : Pen) (column : Nat) (splits : Bool) (cs : List Char) : Pen :=
  (singleRuns column splits true (runs cs) (p.mark "'" true)).mark "'" false

/-- The characters that stand after a backslash for another one. -/
def escapes : List (Nat × Char) :=
  [(0, '0'), (7, 'a'), (8, 'b'), (9, 't'), (10, 'n'), (11, 'v'), (12, 'f'), (13, 'r'), (27, 'e'),
    (34, '"'), (92, '\\'), (0x85, 'N'), (0xa0, '_'), (0x2028, 'L'), (0x2029, 'P')]

/-- A number with so and so many hexadecimal digits, in capitals. -/
def hexDigits (digits n : Nat) : List Char :=
  (List.replicate (digits - (Nat.toDigits 16 n).length) '0' ++ Nat.toDigits 16 n).map Char.toUpper

/-- A character as it stands between double quotes, if it is not written as it is. -/
def escape? (c : Char) : Option (List Char) :=
  let n := c.toNat
  match escapes.lookup n with
  | some d => some ['\\', d]
  | none =>
    if 0x20 ≤ n ∧ n ≤ 0x7e then none
    else if n ≤ 0xff then some ('\\' :: 'x' :: hexDigits 2 n)
    else if n ≤ 0xffff then some ('\\' :: 'u' :: hexDigits 4 n)
    else some ('\\' :: 'U' :: hexDigits 8 n)

/-- Breaks a line inside of double quotes. A blank that comes next is kept by a backslash. -/
def breakDouble (p : Pen) (column : Nat) (next : Option Char) : Pen :=
  let p := (p.write ['\\']).continueAt column
  if next = some ' ' then p.write ['\\'] else p

/-- Writes a text between double quotes, of which some characters, the last one first, are still to be
written. -/
def doubleFrom (column : Nat) (splits : Bool) : List Char → List Char → Bool → Pen → Pen
  | [], pending, _, p => p.write pending.reverse
  | c :: rest, pending, isFirst, p =>
    let mayBreak := splits && !isFirst && !rest.isEmpty
    match escape? c with
    | some escape =>
      let p := (p.write pending.reverse).write escape
      let p := if mayBreak && width + 1 < p.column then p.breakDouble column rest.head? else p
      doubleFrom column splits rest [] false p
    | none =>
      if mayBreak && (c == ' ' || pending.isEmpty) && width < p.column + pending.length then
        doubleFrom column splits rest [c] false
          ((p.write pending.reverse).breakDouble column (some c))
      else doubleFrom column splits rest (c :: pending) false p

/-- Writes a text between double quotes. -/
def double (p : Pen) (column : Nat) (splits : Bool) (cs : List Char) : Pen :=
  (doubleFrom column splits cs [] true (p.mark "\"" true)).mark "\"" false

/-- Writes a text, as a key or elsewhere. -/
def string (p : Pen) (column : Nat) (isKey : Bool) (s : String) : Pen :=
  match Quoting.of isKey s with
  | .plain => p.plain column (!isKey) s.toList
  | .single => p.single column (!isKey) s.toList
  | .double => p.double column (!isKey) s.toList

end Pen

/-! ## Values -/

/-- A float. It has a point also before an exponent. Nothing stands for one that has no digits. -/
def floatText (x : Float) : String :=
  let cs := (Decimal.Layout.literal.write x).toList
  if !x.isFinite then "null"
  else if cs.contains '.' then String.ofList cs
  else
    let (digits, exponent) := cs.span (· ≠ 'e')
    String.ofList (if exponent.isEmpty then cs else digits ++ ['.', '0'] ++ exponent)

/-- Whether a key stands on one line with its value. A return alone does not make it longer than a line. -/
def isSimpleKey (s : String) : Bool :=
  s ≠ "" && !s.toList.any (fun c => isBreak c && c != '\r') && s.length < 123

/-- The column of what is inside of a block, which is the outermost one if no column is given. -/
def inside : Option Nat → Nat
  | none => 0
  | some column => column + 2

namespace Pen

mutual

/-- Writes a value inside of a block. A sequence that is a value starts at the column of its key. -/
def node (outer : Option Nat) (isValue : Bool) : Json → Pen → Pen
  | .null, p => p.plain 0 false "null".toList
  | .bool b, p => p.plain 0 false (if b then "true" else "false").toList
  | .int n, p => p.plain 0 false (toString n).toList
  | .float x, p => p.plain 0 false (floatText x).toList
  | .str s, p => p.string (inside outer) false s
  | .arr [], p => (p.mark "[" true).mark "]" false
  | .arr (x :: xs), p =>
    let column := if isValue && !p.isIndented then outer.getD 0 else inside outer
    elements column (x :: xs) p
  | .obj [], p => (p.mark "\x7b" true).mark "\x7d" false
  | .obj (m :: ms), p => members (inside outer) (m :: ms) p

/-- Writes the elements of a sequence. -/
def elements (column : Nat) : List Json → Pen → Pen
  | [], p => p
  | x :: xs, p => elements column xs (node (some column) false x ((p.goTo column).mark "-" true true))

/-- Writes the members of a mapping. -/
def members (column : Nat) : List (String × Json) → Pen → Pen
  | [], p => p
  | (key, value) :: ms, p =>
    let p := p.goTo column
    let p :=
      if isSimpleKey key then (p.string (inside (some column)) true key).mark ":" false
      else
        let p := (p.mark "?" true true).string (inside (some column)) false key
        (p.goTo column).mark ":" true true
    members column ms (node (some column) true value p)

end

end Pen

/-- The text of a value. -/
def print (value : Json) : String := (Pen.node none false value {}).newline.text

end FactIndex.Yaml
