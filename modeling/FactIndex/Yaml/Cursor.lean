import FactIndex.Json.Token

/-!
# Scalars in a text

A cursor goes through a text by lines and columns. Scalars take up as much of the text as their kind
allows; line breaks inside of them are folded.

## Main definitions

* `Cursor`: a place in a text.
* `Cursor.skipBlanks`: what separates tokens.
* `Cursor.plain`, `Cursor.quoted`, `Cursor.block`: the three kinds of scalars.
-/

namespace FactIndex.Yaml

/-- A place in a text. -/
structure Cursor where
  rest : List Char
  line : Nat := 0
  column : Nat := 0
  /-- How many characters went before. -/
  index : Nat := 0

/-- The character that stands for the end of the text. -/
def endMark : Char := '\x00'

/-- Whether a character breaks a line. -/
def isBreak (c : Char) : Bool :=
  c == '\n' || c == '\r' || c.toNat == 0x85 || c.toNat == 0x2028 || c.toNat == 0x2029

/-- Whether a character ends a line, or the text. -/
def endsLine (c : Char) : Bool := c == endMark || isBreak c

/-- Whether a character ends a word. -/
def endsWord (c : Char) : Bool := c == ' ' || c == '\t' || endsLine c

/-- Whether a character is a blank. -/
def isBlank (c : Char) : Bool := c == ' ' || c == '\t'

namespace Cursor

/-- The character at a distance. -/
def peek (c : Cursor) (distance : Nat := 0) : Char := c.rest.getD distance endMark

/-- The place after one character. -/
def next (c : Cursor) : Cursor :=
  match c.rest with
  | [] => c
  | ch :: rest =>
    let breaks := isBreak ch && !(ch == '\r' && rest.head? == some '\n')
    { rest, index := c.index + 1
      line := if breaks then c.line + 1 else c.line
      column :=
        if breaks then 0
        else if ch.toNat == 0xfeff || ch == '\r' then c.column
        else c.column + 1 }

/-- The place after some characters. -/
def forward : Nat → Cursor → Cursor
  | 0, c => c
  | n + 1, c => forward n c.next

/-- The characters from here on that satisfy a condition, and the place after them. -/
def takeWhile (c : Cursor) (p : Char → Bool) : List Char × Cursor :=
  let taken := c.rest.takeWhile p
  (taken, c.forward taken.length)

/-- The place after the characters that satisfy a condition. -/
def skipWhile (c : Cursor) (p : Char → Bool) : Cursor := (c.takeWhile p).2

/-- A line break, as it is kept, and the place after it. -/
def lineBreak (c : Cursor) : List Char × Cursor :=
  if c.peek == '\r' && c.peek 1 == '\n' then (['\n'], c.forward 2)
  else if c.peek == '\n' || c.peek == '\r' || c.peek.toNat == 0x85 then (['\n'], c.next)
  else if isBreak c.peek then ([c.peek], c.next)
  else ([], c)

/-- Whether the three characters here, and nothing else, make a word. -/
def isAtMark (c : Cursor) (mark : List Char) : Bool :=
  c.rest.take 3 == mark && endsWord (c.peek 3)

/-- Whether one document ends here and another one may start. -/
def isAtBoundary (c : Cursor) : Bool := c.isAtMark ['-', '-', '-'] || c.isAtMark ['.', '.', '.']

/-- Skips blanks, comments and line breaks, and says whether there was a line break. -/
def skipBlanks : Nat → Bool → Cursor → Bool × Cursor
  | 0, broken, c => (broken, c)
  | fuel + 1, broken, c =>
    let c := c.skipWhile (· == ' ')
    let c := if c.peek == '#' then c.skipWhile (!isBreak ·) else c
    if isBreak c.peek then skipBlanks fuel true c.lineBreak.2 else (broken, c)

/-! ## Folding -/

/-- Empty lines, as they are kept. Blanks on them are dropped. -/
def emptyLines (blank : Char → Bool) : Nat → Cursor → List Char × Cursor
  | 0, c => ([], c)
  | fuel + 1, c =>
    let c := c.skipWhile blank
    if isBreak c.peek && !c.isAtBoundary then
      let (kept, c) := c.lineBreak
      let (more, c) := emptyLines blank fuel c
      (kept ++ more, c)
    else ([], c)

/-- What a line break and the empty lines after it stand for. A single break is a blank. -/
def folded (first empty : List Char) : List Char :=
  if first ≠ ['\n'] then first ++ empty else if empty.isEmpty then [' '] else empty

/-! ## Quoted scalars -/

/-- The characters that stand after a backslash for another one. -/
def escapes : List (Char × Nat) :=
  [('0', 0), ('a', 7), ('b', 8), ('t', 9), ('\t', 9), ('n', 10), ('v', 11), ('f', 12), ('r', 13),
    ('e', 27), (' ', 32), ('"', 34), ('\\', 92), ('/', 47), ('N', 0x85), ('_', 0xa0), ('L', 0x2028),
    ('P', 0x2029)]

/-- The characters after a backslash that announce the number of a character, with the number of its
digits. -/
def numbered : List (Char × Nat) := [('x', 2), ('u', 4), ('U', 8)]

/-- The character after a backslash, and the place after it. -/
def escape (c : Cursor) : Option (Char × Cursor) :=
  match escapes.lookup c.peek, numbered.lookup c.peek with
  | some n, _ => some (Char.ofNat n, c.next)
  | none, some width => do
    let digits := c.rest.tail.take width
    let n ← Json.hexNumber? digits
    if digits.length = width ∧ n.isValidChar then
      some (Char.ofNat n, c.forward (width + 1))
    else none
  | none, none => none

/-- The rest of a quoted scalar, with what has been read of it before, last first. -/
def quotedRest (double : Bool) : Nat → List Char → Cursor → Option (List Char × Cursor)
  | 0, _, _ => none
  | fuel + 1, done, c =>
    let quote := if double then '"' else '\''
    let ch := c.peek
    if ch == endMark then none
    else if ch == quote then
      if !double && c.peek 1 == quote then quotedRest double fuel (quote :: done) (c.forward 2)
      else some (done.reverse, c.next)
    else if double && ch == '\\' then
      if isBreak (c.peek 1) then
        let c := c.next.lineBreak.2
        if c.isAtBoundary then none
        else
          let (kept, c) := emptyLines isBlank c.rest.length c
          if c.isAtBoundary && c.column == 0 then none
          else quotedRest double fuel (kept.reverse ++ done) c
      else
        match c.next.escape with
        | some (ch, c) => quotedRest double fuel (ch :: done) c
        | none => none
    else if isBlank ch || isBreak ch then
      let (blanks, c) := c.takeWhile isBlank
      if isBreak c.peek then
        let (first, c) := c.lineBreak
        if c.isAtBoundary then none
        else
          let (empty, c) := emptyLines isBlank c.rest.length c
          if c.isAtBoundary && c.column == 0 then none
          else quotedRest double fuel ((folded first empty).reverse ++ done) c
      else quotedRest double fuel (blanks.reverse ++ done) c
    else quotedRest double fuel (ch :: done) c.next

/-- A quoted scalar. -/
def quoted (double : Bool) (c : Cursor) : Option (String × Cursor) :=
  (quotedRest double (c.rest.length + 1) [] c.next).map fun r => (String.ofList r.1, r.2)

/-! ## Plain scalars -/

/-- Whether a plain scalar may start with a character that is followed by another one. -/
def startsPlain (inFlow : Bool) (ch following : Char) : Bool :=
  let isMark := "-?:,[]\x7b\x7d#&*!|>\'\"%@`".toList.contains ch
  (!endsWord ch && !isMark) ||
    (!endsWord following && (ch == '-' || (!inFlow && (ch == '?' || ch == ':'))))

/-- Whether a plain scalar ends before a character that is followed by another one. -/
def endsPlain (inFlow : Bool) (ch following : Char) : Bool :=
  endsWord ch ||
    (ch == ':' && (endsWord following || (inFlow && ",[]\x7b\x7d".toList.contains following))) ||
    (inFlow && ",?[]\x7b\x7d".toList.contains ch)

/-- The length of the part of a plain scalar that has no blanks. -/
def plainLength (inFlow : Bool) : List Char → Nat
  | [] => 0
  | ch :: rest =>
    if endsPlain inFlow ch (rest.headD endMark) then 0 else plainLength inFlow rest + 1

/-- What lies between two parts of a plain scalar, the place after it, and whether there was a line
break. Nothing lies between them if the document ends. -/
def plainGap (c : Cursor) : List Char × Cursor × Bool :=
  let (blanks, c) := c.takeWhile (· == ' ')
  if isBreak c.peek then
    let (first, c) := c.lineBreak
    if c.isAtBoundary then ([], c, true)
    else
      let (empty, c) := emptyLines (· == ' ') c.rest.length c
      if c.column == 0 && c.isAtBoundary then ([], c, true) else (folded first empty, c, true)
  else (blanks, c, false)

/-- The rest of a plain scalar that is to stay to the right of a column. The gap that went before is
kept if there is more, and it is said whether a line break comes last. -/
def plainRest (inFlow : Bool) (indent : Int) :
    Nat → List Char → Bool → Cursor → List Char × Bool × Cursor
  | 0, _, broken, c => ([], broken, c)
  | fuel + 1, gap, broken, c =>
    let n := if c.peek == '#' then 0 else plainLength inFlow c.rest
    if n = 0 then ([], broken, c)
    else
      let part := c.rest.take n
      let (following, after, broken) := plainGap (c.forward n)
      if following.isEmpty || after.peek == '#' || (!inFlow && (after.column : Int) < indent) then
        (gap ++ part, broken, after)
      else
        let (more, broken, c) := plainRest inFlow indent fuel following broken after
        (gap ++ part ++ more, broken, c)

/-- A plain scalar, whether a line break comes after it, and the place after both. -/
def plain (inFlow : Bool) (indent : Int) (c : Cursor) : String × Bool × Cursor :=
  let (chars, broken, c) := plainRest inFlow indent (c.rest.length + 1) [] false c
  (String.ofList chars, broken, c)

/-! ## Block scalars -/

/-- What the line that opens a block scalar says: how line breaks at the end are treated, and how far
the lines are indented. -/
def blockHeader (c : Cursor) : Option (Option Bool × Option Nat × Cursor) := do
  let chomp (ch : Char) : Option Bool :=
    if ch == '+' then some true else if ch == '-' then some false else none
  let digit (ch : Char) : Option Nat := if ch.isDigit then some (ch.toNat - 48) else none
  let (keep, width, c) :=
    match chomp c.peek, digit c.peek with
    | some keep, _ =>
      match digit (c.peek 1) with
      | some n => (some keep, some n, c.forward 2)
      | none => (some keep, none, c.next)
    | none, some n =>
      match chomp (c.peek 1) with
      | some keep => (some keep, some n, c.forward 2)
      | none => (none, some n, c.next)
    | none, none => (none, none, c)
  if width = some 0 || !endsWord c.peek then none
  let c := c.skipWhile (· == ' ')
  let c := if c.peek == '#' then c.skipWhile (!isBreak ·) else c
  if endsLine c.peek then some (keep, width, c.lineBreak.2) else none

/-- Empty lines at the front of a block scalar, and how far the blanks on them reach. -/
def blockStart : Nat → Nat → Cursor → List Char × Nat × Cursor
  | 0, width, c => ([], width, c)
  | fuel + 1, width, c =>
    let c := c.skipWhile (· == ' ')
    let width := max width c.column
    if isBreak c.peek then
      let (kept, c) := c.lineBreak
      let (more, width, c) := blockStart fuel width c
      (kept ++ more, width, c)
    else ([], width, c)

/-- The blanks at the front of a line, up to a column. -/
def skipIndent (indent : Nat) : Nat → Cursor → Cursor
  | 0, c => c
  | fuel + 1, c => if c.column < indent && c.peek == ' ' then skipIndent indent fuel c.next else c

/-- Empty lines in a block scalar. -/
def blockEmpty (indent : Nat) : Nat → Cursor → List Char × Cursor
  | 0, c => ([], c)
  | fuel + 1, c =>
    let c := skipIndent indent indent c
    if isBreak c.peek then
      let (kept, c) := c.lineBreak
      let (more, c) := blockEmpty indent fuel c
      (kept ++ more, c)
    else ([], c)

/-- The lines of a block scalar, with the empty lines that went before. The line break at the end and
the empty lines after it are given apart. -/
def blockLines (fold : Bool) (indent : Nat) :
    Nat → List Char → Cursor → List Char × List Char × List Char × Cursor
  | 0, empty, c => ([], [], empty, c)
  | fuel + 1, empty, c =>
    if c.column ≠ indent || c.peek == endMark then ([], [], empty, c)
    else
      let isFlush := !isBlank c.peek
      let (line, c) := c.takeWhile (!endsLine ·)
      let (ending, c) := c.lineBreak
      let (following, c) := blockEmpty indent (c.rest.length + 1) c
      if c.column == indent && c.peek != endMark then
        let joint :=
          if fold && ending == ['\n'] && isFlush && !isBlank c.peek then
            if following.isEmpty then [' '] else []
          else ending
        let (more, last, trailing, c) := blockLines fold indent fuel following c
        (empty ++ line ++ joint ++ more, last, trailing, c)
      else (empty ++ line, ending, following, c)

/-- A block scalar inside of a node with the given indentation. -/
def block (indent : Int) (c : Cursor) : Option (String × Cursor) := do
  let fold := c.peek == '>'
  let (keep, width, c) ← blockHeader c.next
  let least := (max (indent + 1) 1).toNat
  let (empty, column, c) :=
    match width with
    | some n =>
      let column := least + n - 1
      let (empty, c) := blockEmpty column (c.rest.length + 1) c
      (empty, column, c)
    | none =>
      let (empty, widest, c) := blockStart (c.rest.length + 1) 0 c
      (empty, max least widest, c)
  let (chars, last, trailing, c) := blockLines fold column (c.rest.length + 1) empty c
  let ending := if keep = some false then [] else last
  let trailing := if keep = some true then trailing else []
  return (String.ofList (chars ++ ending ++ trailing), c)

end Cursor

end FactIndex.Yaml
