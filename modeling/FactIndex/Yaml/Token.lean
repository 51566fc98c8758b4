import FactIndex.Table
import FactIndex.Yaml.Cursor

/-!
# Tokens of a text

The structure of a text shows in its indentation as well as in its marks. A key is known as one only by
the colon after it, so that what might be a key is remembered until the colon comes or can come no
more.

## Main definitions

* `Token`: the tokens.
* `Scan`: how far a text has been taken apart.
* `Scan.step`: the next token or tokens.
* `tokens?`: all tokens of a text.
-/

namespace FactIndex.Yaml

/-- A token. -/
inductive Token where
  | directive
  | documentStart
  | documentEnd
  /-- The start of a sequence or a mapping that is shown by indentation, and the end of one. -/
  | sequenceStart
  | mappingStart
  | blockEnd
  /-- Brackets around a sequence, and braces around a mapping. -/
  | openSequence
  | closeSequence
  | openMapping
  | closeMapping
  /-- The hyphen before an element. -/
  | element
  | comma
  /-- What comes next is a key. -/
  | key
  /-- What comes next is a value. -/
  | value
  | anchor (name : String)
  | reference (name : String)
  | tag (name : String)
  | scalar (text : String) (isPlain : Bool)
deriving DecidableEq

/-- What might be a key. -/
structure Candidate where
  /-- How many tokens come before it. -/
  before : Nat
  line : Nat
  column : Nat
  index : Nat
  /-- Whether it can be nothing else. -/
  isRequired : Bool

/-- How far a text has been taken apart. -/
structure Scan where
  cursor : Cursor
  /-- The column of the innermost block, and those of the blocks around it. -/
  indent : Int := -1
  indents : List Int := []
  /-- How many brackets and braces are open. -/
  flow : Nat := 0
  /-- Whether a key may come next. -/
  takesKey : Bool := true
  /-- What might be a key, by the number of open brackets. -/
  candidates : Table Nat Candidate := []
  /-- The tokens so far, the last one first. -/
  done : List Token := []

namespace Scan

/-- Adds a token. -/
def emit (s : Scan) (t : Token) : Scan := { s with done := t :: s.done }

/-- Adds tokens at a place before others. -/
def insert (s : Scan) (before : Nat) (ts : List Token) : Scan :=
  let later := s.done.length - before
  { s with done := s.done.take later ++ ts.reverse ++ s.done.drop later }

/-- Goes on after some characters. -/
def forward (s : Scan) (n : Nat) : Scan := { s with cursor := s.cursor.forward n }

/-! ## Blocks -/

/-- Ends the blocks whose indentation is greater than a column. -/
def unwindTo (column : Int) : List Int → Scan → Scan
  | [], s => s
  | outer :: rest, s =>
    if column < s.indent then
      unwindTo column rest ({ s with indent := outer, indents := rest }.emit .blockEnd)
    else s

/-- Ends the blocks that cannot go on at a column. Between brackets indentation means nothing. -/
def unwind (s : Scan) (column : Int) : Scan :=
  if s.flow = 0 then unwindTo column s.indents s else s

/-- Whether a block starts at a column. -/
def opensBlock (s : Scan) (column : Nat) : Bool := s.flow = 0 && s.indent < column

/-- Starts a block at a column. -/
def openBlock (s : Scan) (column : Nat) : Scan :=
  { s with indents := s.indent :: s.indents, indent := column }

/-! ## Keys -/

/-- Gives up what might be a key. -/
def dropCandidate (s : Scan) : Option Scan :=
  match s.candidates.get? s.flow with
  | some c => if c.isRequired then none else some { s with candidates := s.candidates.erase s.flow }
  | none => some s

/-- The longest key, in characters. -/
def longestKey : Nat := 1024

/-- Gives up what cannot be a key any more, because it is too long or reaches over a line. -/
def dropStale (s : Scan) : Option Scan :=
  let isStale (c : Candidate) : Bool :=
    c.line != s.cursor.line || decide (longestKey < s.cursor.index - c.index)
  if s.candidates.any fun e => isStale e.2 && e.2.isRequired then none
  else some { s with candidates := s.candidates.filter fun e => !isStale e.2 }

/-- Remembers that what comes next might be a key. -/
def saveCandidate (s : Scan) : Option Scan := do
  if !s.takesKey then return s
  let s ← s.dropCandidate
  let c : Candidate :=
    { before := s.done.length, line := s.cursor.line, column := s.cursor.column
      index := s.cursor.index, isRequired := s.flow = 0 && s.indent == (s.cursor.column : Int) }
  return { s with candidates := s.candidates.put s.flow c }

/-! ## Tokens -/

/-- A token after which no key comes, and which might be a key. -/
def keyLike (s : Scan) : Option Scan := do
  return { ← s.saveCandidate with takesKey := false }

/-- The start of a document, the end of one, or a directive. -/
def boundary (s : Scan) (t : Token) : Option Scan := do
  let s ← (s.unwind (-1)).dropCandidate
  let s := { s with takesKey := false }
  match t with
  | .directive => return { s.emit t with cursor := s.cursor.skipWhile (!isBreak ·) }
  | _ => return (s.emit t).forward 3

/-- An opening bracket or brace. -/
def opening (s : Scan) (t : Token) : Option Scan := do
  let s ← s.saveCandidate
  return ({ s with flow := s.flow + 1, takesKey := true }.emit t).forward 1

/-- A closing bracket or brace. -/
def closing (s : Scan) (t : Token) : Option Scan := do
  let s ← s.dropCandidate
  return ({ s with flow := s.flow - 1, takesKey := false }.emit t).forward 1

/-- A comma. -/
def comma (s : Scan) : Option Scan := do
  let s ← s.dropCandidate
  return ({ s with takesKey := true }.emit .comma).forward 1

/-- A block that is opened by a mark, at the place where marks are allowed. -/
def markBlock (s : Scan) (start : Token) : Option Scan :=
  if s.flow = 0 then
    if !s.takesKey then none
    else if s.opensBlock s.cursor.column then
      some ((s.openBlock s.cursor.column).emit start)
    else some s
  else some s

/-- The hyphen before an element. -/
def element (s : Scan) : Option Scan := do
  let s ← s.markBlock .sequenceStart
  let s ← { s with takesKey := true }.dropCandidate
  return (s.emit .element).forward 1

/-- The question mark before a key. -/
def explicitKey (s : Scan) : Option Scan := do
  let s ← s.markBlock .mappingStart
  let s ← { s with takesKey := s.flow = 0 }.dropCandidate
  return (s.emit .key).forward 1

/-- The colon after a key. What was remembered turns out to be one. -/
def colon (s : Scan) : Option Scan := do
  match s.candidates.get? s.flow with
  | some c =>
    let s := { s with candidates := s.candidates.erase s.flow, takesKey := false }
    let s :=
      if s.opensBlock c.column then (s.openBlock c.column).insert c.before [.mappingStart, .key]
      else s.insert c.before [.key]
    return (s.emit .value).forward 1
  | none =>
    let s ← s.markBlock .mappingStart
    let s ← { s with takesKey := s.flow = 0 }.dropCandidate
    return (s.emit .value).forward 1

/-- The name after a mark. -/
def named (s : Scan) (make : String → Token) : Option Scan := do
  let s ← s.keyLike
  let (name, c) := s.cursor.next.takeWhile fun ch => ch.isAlphanum || ch == '-' || ch == '_'
  let ends := endsWord c.peek || "?:,]\x7d%@`".toList.contains c.peek
  if name.isEmpty || !ends then none
  else return { s.emit (make (String.ofList name)) with cursor := c }

/-- The name of a type, without the mark in front. -/
def tag (s : Scan) : Option Scan := do
  let s ← s.keyLike
  let (name, c) := s.cursor.next.takeWhile (!endsWord ·)
  return { s.emit (.tag (String.ofList name)) with cursor := c }

/-- A quoted scalar. -/
def quoted (s : Scan) (double : Bool) : Option Scan := do
  let s ← s.keyLike
  let (text, c) ← s.cursor.quoted double
  return { s.emit (.scalar text false) with cursor := c }

/-- A block scalar. -/
def block (s : Scan) : Option Scan := do
  let s ← { s with takesKey := true }.dropCandidate
  let (text, c) ← s.cursor.block s.indent
  return { s.emit (.scalar text false) with cursor := c }

/-- A plain scalar. -/
def plain (s : Scan) : Option Scan := do
  let s ← s.keyLike
  let (text, broken, c) := s.cursor.plain (s.flow ≠ 0) (s.indent + 1)
  return { s.emit (.scalar text true) with cursor := c, takesKey := broken }

/-- The token that starts with the character here. -/
def token (s : Scan) : Option Scan :=
  let c := s.cursor
  let inFlow := s.flow ≠ 0
  let standsAlone := endsWord (c.peek 1)
  match c.peek with
  | '[' => s.opening .openSequence
  | '\x7b' => s.opening .openMapping
  | ']' => s.closing .closeSequence
  | '\x7d' => s.closing .closeMapping
  | ',' => s.comma
  | '*' => s.named .reference
  | '&' => s.named .anchor
  | '!' => s.tag
  | '\'' => s.quoted false
  | '"' => s.quoted true
  | ch =>
    if ch == '%' && c.column == 0 then s.boundary .directive
    else if c.column == 0 && c.isAtMark ['-', '-', '-'] then s.boundary .documentStart
    else if c.column == 0 && c.isAtMark ['.', '.', '.'] then s.boundary .documentEnd
    else if ch == '-' && standsAlone then s.element
    else if ch == '?' && (inFlow || standsAlone) then s.explicitKey
    else if ch == ':' && (inFlow || standsAlone) then s.colon
    else if (ch == '|' || ch == '>') && !inFlow then s.block
    else if Cursor.startsPlain inFlow ch (c.peek 1) then s.plain
    else none

/-- Goes on to the next token, and takes it. At the end of the text there is none. -/
def step (s : Scan) : Option (Scan × Bool) := do
  let (broken, c) := s.cursor.skipBlanks (s.cursor.rest.length + 1) false
  let s := { s with cursor := c, takesKey := s.takesKey || (broken && s.flow == 0) }
  let s ← s.dropStale
  let s := s.unwind c.column
  if c.rest.isEmpty then
    let s ← (s.unwind (-1)).dropCandidate
    return (s, true)
  else return (← s.token, false)

/-- Takes so and so many tokens. -/
def steps : Nat → Scan → Option Scan
  | 0, _ => none
  | fuel + 1, s => do
    let (s, isDone) ← s.step
    if isDone then return s else steps fuel s

end Scan

/-- Whether a character may occur in a text at all. -/
def isPrintable (c : Char) : Bool :=
  let n := c.toNat
  n == 9 || n == 10 || n == 13 || (0x20 ≤ n && n ≤ 0x7e) || n == 0x85 ||
    (0xa0 ≤ n && n ≤ 0xd7ff) || (0xe000 ≤ n && n ≤ 0xfffd) || 0x10000 ≤ n

/-- The tokens of a text. -/
def tokens? (text : String) : Option (List Token) :=
  let cs := text.toList
  if cs.all isPrintable then
    let start : Cursor := { rest := cs }
    let start := if start.peek.toNat == 0xfeff then start.next else start
    (Scan.steps (cs.length + 2) { cursor := start }).map fun s => s.done.reverse
  else none

end FactIndex.Yaml
