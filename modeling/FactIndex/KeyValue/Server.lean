import FactIndex.Table

/-!
# The key-value server

A server that keeps texts under keys, some of them for a limited time, and tables and scored sets of
texts.

## Main definitions

* `Server`: what the server keeps.
* `Server.get`, `Server.set` and so on: its commands. Those on texts take the time, because a text
  whose time is over is gone.
-/

namespace FactIndex.KeyValue

/-- A text with the time at which it is gone. -/
structure Entry where
  value : String
  goneAt : Option Float := none
deriving DecidableEq

/-- What the server keeps. -/
structure Server where
  texts : Table String Entry := []
  tables : Table String (Table String String) := []
  /-- Sets of texts, each with a score. -/
  sets : Table String (Table String Float) := []
deriving DecidableEq

namespace Entry

/-- Whether the time of an entry is over. -/
def isGone (now : Float) (e : Entry) : Bool :=
  match e.goneAt with
  | some t => t ≤ now
  | none => false

end Entry

namespace Server

/-! ## Texts -/

/-- The text under a key. -/
def get (s : Server) (now : Float) (key : String) : Option String :=
  match s.texts.get? key with
  | some e => if e.isGone now then none else some e.value
  | none => none

/-- Sets the text under a key, perhaps for a number of milliseconds only. -/
def set (s : Server) (now : Float) (key value : String) (milliseconds : Option Int) : Server :=
  let goneAt := milliseconds.map fun n => now + Float.ofInt n / 1000
  { s with texts := s.texts.put key { value, goneAt } }

/-- Whether there is anything under a key. -/
def has (s : Server) (now : Float) (key : String) : Bool :=
  (s.get now key).isSome || s.tables.has key || s.sets.has key

/-- Removes what is under a key. -/
def remove (s : Server) (key : String) : Server :=
  { texts := s.texts.erase key, tables := s.tables.erase key, sets := s.sets.erase key }

/-- Removes what is under some keys. The answer tells under how many of them there was anything. -/
def delete (s : Server) (now : Float) (keys : List String) : Nat × Server :=
  keys.foldl (fun (n, s) key => (if s.has now key then n + 1 else n, s.remove key)) (0, s)

/-! ## Tables -/

/-- The table under a key. -/
def table (s : Server) (key : String) : Table String String := (s.tables.get? key).getD []

/-- Sets a table, or removes it if it is empty. -/
def setTable (s : Server) (key : String) (t : Table String String) : Server :=
  { s with tables := if t.isEmpty then s.tables.erase key else s.tables.put key t }

/-- Sets a field of a table. -/
def putField (s : Server) (key field value : String) : Server :=
  s.setTable key ((s.table key).put field value)

/-- A field of a table. -/
def field (s : Server) (key field : String) : Option String := (s.table key).get? field

/-- Removes a field of a table. -/
def removeField (s : Server) (key field : String) : Server :=
  s.setTable key ((s.table key).erase field)

/-! ## Scored sets -/

/-- The set under a key. -/
def scored (s : Server) (key : String) : Table String Float := (s.sets.get? key).getD []

/-- Sets a scored set, or removes it if it is empty. -/
def setScored (s : Server) (key : String) (t : Table String Float) : Server :=
  { s with sets := if t.isEmpty then s.sets.erase key else s.sets.put key t }

/-- Adds a member to a set, or changes its score. -/
def add (s : Server) (key member : String) (score : Float) : Server :=
  s.setScored key ((s.scored key).put member score)

/-- Removes a member of a set. The answer tells whether it was there. -/
def take (s : Server) (key member : String) : Bool × Server :=
  let t := s.scored key
  (t.has member, s.setScored key (t.erase member))

/-- Whether one member stands before another: by score, then by text. -/
def before (a b : String × Float) : Bool := a.2 < b.2 || (a.2 == b.2 && a.1 ≤ b.1)

/-- The members of a set whose score is not above a limit, in order. -/
def upTo (s : Server) (key : String) (limit : Float) : List String :=
  (((s.scored key).filter fun m => m.2 ≤ limit).mergeSort before).map (·.1)

/-- The number of members of a set. -/
def size (s : Server) (key : String) : Nat := (s.scored key).length

end Server

end FactIndex.KeyValue
