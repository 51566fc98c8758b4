import FactIndex.Decimal.Numeral
import FactIndex.Json.Basic
import FactIndex.Schema.Issue

/-!
# Reading values and records

A field of a plain type takes some values of other types as well: numbers may be given as text,
integers as floats without a fraction, truth values by a few words.

A record is an object whose members have fixed names. A field is either required or has a default
that stands when the member is absent. Members that no field has are ignored by some records and
refused by others.

## Main definitions

* `text`, `integer`, `number`, `truth`: reading a plain value.
* `optional`, `listOf`, `dictOf`: reading a value built from others.
* `record`: the members of the object that a record is read from.
* `required`, `withDefault`: reading a field.
* `onlyKnown`: refuses members that no field has.
-/

namespace FactIndex.Schema

open FactIndex.Decimal

/-! ## Plain values -/

variable {α : Type}

/-- A text. No other value is taken for one. -/
def text : Json → Checked String
  | .str s => .ok s
  | _ => .fault .stringType

/-- The limit of the integers that a float may stand for, which is not one of them. -/
def wordLimit : Int := 9223372036854775808

/-- An integer, also given as a truth value, as a float without a fraction or as a text. A float has to
lie within the limits of a machine word. -/
def integer : Json → Checked Int
  | .int n => .ok n
  | .bool b => .ok (if b then 1 else 0)
  | .float x =>
    match binary? x with
    | none => .fault .finiteNumber
    | some b =>
      if !b.isWhole then .fault .intFromFloat
      else if b.truncate.natAbs < wordLimit.natAbs then .ok b.truncate
      else .fault .intSize
  | .str s =>
    match fieldInt? s with
    | some n => .ok n
    | none => .fault .intParsing
  | _ => .fault .intType

/-- A float, also given as an integer, as a truth value or as a text. -/
def number : Json → Checked Float
  | .float x => .ok x
  | .int n =>
    let x := Float.ofInt n
    if x.isFinite then .ok x else .fault .floatType
  | .bool b => .ok (if b then 1 else 0)
  | .str s =>
    match fieldFloat? s with
    | some x => .ok x
    | none => .fault .floatParsing
  | _ => .fault .floatType

/-- The words that stand for truth values. -/
def truthWord? (s : String) : Option Bool :=
  let word := String.ofList (s.toList.map Char.toLower)
  if ["1", "true", "t", "yes", "y", "on"].contains word then some true
  else if ["0", "false", "f", "no", "n", "off"].contains word then some false
  else none

/-- A truth value, also given as zero or one or by a word. An integer beyond a machine word is not even
looked at. -/
def truth : Json → Checked Bool
  | .bool b => .ok b
  | .int n =>
    if n = 0 then .ok false
    else if n = 1 then .ok true
    else if -wordLimit ≤ n ∧ n < wordLimit then .fault .boolParsing
    else .fault .boolType
  | .float x => if x == 0 then .ok false else if x == 1 then .ok true else .fault .boolType
  | .str s =>
    match truthWord? s with
    | some b => .ok b
    | none => .fault .boolParsing
  | _ => .fault .boolType

/-- Any value. -/
def anything : Json → Checked Json := .ok

/-- A value that may be absent. -/
def optional (read : Json → Checked α) : Json → Checked (Option α)
  | .null => .ok none
  | value => some <$> read value

/-- The elements of a list, each read at its position. -/
def each (read : Json → Checked α) : Nat → List Json → Checked (List α)
  | _, [] => pure []
  | i, x :: xs => List.cons <$> (read x).within (.index i) <*> each read (i + 1) xs

/-- A list. -/
def listOf (read : Json → Checked α) : Json → Checked (List α)
  | .arr xs => each read 0 xs
  | _ => .fault .listType

/-- A list whose type is reported as that of a fixed sequence. -/
def sequenceOf (read : Json → Checked α) : Json → Checked (List α)
  | .arr xs => each read 0 xs
  | _ => .fault .tupleType

/-- The members of an object, unread. -/
def members : Json → Checked Members
  | .obj ms => .ok ms
  | _ => .fault .dictType

/-- The members of an object, each value read under its key. -/
def eachMember (read : Json → Checked α) : Members → Checked (List (String × α))
  | [] => pure []
  | (k, v) :: ms =>
    (fun a rest => (k, a) :: rest) <$> (read v).within (.field k) <*> eachMember read ms

/-- An object whose values are all of one type. -/
def dictOf (read : Json → Checked α) : Json → Checked (List (String × α))
  | .obj ms => eachMember read ms
  | _ => .fault .dictType

/-- One of a few texts. Anything else is no member of the enumeration. -/
def oneOf (cause : Cause) (known : List (String × α)) : Json → Checked α
  | .str s =>
    match known.lookup s with
    | some a => .ok a
    | none => .fault cause
  | _ => .fault cause

/-! ## Records -/

/-- Reads a record from the members of an object. -/
def record (read : Members → Checked α) : Json → Checked α
  | .obj ms => read ms
  | _ => .fault .modelType

/-- A field that has to be there. -/
def required (ms : Members) (name : String) (read : Json → Checked α) : Checked α :=
  match Table.get? ms name with
  | some value => (read value).within (.field name)
  | none => .bad [⟨[.field name], .missing⟩]

/-- A field that has a default. -/
def withDefault (ms : Members) (name : String) (default : α) (read : Json → Checked α) :
    Checked α :=
  match Table.get? ms name with
  | some value => (read value).within (.field name)
  | none => .ok default

/-- Keeps what was read if every member is a known field. -/
def onlyKnown (ms : Members) (known : List String) (c : Checked α) : Checked α :=
  let extra := (Table.keys ms).filter fun k => !known.contains k
  if extra.isEmpty then c
  else (fun a (_ : Unit) => a) <$> c <*>
    .bad (extra.map fun k => ⟨[.field k], .extraForbidden⟩)

/-- A value whose tag, a member of the object, says how to read it. Issues are reported under the
tag. -/
def tagged (tag : String) (readers : List (String × (Members → Checked α))) (ms : Members) :
    Checked α :=
  match Table.get? ms tag with
  | none => .fault .tagNotFound
  | some (.str name) =>
    match readers.lookup name with
    | some read => (read ms).within (.field name)
    | none => .fault .tagInvalid
  | some _ => .fault .tagInvalid

/-- The fault of a tagged value that is no object. It depends on whether the value is being read from
a JSON text. -/
def untaggedCause (fromText : Bool) : Cause := if fromText then .dictType else .attributesType

end FactIndex.Schema
