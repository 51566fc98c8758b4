import FactIndex.Json.Number
import FactIndex.Json.Reader
import FactIndex.Text.Lowercase

/-!
# Kinds of arguments

The parameters of an operation have kinds. An argument of another kind is converted if that makes
sense, and handed on as it is if not.

## Main definitions

* `Model`: a kind of record, with the reader that checks it.
* `Kind`: the kinds of parameters.
* `Argument`: a value, and the record that it is an instance of.
* `Kind.convert`: an argument brought to a kind.
-/

namespace FactIndex

open FactIndex.Schema FactIndex.Text

/-- A kind of record. The reader answers the JSON form with all fields. -/
structure Model where
  name : String
  check : Json → Checked Json

/-- The kind of a parameter. -/
inductive Kind where
  /-- Anything, as it is. -/
  | any
  | integer
  | float
  | text
  | truth
  /-- A list with elements of any kind. -/
  | list
  | listOf (element : Kind)
  /-- A table with keys and values of any kind. -/
  | table
  | tableOf (key value : Kind)
  | record (model : Model)
  /-- An object that no JSON value is an instance of. -/
  | handle
  /-- A value that may be of any kind at all, in a place where the kind is asked for. -/
  | unknown
  /-- One of several kinds. That the argument may be absent as well makes no difference. -/
  | oneOf (kinds : List Kind)

/-- A value that is handed to an operation. -/
structure Argument where
  value : Json
  /-- The kind of record that the value is an instance of. -/
  model : Option String := none
deriving DecidableEq

namespace Argument

/-- A value that is no instance of a record. -/
def plain (value : Json) : Argument := { value }

/-- The word for the type of an argument. -/
def typeName (a : Argument) : String :=
  match a.model, a.value with
  | some name, _ => name
  | none, .null => "NoneType"
  | none, .bool _ => "bool"
  | none, .int _ => "int"
  | none, .float _ => "float"
  | none, .str _ => "str"
  | none, .arr _ => "list"
  | none, .obj _ => "dict"

end Argument

/-- A conversion that falls back on the value itself if the value makes no sense. -/
def orUnchanged (value : Json) (converted : Except Failure Json) : Except Failure Json :=
  match converted with
  | .error .badValue => .ok value
  | .error .badType => .ok value
  | other => other

namespace Kind

/-- Reads a record from an object or from a JSON text of one. -/
def instantiate (m : Model) (value : Json) : Except Failure Argument :=
  match (m.check value).toExcept with
  | .ok checked => .ok ⟨checked, some m.name⟩
  | .error e => .error e

/-- An argument as a record. -/
def asRecord (m : Model) (a : Argument) : Except Failure Argument :=
  match a.model, a.value with
  | none, .obj ms => instantiate m (.obj ms)
  | none, .str s =>
    match Json.parse? Json.argumentDepth s with
    | some value => instantiate m value
    | none => .error .notJson
  | _, _ => .ok a

/-- A value as a whole number, if it is a float or a text of one. -/
def asInteger : Json → Except Failure Json
  | .str s => orUnchanged (.str s) (Json.int <$> (Json.str s).toWhole)
  | .float x => orUnchanged (.float x) (Json.int <$> (Json.float x).toWhole)
  | value => .ok value

/-- A value as a float, if it is a whole number or a text of a number. -/
def asFloat : Json → Except Failure Json
  | .str s => orUnchanged (.str s) (Json.float <$> (Json.str s).toFloat)
  | .int n => Json.float <$> (Json.int n).toFloat
  | .bool b => Json.float <$> (Json.bool b).toFloat
  | value => .ok value

/-- A value as a text, if it is a number or a truth value. -/
def asText : Json → Json
  | .int n => .str (Json.int n).display
  | .float x => .str (Json.float x).display
  | .bool b => .str (Json.bool b).display
  | value => value

/-- A value as a truth value, if it is a text. -/
def asTruth : Json → Json
  | .str s => .bool (["1", "true", "yes", "on"].contains (lowercase s))
  | value => value

/-- Whether an argument is of a kind already, which is asked only of the kinds of single values. -/
def holds : Kind → Argument → Except Failure Bool
  | .unknown, _ => .error .badType
  | .record m, a => .ok (a.model == some m.name)
  | .integer, ⟨.int _, none⟩ | .integer, ⟨.bool _, none⟩ => .ok true
  | .float, ⟨.float _, none⟩ => .ok true
  | .text, ⟨.str _, none⟩ => .ok true
  | .truth, ⟨.bool _, none⟩ => .ok true
  | .list, ⟨.arr _, none⟩ => .ok true
  | _, _ => .ok false

/-- Whether an argument is of one of several kinds already. -/
def anyHolds : List Kind → Argument → Except Failure Bool
  | [], _ => .ok false
  | k :: ks, a => do
    if ← holds k a then return true
    anyHolds ks a

/-- The first kind of record among several kinds. -/
def firstModel? : List Kind → Option Model
  | [] => none
  | .record m :: _ => some m
  | _ :: ks => firstModel? ks

mutual

/-- An argument brought to a kind. -/
def convert : Kind → Argument → Except Failure Argument
  | _, ⟨.null, none⟩ => .ok ⟨.null, none⟩
  | .any, a | .list, a | .table, a | .handle, a | .unknown, a => .ok a
  | .oneOf kinds, a => do
    if ← anyHolds kinds a then return a
    match firstModel? kinds with
    | some m => asRecord m a
    | none => convertSingle kinds a
  | .listOf k, a =>
    match a with
    | ⟨.arr xs, none⟩ => do
      return ⟨.arr (← xs.mapM fun x => Argument.value <$> convert k ⟨x, none⟩), none⟩
    | a => .ok a
  | .tableOf k v, a =>
    match a with
    | ⟨.obj ms, none⟩ => do
      let converted ← ms.mapM fun m => do
        let key ← convert k ⟨.str m.1, none⟩
        let value ← convert v ⟨m.2, none⟩
        return (key.value.plainText, value.value)
      return ⟨.obj (Table.merge [] converted), none⟩
    | a => .ok a
  | .record m, a => asRecord m a
  | .integer, ⟨v, none⟩ => Argument.plain <$> asInteger v
  | .float, ⟨v, none⟩ => Argument.plain <$> asFloat v
  | .text, ⟨v, none⟩ => .ok (.plain (asText v))
  | .truth, ⟨v, none⟩ => .ok (.plain (asTruth v))
  | _, a => .ok a

/-- An argument brought to the only one of several kinds. If there are more, it is left alone. -/
def convertSingle : List Kind → Argument → Except Failure Argument
  | [k], a => convert k a
  | _, a => .ok a

end

/-! ## Reading the name of a kind -/

/-- The kinds of plain values and records, by name. -/
def ofName (models : List Model) (name : String) : Kind :=
  match models.find? fun m => m.name == name with
  | some m => .record m
  | none =>
    match name with
    | "int" => .integer
    | "float" => .float
    | "str" => .text
    | "bool" => .truth
    | "list" => .list
    | "dict" => .table
    | "Any" => .unknown
    | _ => .any

/-- Splits a text at the separators that stand outside of all brackets. -/
def splitOutside (sep : Char) : Nat → List Char → List Char → List (List Char)
  | _, part, [] => [part.reverse]
  | depth, part, c :: rest =>
    if c = sep ∧ depth = 0 then part.reverse :: splitOutside sep 0 [] rest
    else if c = '[' then splitOutside sep (depth + 1) (c :: part) rest
    else if c = ']' then splitOutside sep (depth - 1) (c :: part) rest
    else splitOutside sep depth (c :: part) rest

/-- Reads the name of a kind: alternatives joined by bars, each a plain name or a container with the
kinds of its elements in brackets. -/
def parse (models : List Model) : Nat → List Char → Kind
  | 0, _ => .any
  | fuel + 1, cs =>
    let alternatives := (splitOutside '|' 0 [] (cs.filter (· ≠ ' '))).filter
      fun part => part ≠ "None".toList
    let kinds := alternatives.map fun part =>
      let (name, rest) := part.span (· ≠ '[')
      if rest.isEmpty then ofName models (String.ofList name)
      else
        let inner := (splitOutside ',' 0 [] (rest.drop 1).dropLast).map (parse models fuel)
        match String.ofList name, inner with
        | "dict", [k, v] => .tableOf k v
        | "dict", _ => .table
        | _, k :: _ => .listOf k
        | _, [] => .list
    match kinds with
    | [k] => if alternatives.length < (splitOutside '|' 0 [] cs).length then .oneOf [k] else k
    | ks => .oneOf ks

end Kind

end FactIndex
