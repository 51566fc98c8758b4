/-!
# Reading with complaints

A value that comes from outside is read into a type of the domain. Reading a record looks at every
field and collects what is wrong with each, so that one answer names all faults.

## Main definitions

* `Cause`, `Issue`: what is wrong, and where.
* `Checked`: a value, or the issues that were found. Its applicative structure keeps the issues of
  both sides.
-/

namespace FactIndex.Schema

/-- One step on the way from a value to a part of it. -/
inductive Place where
  | field (name : String)
  | index (position : Nat)
deriving DecidableEq

/-- What can be wrong with a value. -/
inductive Cause where
  | missing
  | extraForbidden
  | stringType
  | intType
  | intParsing
  | intFromFloat
  | intSize
  | finiteNumber
  | floatType
  | floatParsing
  | boolType
  | boolParsing
  | listType
  | tupleType
  | dictType
  | modelType
  | attributesType
  | literal
  | enumeration
  | tagNotFound
  | tagInvalid
  | jsonInvalid
  /-- A rule on the whole record is broken. -/
  | rule (text : String)
deriving DecidableEq

/-- The word under which a cause is reported. -/
def Cause.name : Cause → String
  | .missing => "missing"
  | .extraForbidden => "extra_forbidden"
  | .stringType => "string_type"
  | .intType => "int_type"
  | .intParsing => "int_parsing"
  | .intFromFloat => "int_from_float"
  | .intSize => "int_parsing_size"
  | .finiteNumber => "finite_number"
  | .floatType => "float_type"
  | .floatParsing => "float_parsing"
  | .boolType => "bool_type"
  | .boolParsing => "bool_parsing"
  | .listType => "list_type"
  | .tupleType => "tuple_type"
  | .dictType => "dict_type"
  | .modelType => "model_type"
  | .attributesType => "model_attributes_type"
  | .literal => "literal_error"
  | .enumeration => "enum"
  | .tagNotFound => "union_tag_not_found"
  | .tagInvalid => "union_tag_invalid"
  | .jsonInvalid => "json_invalid"
  | .rule _ => "value_error"

/-- A fault of a part of a value. -/
structure Issue where
  place : List Place
  cause : Cause
deriving DecidableEq

/-- The outcome of reading a value. -/
inductive Checked (α : Type) where
  | ok (value : α)
  | bad (issues : List Issue)

namespace Checked

variable {α β : Type}

/-- A single fault of the value itself. -/
def fault (cause : Cause) : Checked α := .bad [⟨[], cause⟩]

/-- Applies a function to the value that was read. -/
def map (f : α → β) : Checked α → Checked β
  | .ok a => .ok (f a)
  | .bad issues => .bad issues

/-- Reads two parts and keeps the issues of both. -/
def ap : Checked (α → β) → Checked α → Checked β
  | .ok f, .ok a => .ok (f a)
  | .ok _, .bad issues => .bad issues
  | .bad issues, .ok _ => .bad issues
  | .bad left, .bad right => .bad (left ++ right)

instance : Applicative Checked where
  pure := .ok
  map := map
  seq f a := ap f (a ())

/-- Reads on with the value, if there is one. -/
def andThen (c : Checked α) (f : α → Checked β) : Checked β :=
  match c with
  | .ok a => f a
  | .bad issues => .bad issues

/-- The issues of a part, seen from the whole. -/
def within (place : Place) : Checked α → Checked α
  | .ok a => .ok a
  | .bad issues => .bad (issues.map fun i => { i with place := place :: i.place })

/-- The value, if nothing is wrong. -/
def toOption : Checked α → Option α
  | .ok a => some a
  | .bad _ => none

@[simp] theorem map_ok (f : α → β) (a : α) : f <$> Checked.ok a = .ok (f a) := rfl
@[simp] theorem pure_eq (a : α) : (pure a : Checked α) = .ok a := rfl
@[simp] theorem seq_ok (f : α → β) (a : α) : (Checked.ok f <*> Checked.ok a) = .ok (f a) := rfl
@[simp] theorem within_ok (place : Place) (a : α) : within place (.ok a) = .ok a := rfl

end Checked

end FactIndex.Schema
