import FactIndex.Dispatch.Kind

/-!
# Operations

An operation is called by name with named arguments. The parameters that a component declares say
which arguments have to be given; all others are extra arguments that are handed on.

## Main definitions

* `Parameter`: a declared parameter.
* `Operation`: a call, with `Operation.normal` for its normal form and `Operation.text`.
* `bind`: the call that some arguments make of declared parameters.
* `convertAll`: the arguments of a call brought to the kinds of the parameters.
-/

namespace FactIndex

/-- The arguments of a call, by name. -/
abbrev Arguments := Table String Argument

/-- A declared parameter. It has to be given unless there is a default. -/
structure Parameter where
  name : String
  kind : Kind
  default : Option Json := none

/-- A call of an operation. -/
structure Operation where
  name : Option String := none
  arguments : Option Arguments := none
deriving DecidableEq

namespace Operation

/-- The arguments under which the extra arguments come. -/
def extraName : String := "kwargs"

/-- The extra arguments among some arguments. Unless they are left out they come as an object. -/
def extraOf (given : Arguments) : Except Failure Arguments :=
  match Table.get? given extraName with
  | some ⟨.obj ms, _⟩ => .ok (ms.map fun m => (m.1, Argument.plain m.2))
  | some ⟨value, _⟩ => if value.isGiven then .error .badType else .ok []
  | none => .ok []

/-- The normal form of a call: absent arguments are dropped, and extra arguments stand among the
others. -/
def normal (name : Option String) (given : Option Arguments) : Except Failure Operation := do
  match given with
  | none => return { name }
  | some given =>
    let kept := given.filter fun a =>
      a.1 ≠ "self" ∧ a.1 ≠ extraName ∧ a.2.value ≠ .null
    return { name, arguments := some (Table.merge kept (← extraOf given)) }

/-- The call as text. -/
def text (op : Operation) : String :=
  let shown := (op.arguments.getD []).map fun a => a.1 ++ "=" ++ a.2.value.display
  op.name.getD "" ++ "(" ++ ", ".intercalate shown ++ ")"

end Operation

/-- The call that arguments make of an operation with the given parameters. Extra arguments are kept
even if they are absent values. -/
def bind (name : String) (parameters : List Parameter) (given : Arguments) :
    Except Failure Operation := do
  let bound ← parameters.mapM fun p =>
    match Table.get? given p.name, p.default with
    | some a, _ => .ok (p.name, a)
    | none, some d => .ok (p.name, Argument.plain d)
    | none, none => .error .badType
  let extra := given.filter fun a => !parameters.any fun p => p.name == a.1
  let kept := bound.filter fun a => a.2.value ≠ .null
  return { name := some name, arguments := some (kept ++ extra) }

/-- The arguments of a call, those of declared parameters brought to their kinds. -/
def convertAll (parameters : List Parameter) (given : Arguments) : Except Failure Arguments := do
  let converted ← parameters.filterMapM fun p =>
    match Table.get? given p.name with
    | some a => do return some (p.name, ← p.kind.convert a)
    | none => return none
  return Table.merge given converted

namespace Arguments

/-- A required argument. -/
def need (given : Arguments) (name : String) : Except Failure Argument :=
  match Table.get? given name with
  | some a => .ok a
  | none => .error .badType

/-- The value of an argument, or nothing. -/
def value (given : Arguments) (name : String) : Json :=
  ((Table.get? given name).map Argument.value).getD .null

end Arguments

end FactIndex
