import FactIndex.Dispatch.Operation
import FactIndex.Schema.Record

/-!
# Components

A component declares operations and hands each call to the provider that it is bound to. Without a
provider it can only refuse, and it refuses what makes no sense before it does so. A call can carry a
context: an id, and values that the caller supplies. The answer carries it back.

## Main definitions

* `Context`: the context of a call, and `Context.identified`: one that has an id.
* `Interface`: the operations of a component.
* `Interface.start`: what has to be in order before a call is handed on.
* `Provision`: which forms of an operation a provider has, with `Provision.route`.
-/

namespace FactIndex

open FactIndex.Schema

/-! ## Contexts -/

/-- The context of a call. -/
structure Context where
  id : Option String := none
  data : Option Members := none
deriving DecidableEq

namespace Context

/-- The JSON form. -/
def toJson (c : Context) : Json :=
  .obj [("id", Json.ofText? c.id), ("data", (c.data.map Json.obj).getD .null)]

/-- Reads the JSON form. -/
def read : Json → Checked Context := record fun ms =>
  Context.mk <$> withDefault ms "id" none (optional text) <*>
    withDefault ms "data" none (optional members)

/-- A value that the caller supplied. -/
def get (c : Context) (key : String) (default : Json) : Json :=
  match c.data with
  | some ms => if ms.isEmpty then default else (Table.get? ms key).getD default
  | none => default

/-- The context with an id. Without one it is given the id at hand. -/
def identified (c : Option Context) (id : String) : Context :=
  match c with
  | some c => if c.id.isSome then c else { c with id := some id }
  | none => { id := some id }

end Context

/-! ## Operations and providers -/

/-- The operations of a component, with their parameters. -/
abbrev Interface := Table String (List Parameter)

namespace Interface

/-- The context of a call, which is an object if it is given. -/
def contextOf (context : Json) : Except Failure Context :=
  match context with
  | .null => .ok (Context.identified none "")
  | .obj ms => do return Context.identified (some (← (Context.read (.obj ms)).toExcept)) ""
  | _ => .error .noAttribute

/-- The call that some arguments make, and its context. -/
def start (i : Interface) (isBound : Bool) (name : String) (given : Arguments) (context : Json) :
    Except Failure (Arguments × Context) := do
  match Table.get? i name with
  | none => .error .noAttribute
  | some parameters =>
    let call ← bind name parameters given
    if !isBound then .error .notImplemented
    let context ← contextOf context
    return (call.arguments.getD [], context)

end Interface

/-- Which forms of an operation a provider has: one that waits and one that does not. -/
structure Provision where
  waiting : Bool
  concurrent : Bool
deriving DecidableEq

/-- The form that serves a call. A call that waits prefers the form that waits, and the other one the
other; each makes do with what there is. -/
def Provision.route (p : Provision) (concurrent : Bool) : Option Bool :=
  if concurrent then
    if p.concurrent then some true else if p.waiting then some false else none
  else
    if p.waiting then some false else if p.concurrent then some true else none

end FactIndex
