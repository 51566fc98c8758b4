import FactIndex.Dispatch.Component

/-!
# The greeter

The smallest component: it greets by name, so and so many times. It shows how a call finds the form
of an operation that serves it.

## Main definitions

* `Greeter`: a greeter with the forms of its only operation that are there.
* `Greeter.call`: a call by name.
-/

namespace FactIndex

/-- A greeter. The greeting depends on the form that serves the call. -/
structure Greeter where
  provision : Provision
deriving DecidableEq

namespace Greeter

/-- A greeter that makes its caller wait. -/
def waiting : Greeter := ⟨true, false⟩

/-- A greeter that does not. -/
def concurrent : Greeter := ⟨false, true⟩

/-- The parameters of greeting. -/
def greetParameters : List Parameter :=
  [⟨"name", .text, none⟩, ⟨"times", .integer, some (.int 1)⟩]

/-- The operations. Nobody knows how to wave. -/
def interface : Interface := [("greet", greetParameters), ("wave", [])]

/-- How often to greet. -/
def timesOf : Json → Except Failure Nat
  | .int n => .ok n.toNat
  | .bool b => .ok (if b then 1 else 0)
  | .null => .ok 1
  | _ => .error .badType

/-- The greeting, followed by the names of the extra arguments in order. -/
def greeting (word : String) (given : Arguments) : Except Failure String := do
  let name ← given.need "name"
  let times ← timesOf (given.value "times")
  let extra := (given.map (·.1)).filter fun k => !greetParameters.any fun p => p.name == k
  let words := " ".intercalate (List.replicate times (word ++ " " ++ name.value.plainText))
  return words ++ String.join ((extra.mergeSort (· ≤ ·)).map ("|" ++ ·))

/-- What a call answers. -/
structure Answer where
  result : String
  context : Context
  /-- How often the provider was made ready, if it counts that. -/
  setups : Option Nat

/-- What a greeter without provider says. -/
def alone (isConcurrent : Bool) : String :=
  if isConcurrent then "no provider (async)" else "no provider"

/-- A call without provider. Only the operation itself answers. -/
def callAlone (isConcurrent : Bool) (name : String) (given : Arguments) :
    Except Failure String := do
  match interface.start false name given .null with
  | .error .notImplemented =>
    if name = "greet" then .ok (alone isConcurrent) else .error .notImplemented
  | .error e => .error e
  | .ok _ => .ok (alone isConcurrent)

/-- A call by name. -/
def call (g : Greeter) (isConcurrent : Bool) (name : String) (given : Arguments) (context : Json) :
    Except Failure Answer := do
  let (arguments, context) ← interface.start true name given context
  let unsupported : Failure :=
    .notSupported ({ name := some name, arguments := some arguments : Operation }.text)
  if name ≠ "greet" then .error unsupported
  match g.provision.route isConcurrent with
  | none => .error unsupported
  | some served =>
    let arguments ← convertAll greetParameters arguments
    let result ← greeting (if served then "hi" else "hello") arguments
    return { result, context, setups := if served then none else some 1 }

end Greeter

end FactIndex
