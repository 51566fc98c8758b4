import FactIndex.Queue.Basic
import FactIndex.Dispatch.Component

/-!
# The queue as a component

## Main definitions

* `Queue.interface`: the operations and their parameters.
* `Queue.call`: a call by name.
-/

namespace FactIndex.Queue

open FactIndex.KeyValue FactIndex.Schema

/-- The options for putting, as a kind of argument. -/
def putModel : Model := ⟨"MessagePutConfig", fun j => PutOptions.toJson <$> PutOptions.read j⟩

/-- The options for pulling, as a kind of argument. -/
def pullModel : Model := ⟨"MessagePullConfig", fun j => PullOptions.toJson <$> PullOptions.read j⟩

/-- The key of a message, as a kind of argument. -/
def keyModel : Model :=
  ⟨"MessageKey", record fun ms =>
    (fun id handle => .obj [("id", .str id), ("nref", handle)]) <$>
      required ms "id" text <*> withDefault ms "nref" .null anything⟩

/-- The operations and their parameters. -/
def interface : Interface :=
  [("put", [⟨"value", .oneOf [.text, .tableOf .text .any], none⟩,
      ⟨"metadata", .oneOf [.table], some .null⟩,
      ⟨"config", .oneOf [.record putModel], some .null⟩]),
    ("pull", [⟨"config", .oneOf [.record pullModel], some .null⟩]),
    ("ack", [⟨"key", .oneOf [.text, .record keyModel], none⟩]),
    ("get_queue", []), ("purge", []), ("close", [])]

/-- The options that a converted argument stands for. What is neither absent nor an object has no
options. -/
def optionsOf {α : Type} (read : Json → Checked α) (default : α) (a : Json) : Except Failure α :=
  match a with
  | .obj ms => (read (.obj ms)).toExcept
  | value => if value.isGiven then .error .noAttribute else .ok default

/-- The id that a key stands for: its own if it is a record, or else the key itself. -/
def idOf (key : Argument) : Json :=
  match key.model with
  | some _ => (key.value.get? "id").getD .null
  | none => key.value

/-- Runs an operation on arguments. -/
def run (q : Queue) (way : Way) (name : String) (given : Arguments) : Effect Site Json := do
  let way := wayOf name way
  q.connect way
  let given ← .ofExcept (convertAll ((Table.get? interface name).getD []) given)
  match name with
  | "put" =>
    let value ← .ofExcept (given.need "value")
    match optionsOf PutOptions.read {} (given.value "config") with
    | .ok options => Message.toJson <$> q.put way value.value (given.value "metadata") options
    | .error e =>
      let _ ← Site.newMessage value.value .null {}
      throw e
  | "pull" =>
    match optionsOf PullOptions.read {} (given.value "config") with
    | .ok options => do return .arr ((← q.pull options).map Message.toJson)
    | .error e =>
      q.beforePull
      throw e
  | "ack" =>
    q.ack way (idOf (← .ofExcept (given.need "key")))
    return .null
  | "get_queue" => QueueInfo.toJson <$> q.info
  | "purge" =>
    q.purge
    return .null
  | _ =>
    q.close way
    return .null

/-- Calls an operation by name. The answer comes with the context of the call. -/
def call (q : Option Queue) (way : Way) (name : String) (given : Arguments) (context : Json) :
    Effect Site (Json × Context) := do
  let (arguments, context) ← .ofExcept (interface.start q.isSome name given context)
  let result ← (q.getD {}).run way name arguments
  return (result, context)

end FactIndex.Queue
