import FactIndex.Failure
import FactIndex.Schema.Record
import FactIndex.Json.Printer

/-!
# Messages

A message carries a text or an object. It is put into the queue to be seen now or later, and counts how
often it has been handed out.

## Main definitions

* `Message`: a message with its times.
* `Message.accept`: refuses what no message may carry.
* `Message.record`, `Message.ofRecord?`: the form in which a message is stored.
* `PutOptions`, `PullOptions`: what can be said when a message is put and when messages are pulled.
-/

namespace FactIndex

open FactIndex.Schema

/-- A message. -/
structure Message where
  id : String
  value : Json
  metadata : Json := .null
  /-- When it was put into the queue. -/
  enqueued : Float
  /-- When it can be seen first. -/
  available : Float
  /-- How often it has been handed out. -/
  deliveries : Int := 0
deriving DecidableEq

namespace Message

/-- What is wrong with the value of a message. -/
def valueIssues : Json → List Issue
  | .null | .str _ | .obj _ => []
  | _ => [⟨[.field "value", .field "str"], .stringType⟩,
      ⟨[.field "value", .field "dict[str,any]"], .dictType⟩]

/-- What is wrong with the metadata of a message. -/
def metadataIssues : Json → List Issue
  | .null | .obj _ => []
  | _ => [⟨[.field "metadata"], .dictType⟩]

/-- The message, if it may be handed out: its value is a text or an object, and its metadata are an
object. -/
def accept (m : Message) : Except Failure Message :=
  match valueIssues m.value ++ metadataIssues m.metadata with
  | [] => .ok m
  | issues => .error (.invalid issues)

/-- The message once more handed out. -/
def delivered (m : Message) : Message := { m with deliveries := m.deliveries + 1 }

/-- The JSON form of a message that is handed out. -/
def toJson (m : Message) : Json :=
  .obj [("key", .obj [("id", .str m.id), ("nref", .null)]), ("value", m.value),
    ("metadata", m.metadata),
    ("properties", .obj [("enqueued_time", .float m.enqueued),
      ("available_time", .float m.available), ("delivery_count", .int m.deliveries)])]

/-- The stored form of a message. -/
def recordJson (m : Message) : Json :=
  .obj [("id", .str m.id), ("value", m.value), ("metadata", m.metadata),
    ("enqueued_time", .float m.enqueued), ("available_time", .float m.available),
    ("delivery_count", .int m.deliveries)]

/-- The stored text of a message. -/
def record (m : Message) : String := Json.Style.stored.print m.recordJson

/-- The message of a stored form. -/
def ofRecordJson? (j : Json) : Option Message :=
  match j.get? "id", j.get? "value", j.get? "metadata", j.get? "enqueued_time",
    j.get? "available_time", j.get? "delivery_count" with
  | some (.str id), some value, some metadata, some (.float enqueued), some (.float available),
    some (.int deliveries) => some { id, value, metadata, enqueued, available, deliveries }
  | _, _, _, _, _, _ => none

theorem ofRecordJson?_recordJson (m : Message) : ofRecordJson? m.recordJson = some m := rfl

end Message

/-- What can be said when a message is put. -/
structure PutOptions where
  /-- The seconds until the message can be seen. -/
  delay : Option Float := none
deriving DecidableEq

namespace PutOptions

/-- The JSON form. -/
def toJson (o : PutOptions) : Json := .single "delay" (Json.ofFloat? o.delay)

/-- Reads the JSON form. -/
def read : Json → Checked PutOptions :=
  Schema.record fun ms => PutOptions.mk <$> withDefault ms "delay" none (optional number)

end PutOptions

/-- What can be said when messages are pulled. -/
structure PullOptions where
  /-- The greatest number of messages. Nothing and zero stand for one. -/
  count : Option Int := some 1
  /-- The seconds for which the messages stay hidden. Nothing and zero stand for the time that the
  queue has set. -/
  hidden : Option Float := none
deriving DecidableEq

namespace PullOptions

/-- The JSON form. -/
def toJson (o : PullOptions) : Json :=
  .obj [("max_count", Json.ofInt? o.count), ("visibility_timeout", Json.ofFloat? o.hidden)]

/-- Reads the JSON form. -/
def read : Json → Checked PullOptions :=
  Schema.record fun ms => PullOptions.mk <$> withDefault ms "max_count" (some 1) (optional integer)
    <*> withDefault ms "visibility_timeout" none (optional number)

/-- The greatest number of messages. -/
def limit (o : PullOptions) : Int :=
  match o.count with
  | some n => if n = 0 then 1 else n
  | none => 1

/-- The seconds for which the messages stay hidden. -/
def timeout (o : PullOptions) (default : Float) : Float :=
  match o.hidden with
  | some x => if x == 0 then default else x
  | none => default

end PullOptions

/-- How many messages there are. -/
structure QueueInfo where
  name : String
  ready : Nat
  inFlight : Nat
  scheduled : Int
deriving DecidableEq

/-- The JSON form of the numbers of messages. -/
def QueueInfo.toJson (i : QueueInfo) : Json :=
  .obj [("name", .str i.name), ("active_message_count", .int i.ready),
    ("inflight_message_count", .int i.inFlight), ("scheduled_message_count", .int i.scheduled)]

end FactIndex
