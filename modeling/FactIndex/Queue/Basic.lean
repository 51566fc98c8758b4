import FactIndex.KeyValue.Link
import FactIndex.Queue.Message

/-!
# The queue

The queue holds writes that have been put off. Messages are ready or in flight: a message that has been
pulled is in flight until it is acknowledged or its time is over; then it is ready again. The queue keeps
its messages in memory or on the key-value server: there in two sets, of what is ready and of what is in
flight, each message scored by the time at which it can be seen, and in a table of the messages
themselves.

## Main definitions

* `Queue.Memory`: the messages in memory, with `Queue.Memory.release`, `Queue.Memory.put`,
  `Queue.Memory.pull`, `Queue.Memory.ack` and `Queue.Memory.info`.
* `Queue`: the settings of a queue.
* `Queue.State`: what a queue holds itself.
* `Queue.put`, `Queue.pull`, `Queue.ack`, `Queue.info`, `Queue.purge`, `Queue.close`: the operations.
-/

namespace FactIndex.Queue

/-! ## The queue in memory -/

/-- A message in flight, and when it can be seen again. -/
structure Flight where
  message : Message
  visibleAt : Float
deriving DecidableEq

/-- The messages that are ready, and those in flight. -/
structure Memory where
  ready : Table String Message := []
  inFlight : Table String Flight := []
deriving DecidableEq

namespace Memory

/-- Makes a message ready. -/
def makeReady (m : Memory) (message : Message) : Memory :=
  { m with ready := m.ready.put message.id message }

/-- Makes the messages ready whose time in flight is over. -/
def release (m : Memory) (now : Float) : Memory :=
  let expired := m.inFlight.filter fun f => f.2.visibleAt ≤ now
  expired.foldl (fun m f => makeReady { m with inFlight := m.inFlight.erase f.1 } f.2.message) m

/-- The messages that are ready and can be seen, those first that can be seen longest. -/
def due (m : Memory) (now : Float) : List Message :=
  (m.ready.values.filter fun r => r.available ≤ now).mergeSort fun a b => a.available ≤ b.available

/-- Puts a message. -/
def put (m : Memory) (message : Message) : Memory := m.makeReady message

/-- Hands out a message that is ready. -/
def send (m : Memory) (message : Message) (visibleAt : Float) : Memory :=
  { ready := m.ready.erase message.id
    inFlight := m.inFlight.put message.id { message := message.delivered, visibleAt } }

/-- Hands out messages, up to the first that may not be handed out. -/
def sendAll (m : Memory) (visibleAt : Float) : List Message → Except Failure (List Message) × Memory
  | [] => (.ok [], m)
  | message :: rest =>
    let m := m.send message visibleAt
    match message.delivered.accept with
    | .error e => (.error e, m)
    | .ok sent =>
      let (others, m) := m.sendAll visibleAt rest
      (others.map (sent :: ·), m)

/-- Hands out the messages that are due, so many of them as are asked for. -/
def pull (m : Memory) (now hidden : Float) (count : Int) :
    Except Failure (List Message) × Memory :=
  let m := m.release now
  m.sendAll (now + hidden) (front (m.due now) count)

/-- Removes a message in flight. The answer tells whether there was one. -/
def ack (m : Memory) (id : String) : Bool × Memory :=
  (m.inFlight.has id, { m with inFlight := m.inFlight.erase id })

/-- The numbers of messages. -/
def info (m : Memory) (now : Float) (name : String) : QueueInfo × Memory :=
  let m := m.release now
  let ready := (m.due now).length
  ({ name, ready, inFlight := m.inFlight.length, scheduled := (m.ready.length : Int) - ready }, m)

end Memory

end FactIndex.Queue

namespace FactIndex

open FactIndex.KeyValue

/-! ## Either queue -/

/-- Where a queue keeps its messages. -/
inductive QueueStorage where
  | memory
  | server (address : Address)
deriving DecidableEq

/-- The settings of a queue. -/
structure Queue where
  name : String := "semindex-jobs"
  /-- The seconds for which a message that was pulled stays hidden. -/
  hidden : Float := 300
  storage : QueueStorage := .memory
deriving DecidableEq

namespace Queue

/-- What a queue holds itself. -/
structure State where
  memory : Memory := {}
  links : Links := {}
deriving DecidableEq

/-- A queue, the network and the key-value server. -/
abbrev Site := State × Host

namespace Site

/-- Opens the link for a way. -/
def connect (address : Address) (way : Way) : Effect Site Unit :=
  .onPart (fun s => (s.1.links, s.2)) (fun t s => ({ s.1 with links := t.1 }, t.2))
    (Links.ensure address way)

/-- Commands to the server. -/
def onHost {α : Type} (x : Effect Host α) : Effect Site α := .onPart (·.2) (fun h s => (s.1, h)) x

/-- An operation on the messages in memory, at the time of the clock. -/
def onMemory {α : Type} (f : Memory → Float → Except Failure α × Memory) : Effect Site α :=
  .make fun (s, h) =>
    let (answer, memory) := f s.memory h.network.now
    (answer, { s with memory }, h)

/-- A new message, with the name that it is given. -/
def newMessage (value metadata : Json) (options : PutOptions) : Effect Site Message :=
  .make fun (s, h) =>
    let (id, network) := h.network.issue
    let delay := match options.delay with
      | some x => x
      | none => 0
    (.ok { id, value, metadata, enqueued := network.now, available := network.now + delay },
      s, { h with network })

/-- The time. -/
def now : Effect Site Float := .make fun s => (.ok s.2.network.now, s)

end Site

/-- The way that an operation of the queue takes. Only some of them have a form that does not
wait. -/
def wayOf (operation : String) (way : Way) : Way :=
  if ["put", "ack", "close"].contains operation then way else .waiting

/-- The key of a part of the queue on the server. -/
def partKey (q : Queue) (part : String) : String :=
  if q.name = "" then part else q.name ++ ":" ++ part

/-- The key of the set of what is ready. -/
def readyKey (q : Queue) : String := q.partKey "ready"

/-- The key of the set of what is in flight. -/
def inFlightKey (q : Queue) : String := q.partKey "inflight"

/-- The key of the table of messages. -/
def dataKey (q : Queue) : String := q.partKey "data"

/-- Makes the queue ready for an operation. -/
def connect (q : Queue) (way : Way) : Effect Site Unit :=
  match q.storage with
  | .memory => pure ()
  | .server address => Site.connect address way

/-- Puts a message. It is stored before it is looked at, and answered only if it may be handed out. -/
def put (q : Queue) (way : Way) (value metadata : Json) (options : PutOptions) :
    Effect Site Message := do
  q.connect way
  let message ← Site.newMessage value metadata options
  match q.storage with
  | .memory => Site.onMemory fun m _ => (.ok (), m.put message)
  | .server _ =>
    Site.onHost do
      Host.putField q.dataKey message.id message.record
      Host.add q.readyKey message.id message.available
  .ofExcept message.accept

/-- Makes the messages ready whose time in flight is over. -/
def releaseOnServer (q : Queue) (now : Float) : Effect Host Unit := do
  for id in ← Host.upTo q.inFlightKey now none do
    if ← Host.take q.inFlightKey (.str id) then Host.add q.readyKey id now

/-- Hands out a message on the server. One that somebody else has taken is left out. -/
def sendOnServer (q : Queue) (visibleAt : Float) (id : String) : Effect Host (Option Message) := do
  if !(← Host.take q.readyKey (.str id)) then return none
  Host.add q.inFlightKey id visibleAt
  match ← Host.field q.dataKey id with
  | none =>
    let _ ← Host.take q.inFlightKey (.str id)
    return none
  | some text =>
    match (Json.parse? Json.argumentDepth text).bind Message.ofRecordJson? with
    | none => throw .notJson
    | some message =>
      let message := message.delivered
      Host.putField q.dataKey id message.record
      some <$> Effect.ofExcept message.accept

/-- Makes ready what a pull on the server looks at before its options. In memory the options come
first. -/
def beforePull (q : Queue) : Effect Site Unit := do
  match q.storage with
  | .memory => pure ()
  | .server _ =>
    let now ← Site.now
    Site.onHost (q.releaseOnServer now)

/-- Hands out the messages that are due, so many of them as are asked for. -/
def pull (q : Queue) (options : PullOptions) : Effect Site (List Message) := do
  q.connect .waiting
  let hidden := options.timeout q.hidden
  match q.storage with
  | .memory => Site.onMemory fun m now => m.pull now hidden options.limit
  | .server _ =>
    q.beforePull
    let now ← Site.now
    Site.onHost do
      let ids ← Host.upTo q.readyKey now (some options.limit)
      ids.filterMapM (q.sendOnServer (now + hidden))

/-- The message is not in flight. -/
def notInFlight (id : Json) : Failure :=
  .notFound ("Message " ++ id.plainText ++ " is not in flight")

/-- Removes a message that has been dealt with. -/
def ack (q : Queue) (way : Way) (id : Json) : Effect Site Unit := do
  q.connect way
  match q.storage with
  | .memory =>
    match id with
    | .str s =>
      let found ← Site.onMemory fun m _ =>
        let (found, m) := m.ack s
        (.ok found, m)
      if !found then throw (notInFlight id)
    | .arr _ | .obj _ => throw .badType
    | _ => throw (notInFlight id)
  | .server _ =>
    if !(← Site.onHost (Host.take q.inFlightKey id)) then throw (notInFlight id)
    Site.onHost (Host.removeField q.dataKey id.plainText)

/-- The numbers of messages. -/
def info (q : Queue) : Effect Site QueueInfo := do
  q.connect .waiting
  match q.storage with
  | .memory => Site.onMemory fun m now =>
      let (info, m) := m.info now q.name
      (.ok info, m)
  | .server _ =>
    let now ← Site.now
    Site.onHost do
      let ready ← Host.countUpTo q.readyKey now
      let total ← Host.size q.readyKey
      let inFlight ← Host.size q.inFlightKey
      return { name := q.name, ready, inFlight, scheduled := (total : Int) - ready }

/-- Removes all messages. -/
def purge (q : Queue) : Effect Site Unit := do
  q.connect .waiting
  match q.storage with
  | .memory => Site.onMemory fun _ _ => (.ok (), {})
  | .server _ =>
    let _ ← Site.onHost (Host.delete [q.readyKey, q.inFlightKey, q.dataKey])

/-- Closes the link to the server. -/
def close (q : Queue) (way : Way) : Effect Site Unit := do
  q.connect way
  match q.storage with
  | .memory => pure ()
  | .server _ =>
    .onPart (fun s => (s.1.links, s.2)) (fun t s => ({ s.1 with links := t.1 }, t.2))
      (Links.close way)

end Queue

end FactIndex
