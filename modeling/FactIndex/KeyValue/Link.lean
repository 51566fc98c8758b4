import FactIndex.KeyValue.Server
import FactIndex.Network
import FactIndex.Slice
import FactIndex.Json.Reader
import FactIndex.Json.Printer

/-!
# Links to the key-value server

Commands are sent over a link, of which there are two kinds: one for calls that wait and one for
calls that do not. A link is opened when it is first needed. Both lead to the same server.

## Main definitions

* `Way`: whether a call waits for its answer.
* `Address`: where the server is.
* `Links`: which links are open.
* `Host`: the network with the server.
* `Links.open`, `Links.close`, and a function for each command.
-/

namespace FactIndex

/-- Whether a call waits for its answer. -/
inductive Way where
  | waiting
  | concurrent
deriving DecidableEq

namespace KeyValue

/-- Where the server is, as it was given. -/
structure Address where
  url : Json := .null
  host : Json := .null
  portNumber : Json := .null
  database : Json := .int 0
  user : Json := .null
  password : Json := .null
  options : Json := .null
deriving DecidableEq

/-- Which links are open. -/
structure Links where
  waiting : Bool := false
  concurrent : Bool := false
deriving DecidableEq

/-- The network with the server. -/
structure Host where
  network : Network := {}
  server : Server := {}
deriving DecidableEq

namespace Links

/-- Whether the link for a way is open. -/
def isOpen (l : Links) : Way → Bool
  | .waiting => l.waiting
  | .concurrent => l.concurrent

/-- Opens or closes the link for a way. -/
def set (l : Links) (way : Way) (isOpen : Bool) : Links :=
  match way with
  | .waiting => { l with waiting := isOpen }
  | .concurrent => { l with concurrent := isOpen }

end Links

namespace Address

/-- The further options of a link. -/
def optionMembers (a : Address) : Except Failure Members :=
  match a.options with
  | .obj ms => .ok ms
  | value => if value.isGiven then .error .badType else .ok []

/-- The fixed options of a link. -/
def fixedMembers (a : Address) : Except Failure Members :=
  if a.url ≠ .null then .ok [("url", a.url), ("decode_responses", .bool true)]
  else if a.host = .null ∨ a.portNumber = .null then
    .error (.badRequest "Redis connection needs a url or a host and port" [])
  else
    .ok [("host", a.host), ("port", a.portNumber), ("db", a.database), ("username", a.user),
      ("password", a.password), ("decode_responses", .bool true)]

/-- The request that opens a link. -/
def request (a : Address) (way : Way) : Except Failure Call := do
  let fixed ← a.fixedMembers
  let more ← a.optionMembers
  if more.any fun m => Table.has fixed m.1 then .error .badType
  let given := (fixed ++ more).filter fun m => m.2 ≠ .null
  return ⟨"redis.connect", .obj (("is_async", .bool (way == .concurrent)) :: given)⟩

end Address

/-- Opens the link for a way, unless it is open. -/
def Links.ensure (a : Address) (way : Way) : Effect (Links × Host) Unit :=
  .make fun (l, h) =>
    if l.isOpen way then (.ok (), l, h)
    else
      match a.request way with
      | .ok call => (.ok (), l.set way true, { h with network := h.network.record call })
      | .error e => (.error e, l, h)

/-- The record of a command. -/
def command (name : String) (arguments : List Json) (options : Members := []) : Call :=
  ⟨"redis." ++ name, .obj (("args", .arr arguments) :: options.filter fun m => m.2 ≠ .null)⟩

/-- Closes the link for a way, if it is open. -/
def Links.close (way : Way) : Effect (Links × Host) Unit :=
  .make fun (l, h) =>
    let name := match way with
      | .waiting => "close"
      | .concurrent => "aclose"
    if l.isOpen way then
      (.ok (), l.set way false, { h with network := h.network.record (command name []) })
    else (.ok (), l, h)

namespace Host

/-- Sends a command. -/
def send {α : Type} (call : Call) (act : Float → Server → α × Server) : Effect Host α :=
  .make fun h =>
    let (answer, server) := act h.network.now h.server
    (.ok answer, { network := h.network.record call, server })

/-- The text under a key. -/
def get (key : String) : Effect Host (Option String) :=
  send (command "get" [.str key]) fun now s => (s.get now key, s)

/-- Whether there is anything under a key. -/
def has (key : String) : Effect Host Bool :=
  send (command "exists" [.str key]) fun now s => (s.has now key, s)

/-- Sets the text under a key. -/
def set (key value : String) (milliseconds : Option Int) (more : Members) : Effect Host Unit :=
  send (command "set" [.str key, .str value] (("px", Json.ofInt? milliseconds) :: more))
    fun now s => ((), s.set now key value milliseconds)

/-- Removes what is under some keys, and tells under how many of them there was anything. -/
def delete (keys : List String) : Effect Host Nat :=
  send (command "delete" (keys.map .str)) fun now s => s.delete now keys

/-- Sets a field of a table. -/
def putField (key field value : String) : Effect Host Unit :=
  send (command "hset" [.str key, .str field, .str value])
    fun _ s => ((), s.putField key field value)

/-- A field of a table. -/
def field (key field : String) : Effect Host (Option String) :=
  send (command "hget" [.str key, .str field]) fun _ s => (s.field key field, s)

/-- Removes a field of a table. -/
def removeField (key field : String) : Effect Host Unit :=
  send (command "hdel" [.str key, .str field]) fun _ s => ((), s.removeField key field)

/-- Adds a member to a set, or changes its score. -/
def add (key member : String) (score : Float) : Effect Host Unit :=
  send (command "zadd" [.str key, .single member (.float score)])
    fun _ s => ((), s.add key member score)

/-- Removes a member of a set, and tells whether it was there. Only texts are members. -/
def take (key : String) (member : Json) : Effect Host Bool :=
  send (command "zrem" [.str key, member]) fun _ s =>
    match member with
    | .str m => s.take key m
    | _ => (false, s)

/-- The members of a set whose score is not above a limit, or the first of them. -/
def upTo (key : String) (limit : Float) (count : Option Int) : Effect Host (List String) :=
  let paging : Members := match count with
    | some n => [("start", .int 0), ("num", .int n)]
    | none => []
  send (command "zrangebyscore" [.str key, .str "-inf", .float limit] paging) fun _ s =>
    let found := s.upTo key limit
    (match count with
      | some n => front found n
      | none => found, s)

/-- The number of members of a set whose score is not above a limit. -/
def countUpTo (key : String) (limit : Float) : Effect Host Nat :=
  send (command "zcount" [.str key, .str "-inf", .float limit]) fun _ s =>
    ((s.upTo key limit).length, s)

/-- The number of members of a set. -/
def size (key : String) : Effect Host Nat :=
  send (command "zcard" [.str key]) fun _ s => (s.size key, s)

end Host

end KeyValue

end FactIndex
