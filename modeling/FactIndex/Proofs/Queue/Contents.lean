import FactIndex.Proofs.Cache.Content
import FactIndex.Proofs.Decimal.Written
import FactIndex.Proofs.Queue.Flight

/-!
# What a queue holds

A message that is put comes after what the queue holds already, and changes none of it, if its name is
new to the queue.

## Main definitions

* `Queue.Contents`, `Queue.contents`: what a queue holds.
* `Queue.Contents.add`: one more message.
* `Queue.newMessage`: the message that is made of a value and of metadata.
* `Queue.outcome_put_store`: what is put is stored, and answered if it may be handed out.
* `Queue.outcome_put_eq`: putting an object adds it and does nothing else.
-/

namespace FactIndex

open FactIndex.Effect FactIndex.KeyValue

/-- What is known of the network before something is sent or named: the time, and how many names have been
given. -/
def Network.standing (n : Network) : Float × Nat := (n.now, n.issued)

/-- The name that is given to a message. -/
def Network.nameOf (k : Nat) : String := "msg-" ++ toString k

theorem Network.nameOf_injective : Function.Injective Network.nameOf := by
  intro k l h
  have htext : toString (k : Int) = toString (l : Int) := String.append_right_inj _ |>.mp h
  have hread := Decimal.fieldInt?_toString (k : Int)
  rw [htext, Decimal.fieldInt?_toString] at hread
  exact (Int.ofNat.inj (Option.some.inj hread)).symm

theorem KeyValue.Host.IsQuiet.standing : Host.IsQuiet (fun h : Host => h.network.standing) :=
  fun _ _ _ => rfl

namespace Queue

/-- What a queue holds: in memory the messages, on the server the names of what is ready and of what is in
flight, each with a time, and the texts of the messages. -/
inductive Contents where
  | memory (messages : Memory)
  | server (ready inFlight : Table String Float) (texts : Table String String)
deriving DecidableEq

/-- What a queue holds. -/
def contents (q : Queue) (site : Site) : Contents :=
  match q.storage with
  | .memory => .memory site.1.memory
  | .server _ => .server (site.2.server.scored q.readyKey) (site.2.server.scored q.inFlightKey)
      (site.2.server.table q.dataKey)

namespace Contents

/-- All names under which something is held. -/
def names : Contents → List String
  | .memory messages => messages.ready.keys ++ messages.inFlight.keys
  | .server ready inFlight texts => ready.keys ++ inFlight.keys ++ texts.keys

/-- The names of what is in flight. -/
def inFlight : Contents → List String
  | .memory messages => messages.inFlight.keys
  | .server _ inFlight _ => inFlight.keys

/-- One more message, after all the others. -/
def add (m : Message) : Contents → Contents
  | .memory messages => .memory { messages with ready := messages.ready ++ [(m.id, m)] }
  | .server ready inFlight texts =>
    .server (ready ++ [(m.id, m.available)]) inFlight (texts ++ [(m.id, m.record)])

@[simp] theorem inFlight_add (c : Contents) (m : Message) : (c.add m).inFlight = c.inFlight := by
  cases c <;> rfl

end Contents

theorem inFlight_contents (q : Queue) (site : Site) : (q.contents site).inFlight = q.inFlight site := by
  unfold contents inFlight
  cases q.storage <;> rfl

/-- The message that is made of a value: with the next name, and to be seen at once or later. -/
def nextMessage (n : Network) (value : Json) (delay : Option Float) : Message where
  id := n.issue.1
  value := value
  enqueued := n.now
  available := n.now + match delay with
    | some x => x
    | none => 0

theorem nextMessage_congr {n n' : Network} (h : n'.standing = n.standing) :
    nextMessage n' = nextMessage n := by
  simp only [Network.standing, Prod.mk.injEq] at h
  funext value delay
  unfold nextMessage Network.issue
  rw [h.1, h.2]

variable {q : Queue} {site : Site}

theorem leaves_host_connect {β : Type} {view : Host → β} (hview : Host.IsQuiet view) (way : Way) :
    Leaves (fun site : Site => view site.2) (q.connect way) := by
  unfold connect
  split
  · exact Leaves.pure _
  · exact fun site => hview.leaves_ensure _ _ (site.1.links, site.2)

/-- Opening the link takes no time and no name. -/
theorem standing_of_connect {way : Way} {linked : Site} {r : Except Failure Unit}
    (h : (q.connect way).outcome site = (r, linked)) :
    linked.2.network.standing = site.2.network.standing := by
  have hleft := leaves_host_connect (q := q) Host.IsQuiet.standing way site
  rwa [h] at hleft

theorem contents_congr {site' : Site} (hmemory : site'.1.memory = site.1.memory)
    (hserver : site'.2.server = site.2.server) : q.contents site' = q.contents site := by
  unfold contents
  rw [hmemory, hserver]

/-- The message that is made of a value and of metadata. -/
def newMessage (n : Network) (value metadata : Json) (options : PutOptions) : Message :=
  { nextMessage n value options.delay with metadata }

theorem newMessage_congr {n n' : Network} (h : n'.standing = n.standing) :
    newMessage n' = newMessage n := by
  unfold newMessage
  rw [nextMessage_congr h]

/-- What is put is stored after what is there, if its name is new, and answered if it may be handed out. -/
theorem outcome_put_store {way : Way} {linked : Site} (hconnect : (q.connect way).outcome site = (.ok (), linked))
    (hmemory : linked.1.memory = site.1.memory) (hserver : linked.2.server = site.2.server)
    (hstanding : linked.2.network.standing = site.2.network.standing) (value metadata : Json)
    (options : PutOptions) (hnew : site.2.network.issue.1 ∉ (q.contents site).names) :
    ∃ after, (q.put way value metadata options).outcome site =
        ((newMessage site.2.network value metadata options).accept, after) ∧
      q.contents after = (q.contents site).add (newMessage site.2.network value metadata options) ∧
      after.2.network.standing = (site.2.network.now, site.2.network.issued + 1) := by
  have hsame : q.contents linked = q.contents site := contents_congr hmemory hserver
  have hcounted : (linked.2.network.now, linked.2.network.issued + 1) =
      (site.2.network.now, site.2.network.issued + 1) :=
    congrArg (fun standing : Float × Nat => (standing.1, standing.2 + 1)) hstanding
  have hissue : linked.2.network.issue.1 = site.2.network.issue.1 :=
    congrArg (fun standing : Float × Nat => "msg-" ++ toString (standing.2 + 1)) hstanding
  rw [← newMessage_congr hstanding]
  rw [← hissue, ← hsame] at hnew
  rw [← hsame]
  unfold put
  rw [outcome_bind_of_ok hconnect]
  have hmake : (Site.newMessage value metadata options).outcome linked =
      (.ok (newMessage linked.2.network value metadata options), linked.1,
        { linked.2 with network := linked.2.network.issue.2 }) := rfl
  rw [outcome_bind_of_ok hmake]
  unfold contents at hnew ⊢
  cases hstorage : q.storage with
  | memory =>
      simp only [hstorage, Contents.names, List.mem_append, not_or] at hnew
      dsimp only
      have hstore : (Site.onMemory fun m _ => (.ok (), m.put
            (newMessage linked.2.network value metadata options))).outcome
          (linked.1, { linked.2 with network := linked.2.network.issue.2 }) = (.ok (),
            { linked.1 with memory := linked.1.memory.put (newMessage linked.2.network value metadata options) },
            { linked.2 with network := linked.2.network.issue.2 }) := rfl
      rw [outcome_bind_of_ok hstore, outcome_ofExcept]
      refine ⟨_, rfl, ?_, hcounted⟩
      exact congrArg (fun ready => Contents.memory { linked.1.memory with ready })
        (Table.put_of_not_mem hnew.1 _)
  | server address =>
      simp only [hstorage, Contents.names, List.mem_append, not_or] at hnew
      dsimp only
      rw [outcome_bind, outcome_onHost, outcome_bind_of_ok (outcome_putField _ _ _ _), outcome_add]
      dsimp only
      rw [outcome_ofExcept]
      refine ⟨_, rfl, ?_, hcounted⟩
      let m := newMessage linked.2.network value metadata options
      let stored := linked.2.server.putField q.dataKey m.id m.record
      show Contents.server ((stored.setScored q.readyKey ((stored.scored q.readyKey).put m.id
          m.available)).scored q.readyKey) ((stored.setScored q.readyKey ((stored.scored
            q.readyKey).put m.id m.available)).scored q.inFlightKey) (stored.table q.dataKey) = _
      rw [Server.scored_setScored, if_pos rfl, Server.scored_setScored,
        if_neg q.readyKey_ne_inFlightKey, Server.scored_putField, Server.scored_putField,
        Server.table_putField, Table.put_of_not_mem (show m.id ∉ _ from hnew.1.1),
        Table.put_of_not_mem (show m.id ∉ _ from hnew.2)]
      rfl

/-- An object is put after what is there, if its name is new. -/
theorem outcome_put_eq (hlink : q.isConnected site = true)
    (hnew : site.2.network.issue.1 ∉ (q.contents site).names) (ms : Members) (delay : Option Float) :
    ∃ after, (q.put .waiting (.obj ms) .null { delay }).outcome site =
        (.ok (nextMessage site.2.network (.obj ms) delay), after) ∧
      q.contents after = (q.contents site).add (nextMessage site.2.network (.obj ms) delay) ∧
      after.2.network.standing = (site.2.network.now, site.2.network.issued + 1) := by
  obtain ⟨linked, hconnect, hmemory, hserver, -⟩ := outcome_connect hlink
  exact outcome_put_store hconnect hmemory hserver (standing_of_connect hconnect) (.obj ms) .null { delay } hnew

/-- What shows neither the commands, nor the server, nor how many names have been given. -/
theorem leaves_host_put {β : Type} {view : Host → β} (hview : Host.IsQuiet view)
    (hserver : ∀ (h : Host) server, view { h with server } = view h)
    (hissue : ∀ h : Host, view { h with network := h.network.issue.2 } = view h)
    (value metadata : Json) (options : PutOptions) :
    Leaves (fun site : Site => view site.2) (q.put .waiting value metadata options) := by
  refine (leaves_host_connect hview .waiting).bind fun _ =>
    Leaves.bind (fun site => hissue site.2) fun message => ?_
  dsimp only
  split
  · exact Leaves.bind (fun _ => rfl) fun _ => Leaves.ofExcept _
  · have hput : Leaves view (do
        Host.putField q.dataKey message.id message.record
        Host.add q.readyKey message.id message.available) :=
      Leaves.bind (fun h => (hserver { h with network := h.network.record _ } _).trans (hview h "hset" _))
        fun _ h => (hserver { h with network := h.network.record _ } _).trans (hview h "zadd" _)
    exact Leaves.bind (fun site => hput site.2) fun _ => Leaves.ofExcept _

end Queue

end FactIndex
