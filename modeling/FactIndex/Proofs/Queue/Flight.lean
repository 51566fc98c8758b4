import FactIndex.Proofs.Queue.Server

/-!
# Messages in flight

A queue whose messages were put into it one by one hands out messages with names of their own, all of
which are in flight afterwards. Acknowledging a message takes it, and no other, out of flight; putting
one takes none.

## Main definitions

* `Queue.inFlight`: the names of the messages in flight.
* `Queue.IsSound`: what the queue holds are messages that may be handed out.
* `Queue.outcome_pull`, `Queue.outcome_ack`, `Queue.outcome_put`: what becomes of the messages in flight.
* `Queue.leaves_pull`, `Queue.leaves_ack`, `Queue.leaves_put`: what the queue has no part in stays.
-/

namespace FactIndex.Queue

open FactIndex.Effect FactIndex.KeyValue

/-! ## The operations -/

/-- The names of the messages in flight. -/
def inFlight (q : Queue) (site : Site) : List String :=
  match q.storage with
  | .memory => site.1.memory.inFlight.keys
  | .server _ => (site.2.server.scored q.inFlightKey).keys

/-- Whether the link to the server is open or can be opened. -/
def isConnected (q : Queue) (site : Site) : Bool :=
  match q.storage with
  | .memory => true
  | .server address => site.1.links.isOpen .waiting || (address.request .waiting).toOption.isSome

/-- What the queue holds are messages that may be handed out, those that are ready with names of their
own. -/
def IsSound (q : Queue) (site : Site) : Prop :=
  match q.storage with
  | .memory => site.1.memory.IsSound
  | .server _ => q.KeepsMessages site.2.server

variable {q : Queue} {site : Site}

/-- Opening the link changes nothing but the link. -/
theorem outcome_connect (hlink : q.isConnected site = true) : ∃ linked,
    (q.connect .waiting).outcome site = (.ok (), linked) ∧ linked.1.memory = site.1.memory ∧
      linked.2.server = site.2.server ∧
      ∀ other : Site, other.1.links = linked.1.links → q.isConnected other = true := by
  unfold connect
  unfold isConnected at hlink ⊢
  cases hstorage : q.storage with
  | memory => exact ⟨site, rfl, rfl, rfl, fun _ _ => rfl⟩
  | server address =>
      simp only [hstorage] at hlink ⊢
      unfold Site.connect Links.ensure
      rw [outcome_onPart, outcome_make]
      dsimp only
      cases hopen : site.1.links.isOpen .waiting with
      | true =>
          refine ⟨_, rfl, rfl, rfl, fun other hother => ?_⟩
          rw [hother]
          exact (congrArg (· || _) hopen).trans (Bool.true_or _)
      | false =>
          cases hrequest : address.request .waiting with
          | error e => simp [hopen, hrequest, Except.toOption] at hlink
          | ok call =>
              refine ⟨_, rfl, rfl, rfl, fun other hother => ?_⟩
              rw [hother]
              rfl

/-! ### Pulling -/

/-- What a pull does in memory. -/
theorem outcome_pull_memory (hstorage : q.storage = .memory) {linked : Site}
    (hconnect : (q.connect .waiting).outcome site = (.ok (), linked)) {options : PullOptions}
    {answer : Except Failure (List Message)} {after : Memory}
    (hpull : linked.1.memory.pull linked.2.network.now (options.timeout q.hidden) options.limit = (answer, after)) :
    (q.pull options).outcome site = (answer, { linked.1 with memory := after }, linked.2) := by
  unfold pull
  rw [outcome_bind_of_ok hconnect]
  simp only [hstorage]
  unfold Site.onMemory
  rw [outcome_make]
  dsimp only
  rw [hpull]

/-- Making messages ready takes no time. -/
theorem now_of_release {now : Float} {h released : Host} {r : Except Failure Unit}
    (hrelease : (q.releaseOnServer now).outcome h = (r, released)) : released.network.now = h.network.now := by
  have hleft := leaves_releaseOnServer (q := q) now h
  rw [hrelease] at hleft
  exact congrArg (·.2.1) hleft

/-- What a pull does on the server, once the messages are ready whose time in flight is over. -/
theorem outcome_pull_server {address : Address} (hstorage : q.storage = .server address) {linked : Site}
    {released after : Host} (hconnect : (q.connect .waiting).outcome site = (.ok (), linked))
    (hrelease : (q.releaseOnServer linked.2.network.now).outcome linked.2 = (.ok (), released))
    {options : PullOptions} {answer : Except Failure (List Message)}
    (hserve : Effect.outcome (do
      let ids ← Host.upTo q.readyKey linked.2.network.now (some options.limit)
      ids.filterMapM (q.sendOnServer (linked.2.network.now + options.timeout q.hidden))) released =
      (answer, after)) : (q.pull options).outcome site = (answer, linked.1, after) := by
  have hbefore : q.beforePull.outcome linked = (.ok (), linked.1, released) := by
    unfold beforePull
    simp only [hstorage]
    rw [outcome_bind_of_ok (outcome_now linked), outcome_onHost, hrelease]
  unfold pull
  rw [outcome_bind_of_ok hconnect]
  simp only [hstorage]
  rw [outcome_bind_of_ok hbefore, outcome_bind_of_ok (outcome_now _), outcome_onHost]
  dsimp only
  rw [now_of_release hrelease, hserve]

/-- A pull from a sound queue hands out messages with names of their own, which are in flight then. -/
theorem outcome_pull (hs : q.IsSound site) (hlink : q.isConnected site = true) (options : PullOptions) :
    ∃ messages after, (q.pull options).outcome site = (.ok messages, after) ∧
      (messages.map (·.id)).Nodup ∧ (∀ m ∈ messages, m.id ∈ q.inFlight after) ∧
      q.isConnected after = true := by
  obtain ⟨linked, hconnect, hmemory, hserver, hlinked⟩ := outcome_connect hlink
  unfold IsSound at hs
  unfold inFlight
  cases hstorage : q.storage with
  | memory =>
      simp only [hstorage] at hs ⊢
      rw [← hmemory] at hs
      obtain ⟨messages, after, hpull, -, hnodup, hflight⟩ :=
        hs.pull linked.2.network.now (options.timeout q.hidden) options.limit
      exact ⟨messages, _, outcome_pull_memory hstorage hconnect hpull, hnodup, hflight, hlinked _ rfl⟩
  | server address =>
      simp only [hstorage] at hs ⊢
      rw [← hserver] at hs
      rcases hrelease : (q.releaseOnServer linked.2.network.now).outcome linked.2 with ⟨r, released⟩
      obtain ⟨rfl, hreleased⟩ := (q.meets_releaseOnServer linked.2.network.now hs).of_outcome hrelease
      obtain ⟨hnodup, hready⟩ := hreleased.upTo linked.2.network.now
      have hfront : (front (released.server.upTo q.readyKey linked.2.network.now) options.limit).Sublist
        (released.server.upTo q.readyKey linked.2.network.now) := List.take_sublist _ _
      obtain ⟨messages, after, hsent, hsub, hflight, -⟩ := q.outcome_sendAllOnServer
        (linked.2.network.now + options.timeout q.hidden)
        (h := { released with network := released.network.record (command "zrangebyscore"
          [.str q.readyKey, .str "-inf", .float linked.2.network.now]
          [("start", .int 0), ("num", .int options.limit)]) })
        (hnodup.sublist hfront) (fun id hid => hready id (hfront.subset hid))
        (fun id hid => hreleased.record id (.inl (hready id (hfront.subset hid))))
      refine ⟨messages, (linked.1, after), outcome_pull_server hstorage hconnect hrelease ?_,
        (hnodup.sublist hfront).sublist hsub, hflight, hlinked _ rfl⟩
      rw [outcome_bind_of_ok (outcome_upTo _ _ _ _), hsent]

/-! ### Acknowledging and putting -/

/-- A message in flight can be acknowledged, which takes no other out of flight. -/
theorem outcome_ack (hlink : q.isConnected site = true) {id : String} (hid : id ∈ q.inFlight site) :
    ∃ after, (q.ack .waiting (.str id)).outcome site = (.ok (), after) ∧
      q.inFlight after = (q.inFlight site).filter (· ≠ id) ∧ q.isConnected after = true := by
  obtain ⟨linked, hconnect, hmemory, hserver, hlinked⟩ := outcome_connect hlink
  unfold ack
  rw [outcome_bind_of_ok hconnect]
  unfold inFlight at hid ⊢
  cases hstorage : q.storage with
  | memory =>
      simp only [hstorage] at hid ⊢
      rw [← hmemory] at hid ⊢
      have hfound : linked.1.memory.inFlight.has id = true := Table.has_iff.mpr hid
      refine ⟨({ linked.1 with memory := (linked.1.memory.ack id).2 }, linked.2), ?_,
        Table.keys_erase _ _, hlinked _ rfl⟩
      have hack : (Site.onMemory fun m _ => (.ok (m.ack id).1, (m.ack id).2)).outcome linked =
          (.ok true, { linked.1 with memory := (linked.1.memory.ack id).2 }, linked.2) := by
        unfold Site.onMemory
        rw [outcome_make]
        dsimp only
        unfold Memory.ack
        rw [hfound]
      rw [outcome_bind_of_ok hack]
      rfl
  | server address =>
      simp only [hstorage] at hid ⊢
      rw [← hserver] at hid ⊢
      have hfound : (linked.2.server.scored q.inFlightKey).has id = true := Table.has_iff.mpr hid
      have htake : (Site.onHost (Host.take q.inFlightKey (.str id))).outcome linked = (.ok true,
          linked.1, { network := linked.2.network.record (command "zrem" [.str q.inFlightKey, .str id])
                      server := linked.2.server.setScored q.inFlightKey
                        ((linked.2.server.scored q.inFlightKey).erase id) }) := by
        rw [outcome_onHost, outcome_take, hfound]
      rw [outcome_bind_of_ok htake]
      refine ⟨_, rfl, ?_, hlinked _ rfl⟩
      show ((linked.2.server.setScored q.inFlightKey
        ((linked.2.server.scored q.inFlightKey).erase id)).scored q.inFlightKey).keys = _
      rw [Server.scored_setScored, if_pos rfl, Table.keys_erase]

/-- Putting an object is answered, and leaves what is in flight. -/
theorem outcome_put (hlink : q.isConnected site = true) (ms : Members) (options : PutOptions) :
    ∃ m after, (q.put .waiting (.obj ms) .null options).outcome site = (.ok m, after) ∧
      q.inFlight after = q.inFlight site ∧ q.isConnected after = true := by
  obtain ⟨linked, hconnect, hmemory, hserver, hlinked⟩ := outcome_connect hlink
  unfold put
  rw [outcome_bind_of_ok hconnect]
  unfold inFlight
  cases hstorage : q.storage with
  | memory =>
      dsimp only
      rw [← hmemory]
      exact ⟨_, _, rfl, rfl, hlinked _ rfl⟩
  | server address =>
      dsimp only
      rw [← hserver]
      refine ⟨_, _, rfl, ?_, hlinked _ rfl⟩
      show (((linked.2.server.putField q.dataKey _ _).setScored q.readyKey
        (((linked.2.server.putField q.dataKey _ _).scored q.readyKey).put _ _)).scored
          q.inFlightKey).keys = _
      rw [Server.scored_setScored, if_neg q.readyKey_ne_inFlightKey, Server.scored_putField]

/-! ## What a queue leaves alone -/

theorem leaves_onHost {α : Type} {x : Effect Host α} (h : Leaves q.outside x) :
    Leaves (fun site : Site => q.outside site.2) (Site.onHost x) := fun site => h site.2

theorem leaves_onMemory {α : Type} (f : Memory → Float → Except Failure α × Memory) :
    Leaves (fun site : Site => q.outside site.2) (Site.onMemory f) := fun _ => rfl

theorem leaves_connect : Leaves (fun site : Site => q.outside site.2) (q.connect .waiting) := by
  unfold connect
  split
  · exact Leaves.pure _
  · intro site
    unfold Site.connect Links.ensure
    rw [outcome_onPart, outcome_make]
    dsimp only
    split
    · rfl
    · split <;> rfl

theorem leaves_beforePull : Leaves (fun site : Site => q.outside site.2) q.beforePull := by
  unfold beforePull
  split
  · exact Leaves.pure _
  · exact Leaves.bind (fun _ => rfl) fun now => leaves_onHost (leaves_releaseOnServer now)

theorem leaves_pull (options : PullOptions) :
    Leaves (fun site : Site => q.outside site.2) (q.pull options) := by
  refine leaves_connect.bind fun _ => ?_
  dsimp only
  split
  · exact leaves_onMemory _
  · exact leaves_beforePull.bind fun _ => Leaves.bind (fun _ => rfl) fun now =>
      leaves_onHost (Leaves.bind (fun _ => rfl) fun ids => Leaves.filterMapM (leaves_sendOnServer _) _)

theorem leaves_ack (id : Json) : Leaves (fun site : Site => q.outside site.2) (q.ack .waiting id) := by
  refine leaves_connect.bind fun _ => ?_
  dsimp only
  split
  · split
    · refine (leaves_onMemory _).bind fun found => ?_
      split
      · exact Leaves.throw _
      · exact Leaves.pure _
    · exact Leaves.throw _
    · exact Leaves.throw _
    · exact Leaves.throw _
  · refine (leaves_onHost (leaves_take mem_keys_inFlight _)).bind fun found => ?_
    split
    · exact Leaves.throw _
    · exact leaves_onHost (leaves_removeField mem_keys_data _)

theorem leaves_put (value metadata : Json) (options : PutOptions) :
    Leaves (fun site : Site => q.outside site.2) (q.put .waiting value metadata options) := by
  refine leaves_connect.bind fun _ => Leaves.bind (fun _ => rfl) fun message => ?_
  dsimp only
  split
  · exact (leaves_onMemory _).bind fun _ => Leaves.ofExcept _
  · exact (leaves_onHost ((leaves_putField mem_keys_data _ _).bind fun _ =>
      leaves_add mem_keys_ready _ _)).bind fun _ => Leaves.ofExcept _

end FactIndex.Queue
