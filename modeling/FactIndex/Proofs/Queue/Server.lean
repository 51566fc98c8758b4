import FactIndex.Proofs.Effect
import FactIndex.Queue.Basic

/-!
# The messages of a queue

A queue in memory into which only messages were put that may be handed out hands out whatever is due. The
messages of a pull have names of their own, and are in flight afterwards.

On the key-value server a queue keeps the names of the messages that are ready and of those in flight in
two sets, and the messages as texts in a table. It touches nothing else that is kept there.

## Main definitions

* `Queue.Memory.IsSound`: every message may be handed out, and those that are ready have names of their
  own.
* `Queue.Memory.Step`: what can be done to the messages in memory.
* `Queue.Memory.isSound_run`: however a queue has been used, it is sound.
* `Queue.Memory.IsSound.pull`: what a pull hands out.
* `Queue.KeepsMessages`: what is kept on the server are messages, each under its own name.
* `Queue.meets_releaseOnServer`, `Queue.outcome_sendAllOnServer`: what a pull does on the server.
* `Queue.outside`: what the queue has no part in.
-/

namespace FactIndex

/-- Handing a message out once more leaves it one that may be handed out. -/
theorem Message.accept_delivered {m : Message} (h : m.accept = .ok m) :
    m.delivered.accept = .ok m.delivered := by
  have hnone : valueIssues m.delivered.value ++ metadataIssues m.delivered.metadata = [] := by
    unfold accept at h
    split at h
    · assumption
    · cases h
  unfold accept
  rw [hnone]

namespace Queue

/-! ## The queue in memory -/

namespace Memory

/-- Every message may be handed out, and those that are ready have names of their own. -/
structure IsSound (m : Memory) : Prop where
  nodup : m.ready.keys.Nodup
  ready : ∀ entry ∈ m.ready, entry.2.id = entry.1 ∧ entry.2.accept = .ok entry.2
  inFlight : ∀ entry ∈ m.inFlight, entry.2.message.accept = .ok entry.2.message

variable {m : Memory}

theorem isSound_empty : IsSound {} := ⟨List.nodup_nil, nofun, nofun⟩

theorem IsSound.makeReady (h : m.IsSound) {message : Message} (ha : message.accept = .ok message) :
    (m.makeReady message).IsSound where
  nodup := Table.nodup_keys_put h.nodup _ _
  ready entry hentry := by
    rcases Table.mem_of_mem_put hentry with rfl | hentry
    · exact ⟨rfl, ha⟩
    · exact h.ready entry hentry
  inFlight := h.inFlight

theorem IsSound.erase (h : m.IsSound) (id : String) :
    IsSound { m with inFlight := m.inFlight.erase id } :=
  ⟨h.nodup, h.ready, fun entry hentry => h.inFlight entry (List.mem_filter.mp hentry).1⟩

theorem IsSound.release (h : m.IsSound) (now : Float) : (m.release now).IsSound :=
  List.foldlRecOn _ _ h fun _ hm f hf =>
    (hm.erase f.1).makeReady (h.inFlight f (List.mem_filter.mp hf).1)

theorem IsSound.send (h : m.IsSound) {message : Message} (ha : message.delivered.accept = .ok message.delivered)
    (visibleAt : Float) : (m.send message visibleAt).IsSound where
  nodup := Table.nodup_keys_erase h.nodup _
  ready entry hentry := h.ready entry (List.mem_filter.mp hentry).1
  inFlight entry hentry := by
    rcases Table.mem_of_mem_put hentry with rfl | hentry
    · exact ha
    · exact h.inFlight entry hentry

theorem IsSound.values_map_id (h : m.IsSound) : m.ready.values.map (·.id) = m.ready.keys := by
  rw [Table.values, List.map_map]
  exact List.map_congr_left fun entry hentry => (h.ready entry hentry).1

/-- The messages that are due have names of their own and may be handed out. -/
theorem IsSound.due (h : m.IsSound) (now : Float) : ((m.due now).map (·.id)).Nodup ∧
    ∀ message ∈ m.due now, message.accept = .ok message := by
  constructor
  · have hperm : (m.due now).Perm (m.ready.values.filter fun r => r.available ≤ now) :=
      List.mergeSort_perm _ _
    refine (hperm.map _).nodup_iff.mpr (List.Nodup.sublist ?_ h.nodup)
    rw [← h.values_map_id]
    exact List.filter_sublist.map _
  · intro message hmessage
    obtain ⟨entry, hentry, rfl⟩ := List.mem_map.mp
      (List.mem_filter.mp (List.mem_mergeSort.mp hmessage)).1
    exact (h.ready entry hentry).2

/-- Messages that may be handed out are handed out, and are in flight then. -/
theorem sendAll_eq {messages : List Message} (haccept : ∀ message ∈ messages,
      message.delivered.accept = .ok message.delivered) (visibleAt : Float) {m : Memory} (h : m.IsSound) :
    ∃ after, m.sendAll visibleAt messages = (.ok (messages.map Message.delivered), after) ∧
      after.IsSound ∧ ∀ id, id ∈ after.inFlight.keys ↔
        id ∈ m.inFlight.keys ∨ id ∈ messages.map (·.id) := by
  induction messages generalizing m with
  | nil => exact ⟨m, rfl, h, by simp⟩
  | cons message rest ih =>
      have hfirst := haccept message List.mem_cons_self
      obtain ⟨after, hrest, hsound, hflight⟩ :=
        ih (fun other hother => haccept other (List.mem_cons_of_mem _ hother))
          (h.send hfirst visibleAt)
      refine ⟨after, ?_, hsound, fun id => ?_⟩
      · simp only [sendAll]
        rw [hfirst, hrest]
        rfl
      · have hsend : id ∈ (m.send message visibleAt).inFlight.keys ↔
            id = message.id ∨ id ∈ m.inFlight.keys := Table.mem_keys_put
        rw [hflight, hsend, List.map_cons, List.mem_cons]
        grind

/-- Whatever is due is handed out. -/
theorem IsSound.pull (h : m.IsSound) (now hidden : Float) (count : Int) : ∃ messages after,
    m.pull now hidden count = (.ok messages, after) ∧ after.IsSound ∧
      (messages.map (·.id)).Nodup ∧ ∀ message ∈ messages, message.id ∈ after.inFlight.keys := by
  obtain ⟨hnodup, haccept⟩ := (h.release now).due now
  have hfront : (front ((m.release now).due now) count).Sublist ((m.release now).due now) :=
    List.take_sublist _ _
  obtain ⟨after, hsent, hsound, hflight⟩ := sendAll_eq
    (fun message hmessage => Message.accept_delivered (haccept message (hfront.subset hmessage)))
    (now + hidden) (h.release now)
  refine ⟨_, after, hsent, hsound, ?_, ?_⟩
  · rw [List.map_map]
    exact hnodup.sublist (hfront.map _)
  · intro message hmessage
    obtain ⟨sent, hin, rfl⟩ := List.mem_map.mp hmessage
    exact (hflight sent.id).mpr (.inr (List.mem_map_of_mem hin))

/-! ## Using the queue -/

/-- What can be done to the messages. -/
inductive Step where
  | put (message : Message)
  | pull (now hidden : Float) (count : Int)
  | ack (id : String)
  | info (now : Float)
  | purge

/-- The messages after a step. -/
def Step.after (m : Memory) : Step → Memory
  | .put message => m.put message
  | .pull now hidden count => (m.pull now hidden count).2
  | .ack id => (m.ack id).2
  | .info now => (m.info now "").2
  | .purge => {}

theorem IsSound.after (h : m.IsSound) {step : Step}
    (hput : ∀ message, step = .put message → message.accept = .ok message) :
    (step.after m).IsSound := by
  cases step with
  | put message => exact h.makeReady (hput message rfl)
  | pull now hidden count =>
      obtain ⟨messages, after, hpull, hsound, -⟩ := h.pull now hidden count
      show (m.pull now hidden count).2.IsSound
      rwa [hpull]
  | ack id => exact h.erase id
  | info now => exact h.release now
  | purge => exact isSound_empty

/-- However a queue has been used, it is sound if what was put into it may be handed out. -/
theorem isSound_run {steps : List Step}
    (hput : ∀ message, .put message ∈ steps → message.accept = .ok message) :
    (steps.foldl Step.after {}).IsSound := by
  have hrun : ∀ m : Memory, m.IsSound → (steps.foldl Step.after m).IsSound := by
    induction steps with
    | nil => exact fun m h => h
    | cons step rest ih =>
        intro m h
        refine ih (fun message hm => hput message (List.mem_cons_of_mem _ hm)) _ (h.after ?_)
        rintro message rfl
        exact hput message List.mem_cons_self
  exact hrun {} isSound_empty

end Memory

end Queue

end FactIndex

namespace FactIndex

open FactIndex.Effect FactIndex.KeyValue

namespace KeyValue.Server

/-! ## Sets and tables on the server -/

theorem scored_setScored (s : Server) (key other : String) (t : Table String Float) :
    (s.setScored key t).scored other = if key = other then t else s.scored other := by
  unfold setScored scored
  split
  · rename_i hempty
    split
    · rename_i heq
      rw [heq, Table.get?_erase_self, List.isEmpty_iff.mp hempty]
      rfl
    · rename_i hne
      rw [Table.get?_erase_of_ne _ hne]
  · split
    · rename_i heq
      rw [heq, Table.get?_put_self]
      rfl
    · rename_i hne
      rw [Table.get?_put_of_ne _ _ hne]

theorem table_putField (s : Server) (key name value : String) :
    (s.putField key name value).table key = (s.table key).put name value := by
  have hgiven : ((s.table key).put name value).isEmpty = false := by
    cases s.table key with
    | nil => rfl
    | cons entry rest =>
        rw [Table.put]
        split <;> rfl
  unfold putField setTable
  rw [hgiven]
  simp only [Bool.false_eq_true, if_false, table]
  rw [Table.get?_put_self, Option.getD_some]

theorem table_removeField (s : Server) (key name : String) :
    (s.removeField key name).table key = (s.table key).erase name := by
  unfold removeField setTable table
  generalize (Table.get? s.tables key).getD [] = t
  split
  · rename_i hempty
    rw [Table.get?_erase_self, List.isEmpty_iff.mp hempty]
    rfl
  · rw [Table.get?_put_self]
    rfl

theorem field_putField (s : Server) (key name other value : String) :
    (s.putField key name value).field key other =
      if name = other then some value else s.field key other := by
  unfold field
  rw [table_putField]
  split
  · rename_i heq
    rw [heq, Table.get?_put_self]
  · rename_i hne
    rw [Table.get?_put_of_ne _ _ hne]

@[simp] theorem field_setScored (s : Server) (key other name : String) (t : Table String Float) :
    (s.setScored key t).field other name = s.field other name := rfl

@[simp] theorem scored_putField (s : Server) (key name value other : String) :
    (s.putField key name value).scored other = s.scored other := rfl

/-! ### What is due -/

theorem nodup_upTo {s : Server} {key : String} (h : (s.scored key).keys.Nodup) (limit : Float) :
    (s.upTo key limit).Nodup := by
  have hperm := ((s.scored key).filter fun m => m.2 ≤ limit).mergeSort_perm before
  have hsub : (((s.scored key).filter fun m => m.2 ≤ limit).map (·.1)).Sublist (s.scored key).keys :=
    List.filter_sublist.map _
  exact (hperm.map _).nodup_iff.mpr (h.sublist hsub)

theorem mem_upTo_iff {s : Server} {key : String} (h : (s.scored key).keys.Nodup) {limit : Float}
    {id : String} : id ∈ s.upTo key limit ↔ ∃ t, (s.scored key).get? id = some t ∧ t ≤ limit := by
  unfold upTo
  rw [List.mem_map]
  simp only [List.mem_mergeSort, List.mem_filter, decide_eq_true_iff]
  constructor
  · rintro ⟨entry, ⟨hmem, hscore⟩, rfl⟩
    exact ⟨entry.2, Table.get?_of_mem h hmem, hscore⟩
  · rintro ⟨t, hget, hscore⟩
    exact ⟨_, ⟨Table.mem_of_get? hget, hscore⟩, rfl⟩

theorem length_upTo_le (s : Server) (key : String) (limit : Float) :
    (s.upTo key limit).length ≤ (s.scored key).keys.length := by
  unfold upTo Table.keys
  rw [List.length_map, List.length_mergeSort, List.length_map]
  exact List.length_filter_le _ _

end KeyValue.Server

namespace Queue

/-! ## The queue on the server -/

theorem readyKey_ne_inFlightKey (q : Queue) : q.readyKey ≠ q.inFlightKey := by
  unfold readyKey inFlightKey partKey
  split
  · decide
  · rw [Ne, String.append_right_inj]
    decide

/-- A text is that of a message that may be handed out, under a name. -/
def IsRecordOf (id text : String) : Prop :=
  ∃ m : Message, (Json.parse? Json.argumentDepth text).bind Message.ofRecordJson? = some m ∧
    m.id = id ∧ m.accept = .ok m

/-- What is kept on the server are messages that may be handed out, each under its own name. -/
structure KeepsMessages (q : Queue) (s : Server) : Prop where
  nodup : (s.scored q.readyKey).keys.Nodup
  record : ∀ id, id ∈ (s.scored q.readyKey).keys ∨ id ∈ (s.scored q.inFlightKey).keys →
    ∀ text, s.field q.dataKey id = some text → IsRecordOf id text

theorem outcome_take (key member : String) (h : Host) : (Host.take key (.str member)).outcome h =
    (.ok ((h.server.scored key).has member),
      { network := h.network.record (command "zrem" [.str key, .str member])
        server := h.server.setScored key ((h.server.scored key).erase member) }) := rfl

theorem outcome_add (key member : String) (score : Float) (h : Host) :
    (Host.add key member score).outcome h = (.ok (),
      { network := h.network.record (command "zadd" [.str key, .single member (.float score)])
        server := h.server.setScored key ((h.server.scored key).put member score) }) := rfl

theorem outcome_field (key name : String) (h : Host) : (Host.field key name).outcome h =
    (.ok (h.server.field key name),
      { h with network := h.network.record (command "hget" [.str key, .str name]) }) := rfl

theorem outcome_putField (key name value : String) (h : Host) :
    (Host.putField key name value).outcome h = (.ok (),
      { network := h.network.record (command "hset" [.str key, .str name, .str value])
        server := h.server.putField key name value }) := rfl

theorem outcome_upTo (key : String) (limit : Float) (n : Int) (h : Host) :
    (Host.upTo key limit (some n)).outcome h = (.ok (front (h.server.upTo key limit) n),
      { h with network := h.network.record (command "zrangebyscore"
          [.str key, .str "-inf", .float limit] [("start", .int 0), ("num", .int n)]) }) := rfl

theorem outcome_onHost {α : Type} (x : Effect Host α) (site : Site) :
    (Site.onHost x).outcome site = ((x.outcome site.2).1, site.1, (x.outcome site.2).2) := rfl

theorem outcome_now (site : Site) : Site.now.outcome site = (.ok site.2.network.now, site) := rfl

/-- A message that is ready is handed out, unless its text is gone. -/
theorem outcome_sendOnServer (q : Queue) (visibleAt : Float) {h : Host} {id : String}
    (hready : id ∈ (h.server.scored q.readyKey).keys)
    (hrecord : ∀ text, h.server.field q.dataKey id = some text → IsRecordOf id text) :
    ∃ sent after, (q.sendOnServer visibleAt id).outcome h = (.ok sent, after) ∧
      (∀ m, sent = some m → m.id = id ∧ id ∈ (after.server.scored q.inFlightKey).keys) ∧
      (∀ other, other ≠ id →
        (other ∈ (after.server.scored q.inFlightKey).keys ↔
          other ∈ (h.server.scored q.inFlightKey).keys) ∧
        (other ∈ (after.server.scored q.readyKey).keys ↔
          other ∈ (h.server.scored q.readyKey).keys) ∧
        after.server.field q.dataKey other = h.server.field q.dataKey other) := by
  have hhas : (h.server.scored q.readyKey).has id = true := Table.has_iff.mpr hready
  have hkeys := q.readyKey_ne_inFlightKey
  unfold sendOnServer
  rw [outcome_bind_of_ok (outcome_take _ _ h), hhas]
  simp only [Bool.not_true, Bool.false_eq_true, if_false]
  rw [outcome_bind_of_ok (outcome_add _ _ _ _), outcome_bind_of_ok (outcome_field _ _ _)]
  simp only [Server.field_setScored]
  cases hfield : h.server.field q.dataKey id with
  | none =>
      dsimp only
      rw [outcome_bind_of_ok (outcome_take _ _ _)]
      refine ⟨none, _, rfl, nofun, fun other hother => ?_⟩
      simp [Server.scored_setScored, hkeys, Ne.symm hkeys, Table.keys_erase, Table.mem_keys_put, hother]
  | some text =>
      obtain ⟨m, hread, hid, haccept⟩ := hrecord text hfield
      dsimp only
      rw [hread]
      dsimp only
      rw [outcome_bind_of_ok (outcome_putField _ _ _ _), Message.accept_delivered haccept]
      refine ⟨some m.delivered, _, rfl, ?_, fun other hother => ?_⟩
      · rintro _ ⟨⟩
        refine ⟨hid, ?_⟩
        simp [Server.scored_setScored, Table.mem_keys_put]
      · simp [Server.scored_setScored, hkeys, Ne.symm hkeys, Table.keys_erase, Table.mem_keys_put,
          hother, Server.field_putField, Ne.symm hother]

/-- The messages that are due are ready, and have names of their own. -/
theorem KeepsMessages.upTo {q : Queue} {s : Server} (hs : q.KeepsMessages s) (limit : Float) :
    (s.upTo q.readyKey limit).Nodup ∧
      ∀ id ∈ s.upTo q.readyKey limit, id ∈ (s.scored q.readyKey).keys := by
  refine ⟨Server.nodup_upTo hs.nodup limit, fun id hid => ?_⟩
  obtain ⟨t, hget, -⟩ := (Server.mem_upTo_iff hs.nodup).mp hid
  exact Table.mem_keys_of_get? hget

/-- Messages that are ready are handed out one after the other. -/
theorem outcome_sendAllOnServer (q : Queue) (visibleAt : Float) {ids : List String} {h : Host}
    (hids : ids.Nodup) (hready : ∀ id ∈ ids, id ∈ (h.server.scored q.readyKey).keys)
    (hrecord : ∀ id ∈ ids, ∀ text, h.server.field q.dataKey id = some text → IsRecordOf id text) :
    ∃ messages after, (ids.filterMapM (q.sendOnServer visibleAt)).outcome h = (.ok messages, after) ∧
      (messages.map (·.id)).Sublist ids ∧
      (∀ m ∈ messages, m.id ∈ (after.server.scored q.inFlightKey).keys) ∧
      ∀ other, other ∉ ids → (other ∈ (after.server.scored q.inFlightKey).keys ↔
        other ∈ (h.server.scored q.inFlightKey).keys) := by
  induction ids generalizing h with
  | nil => exact ⟨[], h, rfl, List.Sublist.slnil, nofun, fun _ _ => Iff.rfl⟩
  | cons id rest ih =>
      obtain ⟨hnew, hrest⟩ := List.nodup_cons.mp hids
      obtain ⟨sent, next, hsend, hsent, hothers⟩ := q.outcome_sendOnServer visibleAt
        (hready id List.mem_cons_self) (hrecord id List.mem_cons_self)
      have hne : ∀ other ∈ rest, other ≠ id := fun other hother heq => hnew (heq ▸ hother)
      obtain ⟨messages, after, hall, hsub, hflight, hkept⟩ := ih (h := next) hrest
        (fun other hother => ((hothers other (hne other hother)).2.1).mpr
          (hready other (List.mem_cons_of_mem _ hother)))
        (fun other hother text htext => hrecord other (List.mem_cons_of_mem _ hother) text
          ((hothers other (hne other hother)).2.2 ▸ htext))
      rw [List.filterMapM_cons, outcome_bind_of_ok hsend]
      have hstays : ∀ other, other ∉ id :: rest → (other ∈ (after.server.scored q.inFlightKey).keys ↔
          other ∈ (h.server.scored q.inFlightKey).keys) := fun other hother => by
        rw [List.mem_cons, not_or] at hother
        rw [hkept other hother.2, (hothers other hother.1).1]
      cases sent with
      | none => exact ⟨messages, after, hall, hsub.cons id, hflight, hstays⟩
      | some m =>
          obtain ⟨hid, hfirst⟩ := hsent m rfl
          dsimp only
          rw [outcome_bind_of_ok hall]
          refine ⟨m :: messages, after, rfl, ?_, fun other hother => ?_, hstays⟩
          · rw [List.map_cons, hid]
            exact hsub.cons_cons id
          · rcases List.mem_cons.mp hother with rfl | hother
            · rw [hid]
              exact (hkept id hnew).mpr hfirst
            · exact hflight other hother

/-- Taking a message out of flight leaves a queue of messages, and so does making it ready then. -/
theorem KeepsMessages.land {q : Queue} {s : Server} (hs : q.KeepsMessages s) (id : String) :
    q.KeepsMessages (s.take q.inFlightKey id).2 ∧ ((s.take q.inFlightKey id).1 = true → ∀ now,
      q.KeepsMessages ((s.take q.inFlightKey id).2.add q.readyKey id now)) := by
  have hkeys := q.readyKey_ne_inFlightKey
  unfold Server.take Server.add
  refine ⟨⟨?_, fun other hother => hs.record other ?_⟩, fun hfound now =>
    ⟨?_, fun other hother => hs.record other ?_⟩⟩
  · rw [Server.scored_setScored, if_neg (Ne.symm hkeys)]
    exact hs.nodup
  · simp only [Server.scored_setScored, if_true, if_neg (Ne.symm hkeys), Table.keys_erase,
      List.mem_filter] at hother
    exact hother.imp_right And.left
  · simp only [Server.scored_setScored, if_true, if_neg (Ne.symm hkeys)]
    exact Table.nodup_keys_put hs.nodup _ _
  · simp only [Server.scored_setScored, if_true, if_neg (Ne.symm hkeys), if_neg hkeys,
      Table.mem_keys_put, Table.keys_erase, List.mem_filter] at hother
    rcases hother with (rfl | hother) | hother
    · exact .inr (Table.has_iff.mp hfound)
    · exact .inl hother
    · exact .inr hother.1

/-- Messages whose time in flight is over become ready. -/
theorem meets_releaseOnServer (q : Queue) (now : Float) {h : Host} (hs : q.KeepsMessages h.server) :
    (q.releaseOnServer now).Meets h fun r after => r = .ok () ∧ q.KeepsMessages after.server := by
  have hloop := Meets.forIn (P := fun h : Host => q.KeepsMessages h.server)
    (f := fun id _ => do
      if ← Host.take q.inFlightKey (.str id) then
        Host.add q.readyKey id now
        return ForInStep.yield PUnit.unit
      else return ForInStep.yield PUnit.unit)
    (fun id h hs => by
      obtain ⟨htaken, hadded⟩ := hs.land id
      refine Meets.bind_of_ok (outcome_take _ _ h) ?_
      split
      · rename_i hfound
        exact ⟨rfl, hadded hfound now⟩
      · exact ⟨rfl, htaken⟩)
  unfold releaseOnServer
  refine Meets.bind_of_ok rfl (Meets.bind (hloop _ ?_) ?_ ?_)
  · exact hs
  · rintro _ after ⟨_, hafter⟩
    exact ⟨rfl, hafter⟩
  · rintro e after ⟨⟨⟩, _⟩

/-! ## What a queue leaves alone -/

/-- The keys under which a queue keeps what it has on the server. -/
def keys (q : Queue) : List String := [q.readyKey, q.inFlightKey, q.dataKey]

/-- What a queue has no part in: the texts on the server, the time, and what is under other keys than its
own. -/
def outside (q : Queue) (h : Host) : Table String Entry × Float ×
    (String → Option (Table String String) × Option (Table String Float)) :=
  (h.server.texts, h.network.now, fun key =>
    if key ∈ q.keys then (none, none) else (h.server.tables.get? key, h.server.sets.get? key))

theorem get?_setScored_of_ne {s : Server} {key other : String} (t : Table String Float)
    (h : key ≠ other) : (s.setScored key t).sets.get? other = s.sets.get? other := by
  unfold Server.setScored
  split
  · exact Table.get?_erase_of_ne _ h
  · exact Table.get?_put_of_ne _ _ h

theorem get?_setTable_of_ne {s : Server} {key other : String} (t : Table String String)
    (h : key ≠ other) : (s.setTable key t).tables.get? other = s.tables.get? other := by
  unfold Server.setTable
  split
  · exact Table.get?_erase_of_ne _ h
  · exact Table.get?_put_of_ne _ _ h

variable {q : Queue}

/-- A command on a key of the queue. -/
theorem leaves_outside {α : Type} {key : String} (hkey : key ∈ q.keys) (call : Call)
    {act : Float → Server → α × Server}
    (hact : ∀ now s, (act now s).2 = s ∨ (∃ t, (act now s).2 = s.setScored key t) ∨
      ∃ t, (act now s).2 = s.setTable key t) : Leaves q.outside (Host.send call act) := by
  intro h
  show q.outside { network := h.network.record call, server := (act h.network.now h.server).2 } = _
  unfold outside
  rcases hact h.network.now h.server with hsame | ⟨t, hsame⟩ | ⟨t, hsame⟩
  · rw [hsame]
    rfl
  · rw [hsame]
    refine congrArg (Prod.mk _ <| Prod.mk _ ·) (funext fun other => ?_)
    split
    · rfl
    · rename_i hother
      rw [get?_setScored_of_ne t (ne_of_mem_of_not_mem hkey hother)]
      rfl
  · rw [hsame]
    refine congrArg (Prod.mk _ <| Prod.mk _ ·) (funext fun other => ?_)
    split
    · rfl
    · rename_i hother
      rw [get?_setTable_of_ne t (ne_of_mem_of_not_mem hkey hother)]
      rfl

theorem mem_keys_ready : q.readyKey ∈ q.keys := List.mem_cons_self

theorem mem_keys_inFlight : q.inFlightKey ∈ q.keys := List.mem_cons_of_mem _ List.mem_cons_self

theorem mem_keys_data : q.dataKey ∈ q.keys := by simp [keys]

theorem leaves_take {key : String} (hkey : key ∈ q.keys) (member : Json) :
    Leaves q.outside (Host.take key member) :=
  leaves_outside hkey _ fun now s => by
    cases member with
    | str m => exact .inr (.inl ⟨_, rfl⟩)
    | _ => exact .inl rfl

theorem leaves_add {key : String} (hkey : key ∈ q.keys) (member : String) (score : Float) :
    Leaves q.outside (Host.add key member score) :=
  leaves_outside hkey _ fun _ _ => .inr (.inl ⟨_, rfl⟩)

theorem leaves_putField {key : String} (hkey : key ∈ q.keys) (name value : String) :
    Leaves q.outside (Host.putField key name value) :=
  leaves_outside hkey _ fun _ _ => .inr (.inr ⟨_, rfl⟩)

theorem leaves_removeField {key : String} (hkey : key ∈ q.keys) (name : String) :
    Leaves q.outside (Host.removeField key name) :=
  leaves_outside hkey _ fun _ _ => .inr (.inr ⟨_, rfl⟩)

theorem leaves_releaseOnServer (now : Float) : Leaves q.outside (q.releaseOnServer now) := by
  unfold releaseOnServer
  refine Leaves.bind (fun _ => rfl) fun ids => (Leaves.forIn (fun id => ?_) ids).bind fun _ =>
    Leaves.pure _
  refine (leaves_take mem_keys_inFlight _).bind fun found => ?_
  split
  · exact (leaves_add mem_keys_ready _ _).bind fun _ => Leaves.pure _
  · exact Leaves.pure _

theorem leaves_sendOnServer (visibleAt : Float) (id : String) :
    Leaves q.outside (q.sendOnServer visibleAt id) := by
  unfold sendOnServer
  refine (leaves_take mem_keys_ready _).bind fun found => ?_
  split
  · exact Leaves.pure _
  · refine (leaves_add mem_keys_inFlight _ _).bind fun _ => Leaves.bind (fun _ => rfl) fun text => ?_
    cases text with
    | none => exact (leaves_take mem_keys_inFlight _).bind fun _ => Leaves.pure _
    | some text =>
        dsimp only
        split
        · exact Leaves.throw _
        · exact (leaves_putField mem_keys_data _ _).bind fun _ => (Leaves.ofExcept _).map _

end Queue

end FactIndex
