import FactIndex.Proofs.Queue.Contents

/-!
# What messages carry

Whatever is done with a queue, a message carries what it was put with until it is acknowledged, however
often it is handed out and comes back. A message that cannot be seen yet is left where it is.

## Main definitions

* `Load`: what stays the same about a message.
* `Queue.Contents.load?`, `Queue.Contents.waits?`: what is held under a name, and when it can be seen.
* `Queue.Contents.IsTidy`: every message is held once, under its own name.
* `Queue.Contents.IsTidy.add`, `Queue.outcome_pull_tidy`, `Queue.outcome_ack_tidy`: what the operations do
  to it.
-/

namespace FactIndex

open FactIndex.Effect FactIndex.KeyValue

/-- What stays the same about a message however often it is handed out. -/
structure Load where
  value : Json
  enqueued : Float
  available : Float
deriving DecidableEq

namespace Message

/-- What a message carries. -/
def load (m : Message) : Load := ⟨m.value, m.enqueued, m.available⟩

@[simp] theorem load_delivered (m : Message) : m.delivered.load = m.load := rfl

@[simp] theorem id_delivered (m : Message) : m.delivered.id = m.id := rfl

end Message

theorem front_of_length_le {α : Type} {xs : List α} {n : Int} (h : (xs.length : Int) ≤ n) :
    front xs n = xs := by
  refine List.take_of_length_le ?_
  rw [position, if_pos (by omega)]
  omega

/-- What is in a list is in its front, or the front is full. -/
theorem mem_front_or_le {α : Type} {xs : List α} {x : α} (h : x ∈ xs) (n : Int) :
    x ∈ front xs n ∨ n ≤ (front xs n).length := by
  by_cases hn : (xs.length : Int) ≤ n
  · exact .inl (by rwa [front_of_length_le hn])
  · refine .inr ?_
    rw [front, List.length_take, position]
    split <;> omega

theorem Table.erase_of_not_mem {κ β : Type} [DecidableEq κ] {t : Table κ β} {key : κ}
    (h : key ∉ t.keys) : t.erase key = t := by
  refine List.filter_eq_self.mpr fun entry hentry => ?_
  simpa using fun heq : entry.1 = key => h (List.mem_map.mpr ⟨entry, hentry, heq⟩)

namespace Queue

/-! ## In memory -/

namespace Memory

/-- Every message is held once, under its own name, and may be handed out. -/
structure IsTidy (m : Memory) : Prop extends m.IsSound where
  once : m.inFlight.keys.Nodup
  apart : ∀ id ∈ m.ready.keys, id ∉ m.inFlight.keys
  named : ∀ entry ∈ m.inFlight, entry.2.message.id = entry.1

/-- What is held under a name. -/
def load? (m : Memory) (id : String) : Option Load :=
  ((m.ready.get? id).or ((m.inFlight.get? id).map (·.message))).map Message.load

/-- When a message that is ready can be seen. -/
def waits? (m : Memory) (id : String) : Option Float := (m.ready.get? id).map (·.available)

variable {m : Memory}

theorem isTidy_empty : IsTidy {} := ⟨isSound_empty, List.nodup_nil, nofun, nofun⟩

theorem IsTidy.put (h : m.IsTidy) {message : Message} (haccept : message.accept = .ok message)
    (hnew : message.id ∉ m.inFlight.keys) : (m.put message).IsTidy where
  toIsSound := h.toIsSound.makeReady haccept
  once := h.once
  apart id hid := by
    rcases Table.mem_keys_put.mp hid with rfl | hid
    · exact hnew
    · exact h.apart id hid
  named := h.named

theorem load?_put (m : Memory) (message : Message) (id : String) : (m.put message).load? id =
    if message.id = id then some message.load else m.load? id := by
  unfold Memory.put makeReady load?
  split
  · rename_i heq
    rw [← heq, Table.get?_put_self]
    rfl
  · rename_i hne
    rw [Table.get?_put_of_ne _ _ hne]

theorem waits?_put (m : Memory) (message : Message) (id : String) : (m.put message).waits? id =
    if message.id = id then some message.available else m.waits? id := by
  unfold Memory.put makeReady waits?
  split
  · rename_i heq
    rw [← heq, Table.get?_put_self]
    rfl
  · rename_i hne
    rw [Table.get?_put_of_ne _ _ hne]

theorem IsTidy.erase (h : m.IsTidy) (id : String) : IsTidy { m with inFlight := m.inFlight.erase id } where
  toIsSound := h.toIsSound.erase id
  once := Table.nodup_keys_erase h.once id
  apart other hother hmem := by
    rw [Table.keys_erase] at hmem
    exact h.apart other hother (List.mem_filter.mp hmem).1
  named entry hentry := h.named entry (List.mem_filter.mp hentry).1

/-- A message in flight whose time is over is ready again. -/
theorem IsTidy.land (h : m.IsTidy) {entry : String × Flight} (hentry : entry ∈ m.inFlight) :
    let landed := makeReady { m with inFlight := m.inFlight.erase entry.1 } entry.2.message
    landed.IsTidy ∧ landed.load? = m.load? ∧ landed.inFlight = m.inFlight.erase entry.1 ∧
      ∀ id, id ≠ entry.1 → landed.waits? id = m.waits? id := by
  have hname := h.named entry hentry
  have hget : m.inFlight.get? entry.1 = some entry.2 := Table.get?_of_mem h.once hentry
  have hready : m.ready.get? entry.1 = none := by
    rw [Table.get?_eq_none_iff]
    exact fun hid => h.apart entry.1 hid (List.mem_map_of_mem hentry)
  refine ⟨(h.erase entry.1).put (h.inFlight entry hentry) ?_, funext fun id => ?_, rfl, fun id hid => ?_⟩
  · rw [hname, Table.keys_erase]
    simp
  · refine (load?_put _ _ id).trans ?_
    rw [hname]
    unfold load?
    split
    · rename_i heq
      rw [← heq, hready, hget]
      rfl
    · rename_i hne
      dsimp only
      rw [Table.get?_erase_of_ne _ hne]
  · refine (waits?_put _ _ id).trans ?_
    rw [hname, if_neg (Ne.symm hid)]
    rfl

theorem IsTidy.release (h : m.IsTidy) (now : Float) : (m.release now).IsTidy ∧
    (m.release now).load? = m.load? ∧
      ∀ id, id ∉ m.inFlight.keys → (m.release now).waits? id = m.waits? id := by
  -- the entries that are still to land are in flight all the while
  have hall : ∀ expired : List (String × Flight), (expired.map (·.1)).Nodup → ∀ m : Memory, m.IsTidy →
      (∀ f ∈ expired, f ∈ m.inFlight) →
        let landed := expired.foldl (fun m f =>
          makeReady { m with inFlight := m.inFlight.erase f.1 } f.2.message) m
        landed.IsTidy ∧ landed.load? = m.load? ∧
          ∀ id, id ∉ expired.map (·.1) → landed.waits? id = m.waits? id := by
    intro expired
    induction expired with
    | nil => exact fun _ m h _ => ⟨h, rfl, fun _ _ => rfl⟩
    | cons f rest ih =>
        intro hnodup m h hin
        obtain ⟨hnew, hrest⟩ := List.nodup_cons.mp hnodup
        obtain ⟨htidy, hload, hflight, hwaits⟩ := h.land (hin f List.mem_cons_self)
        obtain ⟨htidy', hload', hwaits'⟩ := ih hrest _ htidy fun g hg => by
          rw [hflight]
          refine List.mem_filter.mpr ⟨hin g (List.mem_cons_of_mem _ hg), ?_⟩
          have hne : g.1 ≠ f.1 := fun heq => hnew (List.mem_map.mpr ⟨g, hg, heq⟩)
          simpa using hne
        refine ⟨htidy', hload'.trans hload, fun id hid => ?_⟩
        rw [List.map_cons, List.mem_cons, not_or] at hid
        exact (hwaits' id hid.2).trans (hwaits id hid.1)
  have hsub : (m.inFlight.filter fun f => f.2.visibleAt ≤ now).Sublist m.inFlight := List.filter_sublist
  obtain ⟨htidy, hload, hwaits⟩ := hall _ (h.once.sublist (hsub.map _)) m h fun f hf => hsub.subset hf
  exact ⟨htidy, hload, fun id hid => hwaits id fun hmem => hid ((hsub.map _).subset hmem)⟩

/-- Handing out a message that is ready leaves what is held, and touches no other. -/
theorem IsTidy.send (h : m.IsTidy) {message : Message} (hget : m.ready.get? message.id = some message)
    (haccept : message.delivered.accept = .ok message.delivered) (visibleAt : Float) :
    (m.send message visibleAt).IsTidy ∧ (m.send message visibleAt).load? = m.load? ∧
      ∀ id, id ≠ message.id → (m.send message visibleAt).ready.get? id = m.ready.get? id := by
  have hflight : m.inFlight.get? message.id = none := by
    rw [Table.get?_eq_none_iff]
    exact h.apart message.id (Table.mem_keys_of_get? hget)
  refine ⟨⟨h.toIsSound.send haccept visibleAt, Table.nodup_keys_put h.once _ _, fun id hid hmem => ?_,
    fun entry hentry => ?_⟩, funext fun id => ?_, fun id hid => Table.get?_erase_of_ne _ (Ne.symm hid)⟩
  · have hid' : id ∈ (m.ready.erase message.id).keys := hid
    rw [Table.keys_erase, List.mem_filter, decide_eq_true_iff] at hid'
    rcases Table.mem_keys_put.mp hmem with heq | hmem
    · exact hid'.2 heq
    · exact h.apart id hid'.1 hmem
  · rcases Table.mem_of_mem_put hentry with rfl | hentry
    · rfl
    · exact h.named entry hentry
  · unfold Memory.send Memory.load?
    dsimp only
    by_cases heq : message.id = id
    · rw [← heq, Table.get?_erase_self, Table.get?_put_self, hget, hflight]
      rfl
    · rw [Table.get?_erase_of_ne _ heq, Table.get?_put_of_ne _ _ heq]

/-- Messages that are ready are handed out one after the other. -/
theorem IsTidy.sendAll {messages : List Message} (hnodup : (messages.map (·.id)).Nodup)
    (visibleAt : Float) {m : Memory} (h : m.IsTidy)
    (hready : ∀ message ∈ messages, m.ready.get? message.id = some message) : ∃ after,
      m.sendAll visibleAt messages = (.ok (messages.map Message.delivered), after) ∧ after.IsTidy ∧
        after.load? = m.load? ∧
        (∀ id, id ∉ messages.map (·.id) → after.waits? id = m.waits? id) ∧
        ∀ id, id ∈ after.inFlight.keys ↔ id ∈ m.inFlight.keys ∨ id ∈ messages.map (·.id) := by
  induction messages generalizing m with
  | nil => exact ⟨m, rfl, h, rfl, fun _ _ => rfl, by simp⟩
  | cons message rest ih =>
      obtain ⟨hnew, hrest⟩ := List.nodup_cons.mp hnodup
      have hget := hready message List.mem_cons_self
      have haccept := Message.accept_delivered (h.ready _ (Table.mem_of_get? hget)).2
      obtain ⟨htidy, hload, hothers⟩ := h.send hget haccept visibleAt
      obtain ⟨after, hsent, htidy', hload', hwaits, hflight⟩ := ih hrest htidy fun other hother => by
        rw [hothers other.id (ne_of_mem_of_not_mem (List.mem_map_of_mem hother) hnew)]
        exact hready other (List.mem_cons_of_mem _ hother)
      refine ⟨after, ?_, htidy', hload'.trans hload, fun id hid => ?_, fun id => ?_⟩
      · simp only [Memory.sendAll]
        rw [haccept, hsent]
        rfl
      · rw [List.map_cons, List.mem_cons, not_or] at hid
        exact (hwaits id hid.2).trans (congrArg (Option.map _) (hothers id hid.1))
      · have hsend : id ∈ (m.send message visibleAt).inFlight.keys ↔
            id = message.id ∨ id ∈ m.inFlight.keys := Table.mem_keys_put
        rw [hflight, hsend, List.map_cons, List.mem_cons]
        grind

/-- A pull hands out messages that are held, and leaves what is held. What cannot be seen yet is not
handed out, and what is not handed out stays as it is. -/
theorem IsTidy.pull (h : m.IsTidy) (now hidden : Float) (count : Int) : ∃ messages after,
    m.pull now hidden count = (.ok messages, after) ∧ (messages.map (·.id)).Nodup ∧ after.IsTidy ∧
      after.load? = m.load? ∧
      (∀ message ∈ messages, m.load? message.id = some message.load ∧
        message.id ∈ after.inFlight.keys) ∧
      ∀ id t, m.waits? id = some t → (id ∈ messages.map (·.id) → t ≤ now) ∧
        (id ∉ messages.map (·.id) → after.waits? id = some t ∧ (t ≤ now → count ≤ messages.length)) := by
  obtain ⟨htidy, hload, hwaits⟩ := h.release now
  obtain ⟨hnodup, -⟩ := htidy.toIsSound.due now
  have hfront : (front ((m.release now).due now) count).Sublist ((m.release now).due now) :=
    List.take_sublist _ _
  have hdue : ∀ message ∈ (m.release now).due now,
      (m.release now).ready.get? message.id = some message ∧ message.available ≤ now := by
    intro message hmessage
    obtain ⟨hmem, hseen⟩ := List.mem_filter.mp (List.mem_mergeSort.mp hmessage)
    obtain ⟨entry, hentry, rfl⟩ := List.mem_map.mp hmem
    refine ⟨?_, of_decide_eq_true hseen⟩
    rw [(htidy.ready entry hentry).1]
    exact Table.get?_of_mem htidy.nodup hentry
  have hids : ((front ((m.release now).due now) count).map (·.id)).Nodup :=
    hnodup.sublist (hfront.map _)
  obtain ⟨after, hsent, htidy', hload', hwaits', hflight⟩ := htidy.sendAll hids (now + hidden)
    fun message hmessage => (hdue message (hfront.subset hmessage)).1
  have hsame : ((front ((m.release now).due now) count).map Message.delivered).map (·.id) =
      (front ((m.release now).due now) count).map (·.id) := by
    rw [List.map_map]
    rfl
  have hstill : ∀ id t, m.waits? id = some t → (m.release now).waits? id = some t := by
    intro id t hid
    obtain ⟨message, hget, -⟩ := Option.map_eq_some_iff.mp hid
    exact (hwaits id (h.apart id (Table.mem_keys_of_get? hget))).trans hid
  refine ⟨_, after, hsent, hsame ▸ hids, htidy', hload'.trans hload, fun message hmessage => ?_,
    fun id t hid => ⟨fun hin => ?_, fun hnot => ⟨?_, fun hseen => ?_⟩⟩⟩
  · obtain ⟨sent, hin, rfl⟩ := List.mem_map.mp hmessage
    refine ⟨?_, (hflight sent.id).mpr (.inr (List.mem_map_of_mem hin))⟩
    rw [← hload, Message.id_delivered, Message.load_delivered]
    unfold load?
    rw [(hdue sent (hfront.subset hin)).1]
    rfl
  · obtain ⟨message, hmessage, rfl⟩ := List.mem_map.mp (hsame ▸ hin)
    obtain ⟨hget, hseen⟩ := hdue message (hfront.subset hmessage)
    have hthere := hstill message.id t hid
    unfold waits? at hthere
    rw [hget] at hthere
    exact Option.some.inj hthere ▸ hseen
  · exact (hwaits' id (hsame ▸ hnot)).trans (hstill id t hid)
  · obtain ⟨message, hget, rfl⟩ := Option.map_eq_some_iff.mp (hstill id t hid)
    have hentry := Table.mem_of_get? hget
    have hname : message.id = id := (htidy.ready _ hentry).1
    have hmem : message ∈ (m.release now).due now := List.mem_mergeSort.mpr
      (List.mem_filter.mpr ⟨List.mem_map.mpr ⟨_, hentry, rfl⟩, decide_eq_true hseen⟩)
    rw [List.length_map]
    refine (mem_front_or_le hmem count).resolve_left fun hin => hnot ?_
    rw [hsame, ← hname]
    exact List.mem_map_of_mem hin

/-- Acknowledging a message in flight takes it away, and no other. -/
theorem IsTidy.load?_erase (h : m.IsTidy) {id : String} (hid : id ∈ m.inFlight.keys) (other : String) :
    load? { m with inFlight := m.inFlight.erase id } other = if id = other then none else m.load? other := by
  have hready : m.ready.get? id = none := by
    rw [Table.get?_eq_none_iff]
    exact fun hmem => h.apart id hmem hid
  unfold load?
  split
  · rename_i heq
    rw [← heq, hready, Table.get?_erase_self]
    rfl
  · rename_i hne
    dsimp only
    rw [Table.get?_erase_of_ne _ hne]

end Memory

/-! ## On the server -/

/-- The message of a stored text. -/
def readRecord (text : String) : Option Message :=
  (Json.parse? Json.argumentDepth text).bind Message.ofRecordJson?

/-- A message is read back from its stored text, however often it has been handed out. -/
def Keeps (m : Message) : Prop :=
  ∀ deliveries, readRecord { m with deliveries }.record = some { m with deliveries }

theorem Keeps.delivered {m : Message} (h : Keeps m) : Keeps m.delivered := h

/-- Every message is held once, under its own name, and may be handed out. -/
structure IsShelf (ready inFlight : Table String Float) (texts : Table String String) : Prop where
  nodup : ready.keys.Nodup
  apart : ∀ id ∈ ready.keys, id ∉ inFlight.keys
  held : ∀ id, id ∈ texts.keys ↔ id ∈ ready.keys ∨ id ∈ inFlight.keys
  record : ∀ id text, texts.get? id = some text →
    ∃ m : Message, text = m.record ∧ m.id = id ∧ m.accept = .ok m ∧ Keeps m

namespace IsShelf

variable {ready inFlight : Table String Float} {texts : Table String String}

theorem exists_message (h : IsShelf ready inFlight texts) {id : String}
    (hid : id ∈ ready.keys ∨ id ∈ inFlight.keys) : ∃ m : Message, texts.get? id = some m.record ∧
      m.id = id ∧ m.accept = .ok m ∧ Keeps m := by
  obtain ⟨text, htext⟩ : ∃ text, texts.get? id = some text := by
    refine Option.ne_none_iff_exists'.mp fun hnone => ?_
    exact Table.get?_eq_none_iff.mp hnone ((h.held id).mpr hid)
  obtain ⟨m, rfl, hrest⟩ := h.record id text htext
  exact ⟨m, htext, hrest⟩

theorem put (h : IsShelf ready inFlight texts) {m : Message} (haccept : m.accept = .ok m)
    (hkeeps : Keeps m) (hnew : m.id ∉ inFlight.keys) (score : Float) :
    IsShelf (ready.put m.id score) inFlight (texts.put m.id m.record) where
  nodup := Table.nodup_keys_put h.nodup _ _
  apart id hid := by
    rcases Table.mem_keys_put.mp hid with rfl | hid
    · exact hnew
    · exact h.apart id hid
  held id := by
    rw [Table.mem_keys_put, Table.mem_keys_put, h.held id, or_assoc]
  record id text htext := by
    by_cases heq : m.id = id
    · rw [← heq, Table.get?_put_self] at htext
      cases htext
      exact ⟨m, rfl, heq, haccept, hkeeps⟩
    · rw [Table.get?_put_of_ne _ _ heq] at htext
      exact h.record id text htext

/-- A message in flight is ready again. -/
theorem land (h : IsShelf ready inFlight texts) {id : String} (hid : id ∈ inFlight.keys) (score : Float) :
    IsShelf (ready.put id score) (inFlight.erase id) texts where
  nodup := Table.nodup_keys_put h.nodup _ _
  apart other hother := by
    rw [Table.keys_erase, List.mem_filter, decide_eq_true_iff]
    rcases Table.mem_keys_put.mp hother with rfl | hother
    · exact fun hmem => hmem.2 rfl
    · exact fun hmem => h.apart other hother hmem.1
  held other := by
    rw [h.held other, Table.mem_keys_put, Table.keys_erase, List.mem_filter, decide_eq_true_iff]
    by_cases heq : other = id
    · simp [heq, hid]
    · simp [heq]
  record := h.record

/-- A message that is ready is handed out. -/
theorem send (h : IsShelf ready inFlight texts) {m : Message} (haccept : m.accept = .ok m)
    (hkeeps : Keeps m) (score : Float) :
    IsShelf (ready.erase m.id) (inFlight.put m.id score) (texts.put m.id m.delivered.record) where
  nodup := Table.nodup_keys_erase h.nodup _
  apart id hid := by
    rw [Table.keys_erase, List.mem_filter, decide_eq_true_iff] at hid
    rw [Table.mem_keys_put, not_or]
    exact ⟨hid.2, h.apart id hid.1⟩
  held id := by
    rw [Table.mem_keys_put, Table.mem_keys_put, Table.keys_erase, List.mem_filter, decide_eq_true_iff,
      h.held id]
    by_cases heq : id = m.id
    · simp [heq]
    · simp [heq]
  record id text htext := by
    by_cases heq : m.id = id
    · rw [← heq, Table.get?_put_self] at htext
      cases htext
      exact ⟨m.delivered, rfl, heq, Message.accept_delivered haccept, hkeeps.delivered⟩
    · rw [Table.get?_put_of_ne _ _ heq] at htext
      exact h.record id text htext

/-- A message in flight is taken away. -/
theorem erase (h : IsShelf ready inFlight texts) {id : String} (hid : id ∈ inFlight.keys) :
    IsShelf ready (inFlight.erase id) (texts.erase id) where
  nodup := h.nodup
  apart other hother hmem := by
    rw [Table.keys_erase] at hmem
    exact h.apart other hother (List.mem_filter.mp hmem).1
  held other := by
    rw [Table.keys_erase, Table.keys_erase, List.mem_filter, List.mem_filter, decide_eq_true_iff,
      h.held other]
    constructor
    · rintro ⟨hready | hflight, hne⟩
      · exact .inl hready
      · exact .inr ⟨hflight, hne⟩
    · rintro (hready | ⟨hflight, hne⟩)
      · exact ⟨.inl hready, fun heq => h.apart other hready (heq ▸ hid)⟩
      · exact ⟨.inr hflight, hne⟩
  record other text htext := by
    by_cases heq : id = other
    · rw [← heq, Table.get?_erase_self] at htext
      cases htext
    · rw [Table.get?_erase_of_ne _ heq] at htext
      exact h.record other text htext

end IsShelf

/-! ## What is held -/

namespace Contents

/-- What is held under a name. -/
def load? : Contents → String → Option Load
  | .memory messages, id => messages.load? id
  | .server _ _ texts, id => ((texts.get? id).bind readRecord).map Message.load

/-- When a message that is ready can be seen. -/
def waits? : Contents → String → Option Float
  | .memory messages, id => messages.waits? id
  | .server ready _ _, id => ready.get? id

/-- Every message is held once, under its own name, and may be handed out. -/
def IsTidy : Contents → Prop
  | .memory messages => messages.IsTidy
  | .server ready inFlight texts => IsShelf ready inFlight texts

/-- A message is read back from where it is held. In memory nothing has to be. -/
def Keeps : Contents → Message → Prop
  | .memory _, _ => True
  | .server _ _ _, m => Queue.Keeps m

variable {c : Contents}

/-- Something is held under every name that the queue knows, and under no other. -/
theorem IsTidy.mem_names (h : c.IsTidy) (id : String) : id ∈ c.names ↔ c.load? id ≠ none := by
  cases c with
  | memory messages =>
      simp only [names, load?, Memory.load?, List.mem_append, ne_eq, Option.map_eq_none_iff,
        Option.or_eq_none_iff, Table.get?_eq_none_iff, Decidable.not_and_iff_not_or_not,
        Decidable.not_not]
  | server ready inFlight texts =>
      have hheld := IsShelf.held h id
      simp only [names, load?, List.mem_append, ne_eq, Option.map_eq_none_iff]
      rw [← hheld, or_self]
      constructor
      · intro hid hnone
        obtain ⟨m, htext, -, -, hkeeps⟩ := IsShelf.exists_message h (hheld.mp hid)
        have hread : readRecord m.record = some m := hkeeps m.deliveries
        rw [htext, Option.bind_some, hread] at hnone
        cases hnone
      · refine fun hsome => Decidable.byContradiction fun hnot => ?_
        rw [Table.get?_eq_none_iff.mpr hnot] at hsome
        exact hsome rfl

/-- One more message is held under its name, and what is held under other names stays. -/
theorem IsTidy.add (h : c.IsTidy) {m : Message} (hnew : m.id ∉ c.names) (haccept : m.accept = .ok m)
    (hkeeps : c.Keeps m) : (c.add m).IsTidy ∧
      (∀ id, (c.add m).load? id = if m.id = id then some m.load else c.load? id) ∧
      ∀ id, (c.add m).waits? id = if m.id = id then some m.available else c.waits? id := by
  cases c with
  | memory messages =>
      simp only [names, List.mem_append, not_or] at hnew
      have hsame : Contents.add m (.memory messages) = .memory (messages.put m) :=
        congrArg (fun ready => Contents.memory { messages with ready })
          (Table.put_of_not_mem hnew.1 m).symm
      rw [hsame]
      exact ⟨Memory.IsTidy.put h haccept hnew.2, Memory.load?_put _ _, Memory.waits?_put _ _⟩
  | server ready inFlight texts =>
      simp only [names, List.mem_append, not_or] at hnew
      have hsame : Contents.add m (.server ready inFlight texts) =
          .server (ready.put m.id m.available) inFlight (texts.put m.id m.record) := by
        rw [Table.put_of_not_mem hnew.1.1, Table.put_of_not_mem hnew.2]
        rfl
      rw [hsame]
      refine ⟨IsShelf.put h haccept hkeeps hnew.1.2 _, fun id => ?_, fun id => ?_⟩
      · unfold load?
        dsimp only
        split
        · rename_i heq
          rw [← heq, Table.get?_put_self]
          have hread : readRecord m.record = some m := hkeeps m.deliveries
          simp [hread]
        · rename_i hne
          rw [Table.get?_put_of_ne _ _ hne]
      · unfold waits?
        dsimp only
        split
        · rename_i heq
          rw [← heq, Table.get?_put_self]
        · rename_i hne
          rw [Table.get?_put_of_ne _ _ hne]

end Contents

variable {q : Queue} {site : Site}

/-- What a queue holds on the server. -/
def shelf (q : Queue) (s : Server) : Contents :=
  .server (s.scored q.readyKey) (s.scored q.inFlightKey) (s.table q.dataKey)

/-- What is removed under other keys than its own does not touch a queue. -/
theorem shelf_remove {full : String} (h : full ∉ q.keys) (s : Server) :
    q.shelf (s.remove full) = q.shelf s := by
  simp only [keys, List.mem_cons, List.not_mem_nil, or_false, not_or] at h
  unfold shelf Server.remove Server.scored Server.table
  dsimp only
  rw [Table.get?_erase_of_ne _ h.1, Table.get?_erase_of_ne _ h.2.1, Table.get?_erase_of_ne _ h.2.2]

/-! ### Acknowledging -/

theorem shelf_taken (q : Queue) (s : Server) (id : String) :
    q.shelf ((s.setScored q.inFlightKey ((s.scored q.inFlightKey).erase id)).removeField q.dataKey id) =
      .server (s.scored q.readyKey) ((s.scored q.inFlightKey).erase id)
        ((s.table q.dataKey).erase id) := by
  unfold shelf
  rw [Server.table_removeField]
  show Contents.server
    ((s.setScored q.inFlightKey ((s.scored q.inFlightKey).erase id)).scored q.readyKey)
    ((s.setScored q.inFlightKey ((s.scored q.inFlightKey).erase id)).scored q.inFlightKey) _ = _
  rw [Server.scored_setScored, if_neg q.readyKey_ne_inFlightKey.symm, Server.scored_setScored,
    if_pos rfl]
  rfl

/-- A message that is not in flight cannot be taken out of it. -/
theorem shelf_untaken (q : Queue) (s : Server) {id : String} (h : id ∉ (s.scored q.inFlightKey).keys) :
    q.shelf (s.take q.inFlightKey id).2 = q.shelf s := by
  unfold shelf Server.take
  simp only [Server.scored_setScored, if_true, if_neg q.readyKey_ne_inFlightKey.symm,
    Table.erase_of_not_mem h]
  rfl

theorem shelf_landed (q : Queue) (s : Server) (id : String) (now : Float) :
    q.shelf ((s.take q.inFlightKey id).2.add q.readyKey id now) =
      .server ((s.scored q.readyKey).put id now) ((s.scored q.inFlightKey).erase id)
        (s.table q.dataKey) := by
  have hkeys := q.readyKey_ne_inFlightKey
  unfold shelf Server.add Server.take
  simp only [Server.scored_setScored, if_true, if_neg hkeys, if_neg hkeys.symm]
  rfl

theorem shelf_sent (q : Queue) (s : Server) (id text : String) (visibleAt : Float) :
    q.shelf (((s.take q.readyKey id).2.add q.inFlightKey id visibleAt).putField q.dataKey id text) =
      .server ((s.scored q.readyKey).erase id) ((s.scored q.inFlightKey).put id visibleAt)
        ((s.table q.dataKey).put id text) := by
  have hkeys := q.readyKey_ne_inFlightKey
  unfold shelf Server.add Server.take
  simp only [Server.scored_putField, Server.table_putField, Server.scored_setScored, if_true, if_neg hkeys,
    if_neg hkeys.symm]
  rfl

/-- A message in flight that is acknowledged is held no more, and what is held under other names stays. -/
theorem outcome_ack_tidy (htidy : (q.contents site).IsTidy) (hlink : q.isConnected site = true)
    {id : String} (hid : id ∈ q.inFlight site) : ∃ after,
      (q.ack .waiting (.str id)).outcome site = (.ok (), after) ∧ q.isConnected after = true ∧
      (q.contents after).IsTidy ∧
      (∀ other, (q.contents after).load? other =
        if id = other then none else (q.contents site).load? other) ∧
      (q.contents after).waits? = (q.contents site).waits? ∧
      q.inFlight after = (q.inFlight site).filter (· ≠ id) := by
  obtain ⟨linked, hconnect, hmemory, hserver, hlinked⟩ := outcome_connect hlink
  unfold ack
  rw [outcome_bind_of_ok hconnect]
  unfold inFlight at hid ⊢
  unfold contents at htidy ⊢
  cases hstorage : q.storage with
  | memory =>
      simp only [hstorage] at hid htidy ⊢
      rw [← hmemory] at hid htidy ⊢
      have hfound : linked.1.memory.inFlight.has id = true := Table.has_iff.mpr hid
      have hack : (Site.onMemory fun m _ => (.ok (m.ack id).1, (m.ack id).2)).outcome linked =
          (.ok true, { linked.1 with memory := (linked.1.memory.ack id).2 }, linked.2) := by
        unfold Site.onMemory
        rw [outcome_make]
        dsimp only
        unfold Memory.ack
        rw [hfound]
      rw [outcome_bind_of_ok hack]
      exact ⟨_, rfl, hlinked _ rfl, Memory.IsTidy.erase htidy id, Memory.IsTidy.load?_erase htidy hid,
        rfl, Table.keys_erase _ _⟩
  | server address =>
      simp only [hstorage] at hid htidy ⊢
      rw [← hserver] at hid htidy ⊢
      have hfound : (linked.2.server.scored q.inFlightKey).has id = true := Table.has_iff.mpr hid
      have htake : (Site.onHost (Host.take q.inFlightKey (.str id))).outcome linked = (.ok true,
          linked.1, { network := linked.2.network.record (command "zrem" [.str q.inFlightKey, .str id])
                      server := linked.2.server.setScored q.inFlightKey
                        ((linked.2.server.scored q.inFlightKey).erase id) }) := by
        rw [outcome_onHost, outcome_take, hfound]
      rw [outcome_bind_of_ok htake]
      refine ⟨_, rfl, hlinked _ rfl, ?_⟩
      let taken := linked.2.server.setScored q.inFlightKey
        ((linked.2.server.scored q.inFlightKey).erase id)
      have hflight : (taken.removeField q.dataKey id).scored q.inFlightKey =
          (linked.2.server.scored q.inFlightKey).erase id :=
        (Server.scored_setScored _ _ _ _).trans (if_pos rfl)
      show (q.shelf (taken.removeField q.dataKey id)).IsTidy ∧
        (∀ other, (q.shelf (taken.removeField q.dataKey id)).load? other = _) ∧
        (q.shelf (taken.removeField q.dataKey id)).waits? = _ ∧
        ((taken.removeField q.dataKey id).scored q.inFlightKey).keys = _
      rw [hflight, shelf_taken]
      refine ⟨IsShelf.erase htidy hid, fun other => ?_, rfl, Table.keys_erase _ _⟩
      unfold Contents.load?
      dsimp only
      split
      · rename_i heq
        rw [← heq, Table.get?_erase_self]
        rfl
      · rename_i hne
        rw [Table.get?_erase_of_ne _ hne]

/-! ### Pulling -/

/-- What stays when a message in flight comes back holds after those have come back whose time is over. -/
theorem meets_release_of_land (now : Float)
    {P : Table String Float → Table String Float → Table String String → Prop}
    (hland : ∀ ready inFlight texts id, id ∈ Table.keys inFlight → P ready inFlight texts →
      P (Table.put ready id now) (Table.erase inFlight id) texts) {h : Host}
    (hs : P (h.server.scored q.readyKey) (h.server.scored q.inFlightKey) (h.server.table q.dataKey)) :
    (q.releaseOnServer now).Meets h fun r after => r = .ok () ∧
      P (after.server.scored q.readyKey) (after.server.scored q.inFlightKey) (after.server.table q.dataKey) := by
  have hloop := Meets.forIn (P := fun h : Host =>
      P (h.server.scored q.readyKey) (h.server.scored q.inFlightKey) (h.server.table q.dataKey))
    (f := fun id _ => do
      if ← Host.take q.inFlightKey (.str id) then
        Host.add q.readyKey id now
        return ForInStep.yield PUnit.unit
      else return ForInStep.yield PUnit.unit)
    (fun id h hs => by
      refine Meets.bind_of_ok (outcome_take _ _ h) ?_
      split
      · rename_i hfound
        have hid : id ∈ (h.server.scored q.inFlightKey).keys := Table.has_iff.mp hfound
        have hshelf := q.shelf_landed h.server id now
        simp only [shelf, Contents.server.injEq] at hshelf
        refine ⟨rfl, ?_⟩
        show P (((h.server.take q.inFlightKey id).2.add q.readyKey id now).scored q.readyKey)
          (((h.server.take q.inFlightKey id).2.add q.readyKey id now).scored q.inFlightKey)
          (((h.server.take q.inFlightKey id).2.add q.readyKey id now).table q.dataKey)
        rw [hshelf.1, hshelf.2.1, hshelf.2.2]
        exact hland _ _ _ id hid hs
      · rename_i hfound
        have hnot : id ∉ (h.server.scored q.inFlightKey).keys := fun hid =>
          hfound (Table.has_iff.mpr hid)
        have hshelf := q.shelf_untaken h.server hnot
        simp only [shelf, Contents.server.injEq] at hshelf
        refine ⟨rfl, ?_⟩
        show P ((h.server.take q.inFlightKey id).2.scored q.readyKey)
          ((h.server.take q.inFlightKey id).2.scored q.inFlightKey)
          ((h.server.take q.inFlightKey id).2.table q.dataKey)
        rw [hshelf.1, hshelf.2.1, hshelf.2.2]
        exact hs)
  unfold releaseOnServer
  refine Meets.bind_of_ok rfl (Meets.bind (hloop _ ?_) ?_ ?_)
  · exact hs
  · rintro _ after ⟨_, hafter⟩
    exact ⟨rfl, hafter⟩
  · rintro e after ⟨⟨⟩, _⟩

/-- Messages on the server whose time in flight is over become ready. -/
theorem release_tidy (now : Float) {h : Host} (htidy : (q.shelf h.server).IsTidy) :
    (q.releaseOnServer now).Meets h fun r after => r = .ok () ∧ (q.shelf after.server).IsTidy ∧
      after.server.table q.dataKey = h.server.table q.dataKey ∧
      ∀ id t, (h.server.scored q.readyKey).get? id = some t →
        (after.server.scored q.readyKey).get? id = some t :=
  meets_release_of_land now (P := fun ready inFlight texts => IsShelf ready inFlight texts ∧
      texts = h.server.table q.dataKey ∧
      ∀ id t, (h.server.scored q.readyKey).get? id = some t → ready.get? id = some t)
    (fun ready inFlight texts id hid ⟨hshelf, htable, hwaits⟩ => by
      refine ⟨hshelf.land hid now, htable, fun other t hother => ?_⟩
      have hthere := hwaits other t hother
      rw [Table.get?_put_of_ne _ _ fun heq => ?_]
      · exact hthere
      · exact hshelf.apart id (heq ▸ Table.mem_keys_of_get? hthere) hid)
    ⟨htidy, rfl, fun _ _ hget => hget⟩

/-- A message on the server that is ready is handed out: it moves into flight, and its text counts that. -/
theorem outcome_sendOnServer_eq (visibleAt : Float) {h : Host} {m : Message}
    (hready : m.id ∈ (h.server.scored q.readyKey).keys)
    (htext : (h.server.table q.dataKey).get? m.id = some m.record) (haccept : m.accept = .ok m)
    (hkeeps : Keeps m) : ∃ after : Host,
      (q.sendOnServer visibleAt m.id).outcome h = (.ok (some m.delivered), after) ∧
      q.shelf after.server = .server ((h.server.scored q.readyKey).erase m.id)
        ((h.server.scored q.inFlightKey).put m.id visibleAt)
        ((h.server.table q.dataKey).put m.id m.delivered.record) := by
  have hread : (Json.parse? Json.argumentDepth m.record).bind Message.ofRecordJson? = some m :=
    hkeeps m.deliveries
  have hhas : (h.server.scored q.readyKey).has m.id = true := Table.has_iff.mpr hready
  have hfield : ((h.server.take q.readyKey m.id).2.add q.inFlightKey m.id visibleAt).field q.dataKey m.id =
      some m.record := htext
  unfold sendOnServer
  rw [outcome_bind_of_ok (outcome_take _ _ h), hhas]
  simp only [Bool.not_true, Bool.false_eq_true, if_false]
  rw [outcome_bind_of_ok (outcome_add _ _ _ _), outcome_bind_of_ok (outcome_field _ _ _)]
  generalize hfound : Server.field _ q.dataKey m.id = found
  obtain rfl : found = some m.record := hfound.symm.trans hfield
  dsimp only
  rw [hread]
  dsimp only
  rw [outcome_bind_of_ok (outcome_putField _ _ _ _), Message.accept_delivered haccept]
  exact ⟨_, rfl, shelf_sent _ _ _ _ _⟩

/-- A message on the server that is ready is handed out. -/
theorem outcome_sendOnServer_tidy (visibleAt : Float) {h : Host} {id : String}
    (htidy : (q.shelf h.server).IsTidy) (hready : id ∈ (h.server.scored q.readyKey).keys) :
    ∃ (m : Message) (after : Host), (q.sendOnServer visibleAt id).outcome h = (.ok (some m), after) ∧
      m.id = id ∧ (q.shelf h.server).load? id = some m.load ∧
      q.shelf after.server = .server ((h.server.scored q.readyKey).erase id)
        ((h.server.scored q.inFlightKey).put id visibleAt) ((h.server.table q.dataKey).put id m.record) ∧
      (q.shelf after.server).IsTidy ∧ (q.shelf after.server).load? = (q.shelf h.server).load? := by
  obtain ⟨m, htext, rfl, haccept, hkeeps⟩ := IsShelf.exists_message htidy (.inl hready)
  have hread : readRecord m.record = some m := hkeeps m.deliveries
  have hreadAgain : readRecord m.delivered.record = some m.delivered := hkeeps.delivered m.delivered.deliveries
  have hload : (q.shelf h.server).load? m.id = some m.load := by
    unfold shelf Contents.load?
    simp [htext, hread]
  obtain ⟨after, houtcome, hshelf⟩ := outcome_sendOnServer_eq visibleAt hready htext haccept hkeeps
  refine ⟨m.delivered, after, houtcome, rfl, hload, hshelf, ?_, funext fun other => ?_⟩
  · rw [hshelf]
    exact IsShelf.send htidy haccept hkeeps visibleAt
  · rw [hshelf]
    by_cases heq : m.id = other
    · rw [← heq, hload]
      unfold Contents.load?
      dsimp only
      rw [Table.get?_put_self]
      simp [hreadAgain]
    · unfold shelf Contents.load?
      dsimp only
      rw [Table.get?_put_of_ne _ _ heq]

/-- Messages on the server that are ready are handed out one after the other. -/
theorem outcome_sendAllOnServer_tidy (visibleAt : Float) {ids : List String} {h : Host} (hids : ids.Nodup)
    (htidy : (q.shelf h.server).IsTidy)
    (hready : ∀ id ∈ ids, id ∈ (h.server.scored q.readyKey).keys) : ∃ (messages : List Message) (after : Host),
      (ids.filterMapM (q.sendOnServer visibleAt)).outcome h = (.ok messages, after) ∧
      messages.map (·.id) = ids ∧ (q.shelf after.server).IsTidy ∧
      (q.shelf after.server).load? = (q.shelf h.server).load? ∧
      (∀ m ∈ messages, (q.shelf h.server).load? m.id = some m.load) ∧
      (∀ id, id ∈ (after.server.scored q.inFlightKey).keys ↔
        id ∈ (h.server.scored q.inFlightKey).keys ∨ id ∈ ids) ∧
      ∀ id, id ∉ ids → (after.server.scored q.readyKey).get? id = (h.server.scored q.readyKey).get? id := by
  induction ids generalizing h with
  | nil => exact ⟨[], h, rfl, rfl, htidy, rfl, nofun, by simp, fun _ _ => rfl⟩
  | cons id rest ih =>
      obtain ⟨hnew, hrest⟩ := List.nodup_cons.mp hids
      obtain ⟨m, next, hsend, hid, hcarried, hshelf, htidy', hload⟩ :=
        outcome_sendOnServer_tidy visibleAt htidy (hready id List.mem_cons_self)
      simp only [shelf, Contents.server.injEq] at hshelf
      obtain ⟨hready', hflight', -⟩ := hshelf
      have hstill : ∀ other ∈ rest, other ∈ (next.server.scored q.readyKey).keys := by
        intro other hother
        rw [hready', Table.keys_erase, List.mem_filter, decide_eq_true_iff]
        exact ⟨hready other (List.mem_cons_of_mem _ hother), ne_of_mem_of_not_mem hother hnew⟩
      obtain ⟨messages, after, hall, hmap, htidy'', hload', hcarry, hflight, hothers⟩ :=
        ih hrest htidy' hstill
      rw [List.filterMapM_cons, outcome_bind_of_ok hsend]
      dsimp only
      rw [outcome_bind_of_ok hall]
      refine ⟨m :: messages, after, rfl, by rw [List.map_cons, hid, hmap], htidy'', hload'.trans hload,
        fun other hother => ?_, fun other => ?_, fun other hother => ?_⟩
      · rcases List.mem_cons.mp hother with rfl | hother
        · rw [hid, hcarried]
        · rw [← hload]
          exact hcarry other hother
      · rw [hflight, hflight', Table.mem_keys_put, List.mem_cons]
        grind
      · rw [List.mem_cons, not_or] at hother
        rw [hothers other hother.2, hready', Table.get?_erase_of_ne _ (Ne.symm hother.1)]

/-- The messages that are due on the server. -/
theorem upTo_tidy {s : Server} (htidy : (q.shelf s).IsTidy) (limit : Float) :
    (s.upTo q.readyKey limit).Nodup ∧
      ∀ id ∈ s.upTo q.readyKey limit, ∃ t, (s.scored q.readyKey).get? id = some t ∧ t ≤ limit :=
  ⟨Server.nodup_upTo (IsShelf.nodup htidy) limit, fun _ => (Server.mem_upTo_iff (IsShelf.nodup htidy)).mp⟩

/-- A pull hands out messages that are held, and leaves what is held. What cannot be seen yet is not
handed out, and what is not handed out stays as it is. -/
theorem outcome_pull_tidy (htidy : (q.contents site).IsTidy) (hlink : q.isConnected site = true)
    (options : PullOptions) : ∃ (messages : List Message) (after : Site),
      (q.pull options).outcome site = (.ok messages, after) ∧ q.isConnected after = true ∧
      (messages.map (·.id)).Nodup ∧ (q.contents after).IsTidy ∧
      (q.contents after).load? = (q.contents site).load? ∧
      (∀ m ∈ messages, (q.contents site).load? m.id = some m.load ∧ m.id ∈ q.inFlight after) ∧
      ∀ id t, (q.contents site).waits? id = some t →
        (id ∈ messages.map (·.id) → t ≤ site.2.network.now) ∧
        (id ∉ messages.map (·.id) → (q.contents after).waits? id = some t ∧
          (t ≤ site.2.network.now → options.limit ≤ messages.length)) := by
  obtain ⟨linked, hconnect, hmemory, hserver, hlinked⟩ := outcome_connect hlink
  have hnow : linked.2.network.now = site.2.network.now := congrArg Prod.fst (standing_of_connect hconnect)
  unfold inFlight
  unfold contents at htidy ⊢
  cases hstorage : q.storage with
  | memory =>
      simp only [hstorage] at htidy ⊢
      rw [← hmemory] at htidy ⊢
      obtain ⟨messages, after, hpull, hnodup, htidy', hload, hcarry, hwaits⟩ :=
        Memory.IsTidy.pull htidy linked.2.network.now (options.timeout q.hidden) options.limit
      exact ⟨messages, _, outcome_pull_memory hstorage hconnect hpull, hlinked _ rfl, hnodup, htidy', hload,
        hcarry, by rwa [← hnow]⟩
  | server address =>
      simp only [hstorage] at htidy ⊢
      rw [← hserver] at htidy ⊢
      rcases hrelease : (q.releaseOnServer linked.2.network.now).outcome linked.2 with ⟨r, released⟩
      obtain ⟨rfl, htidy', htable, hwaits⟩ :=
        (release_tidy (q := q) linked.2.network.now htidy).of_outcome hrelease
      obtain ⟨hids, hdue⟩ := upTo_tidy htidy' linked.2.network.now
      have hfront : (front (released.server.upTo q.readyKey linked.2.network.now) options.limit).Sublist
        (released.server.upTo q.readyKey linked.2.network.now) := List.take_sublist _ _
      obtain ⟨messages, after, hsent, hmap, htidy'', hload, hcarry, hflight, hothers⟩ :=
        outcome_sendAllOnServer_tidy (q := q) (linked.2.network.now + options.timeout q.hidden)
          (h := { released with network := released.network.record (command "zrangebyscore"
            [.str q.readyKey, .str "-inf", .float linked.2.network.now]
            [("start", .int 0), ("num", .int options.limit)]) })
          (hids.sublist hfront) htidy' fun id hid => by
            obtain ⟨t, hget, -⟩ := hdue id (hfront.subset hid)
            exact Table.mem_keys_of_get? hget
      have hsame : (q.shelf released.server).load? = (q.shelf linked.2.server).load? := by
        unfold shelf Contents.load?
        rw [htable]
      refine ⟨messages, (linked.1, after), outcome_pull_server hstorage hconnect hrelease ?_, hlinked _ rfl, hmap ▸ hids.sublist hfront, htidy'',
        hload.trans hsame, fun m hm => ⟨?_, ?_⟩,
        fun id t hid => ⟨fun hin => ?_, fun hnot => ⟨?_, fun hseen => ?_⟩⟩⟩
      · rw [outcome_bind_of_ok (outcome_upTo _ _ _ _), hsent]
      · exact (congrFun hsame.symm m.id).trans (hcarry m hm)
      · exact (hflight m.id).mpr (.inr (hmap ▸ List.mem_map_of_mem hm))
      · obtain ⟨t', hget, hseen⟩ := hdue id (hfront.subset (hmap ▸ hin))
        have hwaits' : (released.server.scored q.readyKey).get? id = some t := hwaits id t hid
        rw [Option.some.inj (hwaits'.symm.trans hget), ← hnow]
        exact hseen
      · exact (hothers id (hmap ▸ hnot)).trans (hwaits id t hid)
      · have hmem : id ∈ released.server.upTo q.readyKey linked.2.network.now :=
          (Server.mem_upTo_iff (IsShelf.nodup htidy')).mpr ⟨t, hwaits id t hid, by rwa [hnow]⟩
        have hlength : messages.length = (messages.map (·.id)).length := (List.length_map _).symm
        rw [hlength, hmap]
        exact (mem_front_or_le hmem options.limit).resolve_left (hmap ▸ hnot)

/-! ### The time and the names -/

theorem leaves_standing_send {α : Type} (call : Call) (act : Float → Server → α × Server) :
    Leaves (fun h : Host => h.network.standing) (Host.send call act) := fun _ => rfl

theorem leaves_standing_sendOnServer (visibleAt : Float) (id : String) :
    Leaves (fun h : Host => h.network.standing) (q.sendOnServer visibleAt id) := by
  unfold sendOnServer
  refine (leaves_standing_send _ _).bind fun found => ?_
  split
  · exact Leaves.pure _
  · refine (leaves_standing_send _ _).bind fun _ => (leaves_standing_send _ _).bind fun text => ?_
    cases text with
    | none => exact (leaves_standing_send _ _).bind fun _ => Leaves.pure _
    | some text =>
        dsimp only
        split
        · exact Leaves.throw _
        · exact (leaves_standing_send _ _).bind fun _ => (Leaves.ofExcept _).map _

theorem leaves_standing_releaseOnServer (now : Float) :
    Leaves (fun h : Host => h.network.standing) (q.releaseOnServer now) := by
  unfold releaseOnServer
  refine Leaves.bind (fun _ => rfl) fun ids => (Leaves.forIn (fun id => ?_) ids).bind fun _ =>
    Leaves.pure _
  refine (leaves_standing_send _ _).bind fun found => ?_
  split
  · exact (leaves_standing_send _ _).bind fun _ => Leaves.pure _
  · exact Leaves.pure _

/-- Pulling takes no time and no name. -/
theorem leaves_standing_pull (options : PullOptions) :
    Leaves (fun site : Site => site.2.network.standing) (q.pull options) := by
  refine (leaves_host_connect Host.IsQuiet.standing .waiting).bind fun _ => ?_
  dsimp only
  split
  · exact fun _ => rfl
  · have hsend : ∀ now, Leaves (fun h : Host => h.network.standing) (do
        let ids ← Host.upTo q.readyKey now (some options.limit)
        ids.filterMapM (q.sendOnServer (now + options.timeout q.hidden))) := fun now =>
      Leaves.bind (fun _ => rfl) fun ids => Leaves.filterMapM (leaves_standing_sendOnServer _) ids
    refine Leaves.bind ?_ fun _ => Leaves.bind (fun _ => rfl) fun now site => hsend now site.2
    unfold beforePull
    split
    · exact Leaves.pure _
    · exact Leaves.bind (fun _ => rfl) fun now site => leaves_standing_releaseOnServer now site.2

/-- Acknowledging takes no time and no name. -/
theorem leaves_standing_ack (id : Json) :
    Leaves (fun site : Site => site.2.network.standing) (q.ack .waiting id) := by
  refine (leaves_host_connect Host.IsQuiet.standing .waiting).bind fun _ => ?_
  dsimp only
  split
  · split
    · refine Leaves.bind (fun _ => rfl) fun found => ?_
      split
      · exact Leaves.throw _
      · exact Leaves.pure _
    · exact Leaves.throw _
    · exact Leaves.throw _
    · exact Leaves.throw _
  · refine Leaves.bind (fun _ => rfl) fun found => ?_
    split
    · exact Leaves.throw _
    · exact fun _ => rfl

end Queue

end FactIndex
