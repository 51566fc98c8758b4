import FactIndex.Proofs.Decimal.Order
import FactIndex.Proofs.Queue.Load

/-!
# The ledger of a queue

Under each name a queue holds one message at most, which is ready or in flight. The ledger says which one,
however the queue stores it, and what the operations do to a queue is what they do to its ledger.

## Main definitions

* `Queue.Holding`, `Queue.Ledger`: what is held under a name, and under all names.
* `Queue.Ledger.add`, `Queue.Ledger.take`, `Queue.Ledger.release`, `Queue.Ledger.sendAll`: the operations.
* `Queue.Contents.ledger`: the ledger of what a queue holds.
* `Queue.Contents.IsOrderly`: every message is held once, and what is in flight was due.
* `Queue.Ledger.Pulls`: what a pull takes out of a ledger.
-/

namespace FactIndex.Queue

open FactIndex.Effect FactIndex.KeyValue

/-- What is held under a name. -/
inductive Holding where
  | ready (message : Message)
  | flying (message : Message) (visibleAt : Float)

namespace Holding

/-- The message that is held. -/
def message : Holding → Message
  | .ready m | .flying m _ => m

/-- What is held when time has come to a point. -/
def settle (now : Float) : Holding → Holding
  | .ready m => .ready m
  | .flying m visibleAt => if visibleAt ≤ now then .ready m else .flying m visibleAt

theorem settle_flying_of_le {now visibleAt : Float} (h : visibleAt ≤ now) (m : Message) :
    (flying m visibleAt).settle now = .ready m := if_pos h

theorem settle_flying_of_not_le {now visibleAt : Float} (h : ¬visibleAt ≤ now) (m : Message) :
    (flying m visibleAt).settle now = .flying m visibleAt := if_neg h

/-- What is in flight still was, and its time is not over. -/
theorem settle_eq_flying_iff {now visibleAt : Float} {h : Holding} {m : Message} :
    h.settle now = .flying m visibleAt ↔ h = .flying m visibleAt ∧ ¬visibleAt ≤ now := by
  cases h with
  | ready was => simp [settle]
  | flying was back =>
      by_cases hback : back ≤ now
      · simp only [settle_flying_of_le hback, reduceCtorEq, Holding.flying.injEq, false_iff, not_and,
          Decidable.not_not]
        rintro ⟨-, rfl⟩
        exact hback
      · simp only [settle_flying_of_not_le hback, Holding.flying.injEq, iff_self_and]
        rintro ⟨-, rfl⟩
        exact hback

/-- What is ready now was, or its time in flight is over. -/
theorem settle_eq_ready_iff {now : Float} {h : Holding} {m : Message} : h.settle now = .ready m ↔
    h = .ready m ∨ ∃ visibleAt, h = .flying m visibleAt ∧ visibleAt ≤ now := by
  cases h with
  | ready was => simp [settle]
  | flying was back =>
      by_cases hback : back ≤ now
      · simp [settle_flying_of_le hback, and_assoc, hback]
      · simp only [settle_flying_of_not_le hback, reduceCtorEq, Holding.flying.injEq, false_or, false_iff]
        rintro ⟨visibleAt, ⟨-, rfl⟩, hvisible⟩
        exact hback hvisible

end Holding

/-- What is held under all names. -/
abbrev Ledger := String → Option Holding

namespace Ledger

/-- Nothing is held. -/
def empty : Ledger := fun _ => none

/-- One more message, which is ready. -/
def add (L : Ledger) (m : Message) : Ledger := fun id => if m.id = id then some (.ready m) else L id

/-- What is held under a name is taken away. -/
def take (L : Ledger) (id : String) : Ledger := fun other => if id = other then none else L other

/-- Messages whose time in flight is over are ready again. -/
def release (L : Ledger) (now : Float) : Ledger := fun id => (L id).map (Holding.settle now)

/-- Messages are made ready. -/
def landAll (L : Ledger) (ids : List String) : Ledger :=
  fun id => if id ∈ ids then (L id).map fun h => .ready h.message else L id

/-- Messages are handed out. -/
def sendAll (L : Ledger) (ids : List String) (visibleAt : Float) : Ledger :=
  fun id => if id ∈ ids then (L id).map fun h => .flying h.message.delivered visibleAt else L id

theorem release_eq_flying_iff {L : Ledger} {now visibleAt : Float} {id : String} {m : Message} :
    L.release now id = some (.flying m visibleAt) ↔
      L id = some (.flying m visibleAt) ∧ ¬visibleAt ≤ now := by
  simp only [release, Option.map_eq_some_iff, Holding.settle_eq_flying_iff]
  exact ⟨fun ⟨_, hheld, rfl, hback⟩ => ⟨hheld, hback⟩, fun ⟨hheld, hback⟩ => ⟨_, hheld, rfl, hback⟩⟩

theorem release_eq_ready_iff {L : Ledger} {now : Float} {id : String} {m : Message} :
    L.release now id = some (.ready m) ↔ L id = some (.ready m) ∨
      ∃ visibleAt, L id = some (.flying m visibleAt) ∧ visibleAt ≤ now := by
  simp only [release, Option.map_eq_some_iff, Holding.settle_eq_ready_iff]
  constructor
  · rintro ⟨_, hheld, rfl | ⟨visibleAt, rfl, hback⟩⟩
    · exact .inl hheld
    · exact .inr ⟨visibleAt, hheld, hback⟩
  · rintro (hheld | ⟨visibleAt, hheld, hback⟩)
    · exact ⟨_, hheld, .inl rfl⟩
    · exact ⟨_, hheld, .inr ⟨visibleAt, rfl, hback⟩⟩

theorem landAll_cons (L : Ledger) (id : String) (ids : List String) :
    (L.landAll [id]).landAll ids = L.landAll (id :: ids) := by
  funext other
  unfold landAll
  by_cases hid : other = id <;> by_cases hids : other ∈ ids <;>
    cases L other <;> simp [hid, hids, Holding.message]

theorem sendAll_cons (L : Ledger) {id : String} {ids : List String} (h : id ∉ ids) (visibleAt : Float) :
    (L.sendAll [id] visibleAt).sendAll ids visibleAt = L.sendAll (id :: ids) visibleAt := by
  funext other
  unfold sendAll
  by_cases hids : other ∈ ids
  · simp [ne_of_mem_of_not_mem hids h, hids]
  · simp [hids]

/-- Making ready exactly the messages whose time in flight is over. -/
theorem landAll_eq_release {L : Ledger} {now : Float} {ids : List String}
    (h : ∀ id, id ∈ ids ↔ ∃ m visibleAt, L id = some (.flying m visibleAt) ∧ visibleAt ≤ now) :
    L.landAll ids = L.release now := by
  funext id
  unfold landAll release
  have hid := h id
  cases hL : L id with
  | none => simp
  | some held =>
      rw [hL] at hid
      cases held with
      | ready m => simp [hid, Holding.settle]
      | flying m visibleAt => by_cases hv : visibleAt ≤ now <;> simp [hid, Holding.settle, hv, Holding.message]

/-- Of what is ready and due, a pull takes so many messages as are asked for, each once. -/
structure Pulls (L : Ledger) (now : Float) (limit : Int) (sent : List Message) : Prop where
  nodup : (sent.map (·.id)).Nodup
  held : ∀ m ∈ sent, L m.id = some (.ready m) ∧ m.available ≤ now
  bound : 0 ≤ limit → sent.length ≤ limit
  full : ∀ id m, L id = some (.ready m) → m.available ≤ now → m ∈ sent ∨ limit ≤ sent.length

/-- What is in flight after a pull was due, if what was in flight before was. -/
theorem Pulls.begun {L : Ledger} {now : Float} {limit : Int} {sent : List Message}
    (h : (L.release now).Pulls now limit sent)
    (hL : ∀ id m visibleAt, L id = some (.flying m visibleAt) → m.available ≤ now) (visibleAt : Float) :
    ∀ id m seen, (L.release now).sendAll (sent.map (·.id)) visibleAt id = some (.flying m seen) →
      m.available ≤ now := by
  intro id m seen hid
  unfold sendAll at hid
  split at hid
  · rename_i hmem
    obtain ⟨was, hwas, rfl⟩ := List.mem_map.mp hmem
    obtain ⟨hheld, hdue⟩ := h.held was hwas
    rw [hheld] at hid
    cases hid
    exact hdue
  · exact hL id m seen (release_eq_flying_iff.mp hid).1

end Ledger

/-- A front is no longer than was asked for. -/
theorem length_front_le {α : Type} (xs : List α) {n : Int} (h : 0 ≤ n) : (front xs n).length ≤ n := by
  rw [front, List.length_take, position, if_pos h]
  omega

/-! ## In memory -/

namespace Memory

/-- What is held under a name. -/
def ledger (m : Memory) : Ledger := fun id =>
  ((m.ready.get? id).map .ready).or ((m.inFlight.get? id).map fun f => .flying f.message f.visibleAt)

variable {m : Memory}

theorem ledger_eq_ready_iff {id : String} {message : Message} :
    m.ledger id = some (.ready message) ↔ m.ready.get? id = some message := by
  unfold ledger
  cases hready : m.ready.get? id <;> cases hflight : m.inFlight.get? id <;> simp

theorem ledger_of_ready {id : String} {message : Message} (h : m.ready.get? id = some message) :
    m.ledger id = some (.ready message) := ledger_eq_ready_iff.mpr h

/-- What is in flight is not ready as well. -/
theorem IsTidy.ledger_eq_flying_iff (h : m.IsTidy) {id : String} {message : Message} {visibleAt : Float} :
    m.ledger id = some (.flying message visibleAt) ↔ m.inFlight.get? id = some ⟨message, visibleAt⟩ := by
  unfold ledger
  cases hready : m.ready.get? id with
  | some other =>
      have hnone : m.inFlight.get? id = none :=
        Table.get?_eq_none_iff.mpr (h.apart id (Table.mem_keys_of_get? hready))
      simp [hnone]
  | none =>
      cases hflight : m.inFlight.get? id with
      | none => simp
      | some f =>
          rcases f with ⟨other, seen⟩
          simp

theorem ledger_put (m : Memory) (message : Message) : (m.put message).ledger = m.ledger.add message := by
  funext id
  unfold Memory.put makeReady Ledger.add ledger
  by_cases hid : message.id = id
  · rw [if_pos hid, ← hid, Table.get?_put_self]
    rfl
  · rw [if_neg hid, Table.get?_put_of_ne _ _ hid]

theorem IsTidy.ledger_land (h : m.IsTidy) {entry : String × Flight} (hentry : entry ∈ m.inFlight) :
    (makeReady { m with inFlight := m.inFlight.erase entry.1 } entry.2.message).ledger =
      m.ledger.landAll [entry.1] := by
  have hname : entry.2.message.id = entry.1 := h.named entry hentry
  have hget : m.inFlight.get? entry.1 = some entry.2 := Table.get?_of_mem h.once hentry
  have hready : m.ready.get? entry.1 = none :=
    Table.get?_eq_none_iff.mpr fun hid => h.apart entry.1 hid (List.mem_map_of_mem hentry)
  refine (ledger_put _ _).trans (funext fun id => ?_)
  unfold Ledger.add Ledger.landAll ledger
  rw [hname]
  by_cases hid : entry.1 = id
  · subst hid
    simp [hready, hget, Holding.message]
  · simp [hid, Ne.symm hid, Table.get?_erase_of_ne _ hid]

theorem IsTidy.ledger_release (h : m.IsTidy) (now : Float) :
    (m.release now).ledger = m.ledger.release now := by
  -- the entries that are still to land are in flight all the while
  have hall : ∀ expired : List (String × Flight), (expired.map (·.1)).Nodup → ∀ m : Memory, m.IsTidy →
      (∀ f ∈ expired, f ∈ m.inFlight) →
        (expired.foldl (fun m f =>
          makeReady { m with inFlight := m.inFlight.erase f.1 } f.2.message) m).ledger =
          m.ledger.landAll (expired.map (·.1)) := by
    intro expired
    induction expired with
    | nil => exact fun _ m _ _ => funext fun id => by simp [Ledger.landAll]
    | cons f rest ih =>
        intro hnodup m h hin
        obtain ⟨hnew, hrest⟩ := List.nodup_cons.mp hnodup
        have hland := h.ledger_land (hin f List.mem_cons_self)
        obtain ⟨htidy, -, hflight, -⟩ := h.land (hin f List.mem_cons_self)
        refine (ih hrest _ htidy fun g hg => ?_).trans ?_
        · rw [hflight]
          refine List.mem_filter.mpr ⟨hin g (List.mem_cons_of_mem _ hg), ?_⟩
          have hne : g.1 ≠ f.1 := fun heq => hnew (List.mem_map.mpr ⟨g, hg, heq⟩)
          simpa using hne
        · rw [hland, Ledger.landAll_cons]
          rfl
  have hsub : (m.inFlight.filter fun f => f.2.visibleAt ≤ now).Sublist m.inFlight := List.filter_sublist
  refine (hall _ (h.once.sublist (hsub.map _)) m h fun f hf => hsub.subset hf).trans
    (Ledger.landAll_eq_release fun id => ?_)
  simp only [h.ledger_eq_flying_iff, List.mem_map, List.mem_filter, decide_eq_true_iff]
  constructor
  · rintro ⟨entry, ⟨hmem, hseen⟩, rfl⟩
    exact ⟨_, _, Table.get?_of_mem h.once hmem, hseen⟩
  · rintro ⟨message, visibleAt, hget, hseen⟩
    exact ⟨_, ⟨Table.mem_of_get? hget, hseen⟩, rfl⟩

theorem ledger_send {message : Message}
    (hget : m.ready.get? message.id = some message) (visibleAt : Float) :
    (m.send message visibleAt).ledger = m.ledger.sendAll [message.id] visibleAt := by
  funext id
  unfold Memory.send Ledger.sendAll ledger
  by_cases hid : message.id = id
  · subst hid
    simp [hget, Table.get?_erase_self, Table.get?_put_self, Holding.message]
  · simp [Ne.symm hid, Table.get?_erase_of_ne _ hid, Table.get?_put_of_ne _ _ hid]

theorem IsTidy.ledger_sendAll {messages : List Message} (hnodup : (messages.map (·.id)).Nodup)
    (visibleAt : Float) {m : Memory} (h : m.IsTidy)
    (hready : ∀ message ∈ messages, m.ready.get? message.id = some message) :
    (m.sendAll visibleAt messages).2.ledger = m.ledger.sendAll (messages.map (·.id)) visibleAt := by
  induction messages generalizing m with
  | nil => exact funext fun id => by simp [Memory.sendAll, Ledger.sendAll]
  | cons message rest ih =>
      obtain ⟨hnew, hrest⟩ := List.nodup_cons.mp hnodup
      have hget := hready message List.mem_cons_self
      have haccept := Message.accept_delivered (h.ready _ (Table.mem_of_get? hget)).2
      obtain ⟨htidy, -, hothers⟩ := h.send hget haccept visibleAt
      have hafter : (m.sendAll visibleAt (message :: rest)).2 =
          ((m.send message visibleAt).sendAll visibleAt rest).2 := by
        simp only [Memory.sendAll]
        rw [haccept]
      rw [hafter, ih hrest htidy fun other hother => ?_, ledger_send hget, List.map_cons,
        Ledger.sendAll_cons _ hnew]
      rw [hothers other.id (ne_of_mem_of_not_mem (List.mem_map_of_mem hother) hnew)]
      exact hready other (List.mem_cons_of_mem _ hother)

/-- What is due is ready, and can be seen. -/
theorem IsTidy.mem_due_iff (h : m.IsTidy) {now : Float} {message : Message} :
    message ∈ m.due now ↔ m.ledger message.id = some (.ready message) ∧ message.available ≤ now := by
  rw [ledger_eq_ready_iff]
  unfold due
  rw [List.mem_mergeSort, List.mem_filter, decide_eq_true_iff]
  refine and_congr_left fun _ => ⟨fun hmem => ?_, fun hget => ?_⟩
  · obtain ⟨entry, hentry, rfl⟩ := List.mem_map.mp hmem
    rw [(h.ready entry hentry).1]
    exact Table.get?_of_mem h.nodup hentry
  · exact List.mem_map.mpr ⟨_, Table.mem_of_get? hget, rfl⟩

/-- A pull hands out what is due once the messages whose time in flight is over are ready. -/
theorem IsTidy.pulls (h : m.IsTidy) (now hidden : Float) (count : Int) : ∃ sent after,
    m.pull now hidden count = (.ok (sent.map Message.delivered), after) ∧ after.IsTidy ∧
      (m.ledger.release now).Pulls now count sent ∧
      after.ledger = (m.ledger.release now).sendAll (sent.map (·.id)) (now + hidden) := by
  obtain ⟨htidy, -⟩ := h.release now
  obtain ⟨hnodup, -⟩ := htidy.toIsSound.due now
  have hfront : (front ((m.release now).due now) count).Sublist ((m.release now).due now) :=
    List.take_sublist _ _
  have hids := hnodup.sublist (hfront.map _)
  have hready : ∀ message ∈ front ((m.release now).due now) count,
      (m.release now).ready.get? message.id = some message := fun message hmessage =>
    ledger_eq_ready_iff.mp (htidy.mem_due_iff.mp (hfront.subset hmessage)).1
  obtain ⟨after, hsent, htidy', -⟩ := htidy.sendAll hids (now + hidden) hready
  refine ⟨_, after, hsent, htidy', ⟨hids, fun message hmessage => ?_, length_front_le _,
    fun id message hid hseen => ?_⟩, ?_⟩
  · rw [← h.ledger_release]
    exact htidy.mem_due_iff.mp (hfront.subset hmessage)
  · rw [← h.ledger_release] at hid
    have hname : message.id = id := (htidy.ready _ (Table.mem_of_get? (ledger_eq_ready_iff.mp hid))).1
    exact mem_front_or_le (htidy.mem_due_iff.mpr ⟨hname ▸ hid, hseen⟩) count
  · have hafter := htidy.ledger_sendAll hids (now + hidden) hready
    rwa [hsent, h.ledger_release] at hafter

theorem IsTidy.ledger_erase (h : m.IsTidy) {id : String} (hid : id ∈ m.inFlight.keys) :
    ledger { m with inFlight := m.inFlight.erase id } = m.ledger.take id := by
  have hready : m.ready.get? id = none :=
    Table.get?_eq_none_iff.mpr fun hmem => h.apart id hmem hid
  funext other
  unfold Ledger.take ledger
  by_cases heq : id = other
  · subst heq
    simp [hready, Table.get?_erase_self]
  · simp [heq, Table.get?_erase_of_ne _ heq]

end Memory

/-! ## On the server -/

/-- What is held under a name, given the names that are ready and in flight and the texts. -/
def shelfLedger (ready inFlight : Table String Float) (texts : Table String String) : Ledger := fun id =>
  ((texts.get? id).bind readRecord).bind fun m =>
    match inFlight.get? id with
    | some visibleAt => some (.flying m visibleAt)
    | none => (ready.get? id).map fun _ => .ready m

theorem Keeps.readRecord_record {m : Message} (h : Keeps m) : readRecord m.record = some m := h m.deliveries

namespace IsShelf

variable {ready inFlight : Table String Float} {texts : Table String String}

theorem ledger_eq_ready_iff (h : IsShelf ready inFlight texts) {id : String} {m : Message} :
    shelfLedger ready inFlight texts id = some (.ready m) ↔
      id ∈ ready.keys ∧ (texts.get? id).bind readRecord = some m := by
  unfold shelfLedger
  cases hread : (texts.get? id).bind readRecord with
  | none => simp
  | some other =>
      cases hflight : inFlight.get? id with
      | some visibleAt =>
          have hnot : id ∉ ready.keys := fun hid =>
            h.apart id hid (Table.mem_keys_of_get? hflight)
          simp [hnot]
      | none =>
          cases hready : ready.get? id with
          | none => simp [Table.get?_eq_none_iff.mp hready]
          | some score => simp [Table.mem_keys_of_get? hready]

theorem ledger_eq_flying_iff {id : String} {m : Message} {visibleAt : Float} :
    shelfLedger ready inFlight texts id = some (.flying m visibleAt) ↔
      inFlight.get? id = some visibleAt ∧ (texts.get? id).bind readRecord = some m := by
  unfold shelfLedger
  cases (texts.get? id).bind readRecord with
  | none => simp
  | some other =>
      cases hflight : inFlight.get? id with
      | some seen => simp [and_comm]
      | none => cases ready.get? id <;> simp

theorem ledger_put {m : Message} (hkeeps : Keeps m)
    (hnew : m.id ∉ inFlight.keys) (score : Float) :
    shelfLedger (ready.put m.id score) inFlight (texts.put m.id m.record) =
      (shelfLedger ready inFlight texts).add m := by
  funext id
  unfold shelfLedger Ledger.add
  by_cases hid : m.id = id
  · subst hid
    simp [Table.get?_put_self, hkeeps.readRecord_record, Table.get?_eq_none_iff.mpr hnew]
  · simp [hid, Table.get?_put_of_ne _ _ hid]

theorem ledger_land {id : String} (hid : id ∈ inFlight.keys) (score : Float) :
    shelfLedger (ready.put id score) (inFlight.erase id) texts =
      (shelfLedger ready inFlight texts).landAll [id] := by
  obtain ⟨visibleAt, hflight⟩ : ∃ visibleAt, inFlight.get? id = some visibleAt :=
    Option.ne_none_iff_exists'.mp fun hnone => Table.get?_eq_none_iff.mp hnone hid
  funext other
  unfold shelfLedger Ledger.landAll
  by_cases heq : id = other
  · subst heq
    rw [if_pos (List.mem_singleton_self _)]
    dsimp only
    rw [hflight, Table.get?_erase_self, Table.get?_put_self]
    cases (texts.get? id).bind readRecord <;> rfl
  · simp [Ne.symm heq, Table.get?_erase_of_ne _ heq, Table.get?_put_of_ne _ _ heq]

theorem ledger_send (h : IsShelf ready inFlight texts) {m : Message} (hready : m.id ∈ ready.keys)
    (htext : texts.get? m.id = some m.record) (hkeeps : Keeps m) (visibleAt : Float) :
    shelfLedger (ready.erase m.id) (inFlight.put m.id visibleAt) (texts.put m.id m.delivered.record) =
      (shelfLedger ready inFlight texts).sendAll [m.id] visibleAt := by
  have hheld : shelfLedger ready inFlight texts m.id = some (.ready m) :=
    h.ledger_eq_ready_iff.mpr ⟨hready, by rw [htext, Option.bind_some, hkeeps.readRecord_record]⟩
  funext id
  by_cases hid : m.id = id
  · subst hid
    unfold Ledger.sendAll
    rw [if_pos (List.mem_singleton_self _), hheld]
    unfold shelfLedger
    simp [Table.get?_put_self, hkeeps.delivered.readRecord_record, Holding.message]
  · unfold shelfLedger Ledger.sendAll
    simp [Ne.symm hid, Table.get?_erase_of_ne _ hid, Table.get?_put_of_ne _ _ hid]

theorem ledger_erase (id : String) : shelfLedger ready (inFlight.erase id) (texts.erase id) =
    (shelfLedger ready inFlight texts).take id := by
  funext other
  unfold shelfLedger Ledger.take
  by_cases heq : id = other
  · subst heq
    simp [Table.get?_erase_self]
  · simp [heq, Table.get?_erase_of_ne _ heq]

end IsShelf

end FactIndex.Queue
