import FactIndex.Proofs.Queue.Ledger

/-!
# Operations on the ledger

What each operation of a queue does to its ledger, wherever the queue keeps its messages.

On the server a message that is ready has a score, by which a pull finds it: the time at which it can be
seen or, once it has been in flight, the time at which it came back. Both say the same about whether it is
due, because only what was due is ever in flight.

## Main definitions

* `Queue.Contents.ledger`, `Queue.ledger`: the ledger of a queue.
* `Queue.Contents.IsOrderly`: every message is held once, and what is in flight was due.
* `Queue.outcome_put_ledger`, `Queue.outcome_pull_ledger`, `Queue.outcome_ack_ledger` and so on: the
  operations.
-/

namespace FactIndex

/-- A time that something is not above can be compared. -/
theorem Decimal.le_self_of_le {a b : Float} (h : a ≤ b) : b ≤ b := by
  obtain ⟨_, j, -, hj, -⟩ := (le_iff a b).mp h
  exact (le_iff b b).mpr ⟨j, j, hj, hj, le_refl j⟩

namespace KeyValue.Server

/-- What is removed is there no more. -/
theorem scored_remove (s : Server) (key other : String) :
    (s.remove key).scored other = if key = other then [] else s.scored other := by
  unfold scored remove
  split
  · rename_i heq
    rw [heq, Table.get?_erase_self]
    rfl
  · rename_i hne
    rw [Table.get?_erase_of_ne _ hne]

theorem table_remove (s : Server) (key other : String) :
    (s.remove key).table other = if key = other then [] else s.table other := by
  unfold table remove
  split
  · rename_i heq
    rw [heq, Table.get?_erase_self]
    rfl
  · rename_i hne
    rw [Table.get?_erase_of_ne _ hne]

end KeyValue.Server

namespace Queue

open FactIndex.Effect FactIndex.KeyValue

namespace Contents

/-- What is held under all names. -/
def ledger : Contents → Ledger
  | .memory messages => messages.ledger
  | .server ready inFlight texts => shelfLedger ready inFlight texts

/-- The names of what is ready. -/
def ready : Contents → List String
  | .memory messages => messages.ready.keys
  | .server ready _ _ => ready.keys

/-- On the server, the score of a message that is ready tells whether it is due. -/
def IsScored (now : Float) : Contents → Prop
  | .memory _ => True
  | .server ready inFlight texts => ∀ id m t, shelfLedger ready inFlight texts id = some (.ready m) →
      ready.get? id = some t → t = m.available ∨ (t ≤ now ∧ m.available ≤ now)

/-- Every message is held once, under its own name, and what is in flight was due. -/
structure IsOrderly (c : Contents) (now : Float) : Prop where
  tidy : c.IsTidy
  once : c.inFlight.Nodup
  scored : c.IsScored now
  begun : ∀ id m visibleAt, c.ledger id = some (.flying m visibleAt) → m.available ≤ now

/-- Nothing is held. -/
def IsEmpty : Contents → Prop
  | .memory messages => messages = {}
  | .server ready inFlight texts => ready = [] ∧ inFlight = [] ∧ texts = []

variable {c : Contents} {now : Float}

theorem IsEmpty.ledger_eq (h : c.IsEmpty) : c.ledger = Ledger.empty := by
  cases c with
  | memory messages =>
      cases h
      rfl
  | server ready inFlight texts =>
      obtain ⟨rfl, rfl, rfl⟩ := h
      rfl

theorem IsEmpty.isOrderly (h : c.IsEmpty) (now : Float) : c.IsOrderly now := by
  refine ⟨?_, ?_, ?_, fun id m visibleAt hid => by rw [h.ledger_eq] at hid; cases hid⟩
  · cases c with
    | memory messages =>
        cases h
        exact Memory.isTidy_empty
    | server ready inFlight texts =>
        obtain ⟨rfl, rfl, rfl⟩ := h
        exact ⟨List.nodup_nil, by rintro _ ⟨⟩, by simp [Table.keys], by rintro _ _ ⟨⟩⟩
  · cases c with
    | memory messages =>
        cases h
        exact List.nodup_nil
    | server ready inFlight texts =>
        obtain ⟨rfl, rfl, rfl⟩ := h
        exact List.nodup_nil
  · cases c with
    | memory messages => trivial
    | server ready inFlight texts =>
        obtain ⟨rfl, rfl, rfl⟩ := h
        rintro _ _ _ _ ⟨⟩

namespace IsTidy

theorem mem_ready_iff (h : c.IsTidy) {id : String} :
    id ∈ c.ready ↔ ∃ m, c.ledger id = some (.ready m) := by
  cases c with
  | memory messages =>
      show id ∈ messages.ready.keys ↔ ∃ m, messages.ledger id = some (.ready m)
      simp only [Memory.ledger_eq_ready_iff]
      refine ⟨fun hid => Option.ne_none_iff_exists'.mp fun hnone => Table.get?_eq_none_iff.mp hnone hid, ?_⟩
      rintro ⟨m, hm⟩
      exact Table.mem_keys_of_get? hm
  | server ready inFlight texts =>
      have h : IsShelf ready inFlight texts := h
      show id ∈ ready.keys ↔ ∃ m, shelfLedger ready inFlight texts id = some (.ready m)
      simp only [h.ledger_eq_ready_iff]
      constructor
      · intro hid
        obtain ⟨m, htext, -, -, hkeeps⟩ := h.exists_message (.inl hid)
        exact ⟨m, hid, by rw [htext, Option.bind_some, hkeeps.readRecord_record]⟩
      · rintro ⟨m, hid, -⟩
        exact hid

theorem mem_inFlight_iff (h : c.IsTidy) {id : String} :
    id ∈ c.inFlight ↔ ∃ m visibleAt, c.ledger id = some (.flying m visibleAt) := by
  cases c with
  | memory messages =>
      have h : messages.IsTidy := h
      show id ∈ messages.inFlight.keys ↔ ∃ m visibleAt, messages.ledger id = some (.flying m visibleAt)
      simp only [h.ledger_eq_flying_iff]
      constructor
      · intro hid
        obtain ⟨f, hf⟩ : ∃ f, messages.inFlight.get? id = some f :=
          Option.ne_none_iff_exists'.mp fun hnone => Table.get?_eq_none_iff.mp hnone hid
        exact ⟨f.message, f.visibleAt, hf⟩
      · rintro ⟨m, visibleAt, hm⟩
        exact Table.mem_keys_of_get? hm
  | server ready inFlight texts =>
      have h : IsShelf ready inFlight texts := h
      show id ∈ inFlight.keys ↔ ∃ m visibleAt,
        shelfLedger ready inFlight texts id = some (.flying m visibleAt)
      simp only [IsShelf.ledger_eq_flying_iff]
      constructor
      · intro hid
        obtain ⟨visibleAt, hv⟩ : ∃ visibleAt, inFlight.get? id = some visibleAt :=
          Option.ne_none_iff_exists'.mp fun hnone => Table.get?_eq_none_iff.mp hnone hid
        obtain ⟨m, htext, -, -, hkeeps⟩ := h.exists_message (.inr hid)
        exact ⟨m, visibleAt, hv, by rw [htext, Option.bind_some, hkeeps.readRecord_record]⟩
      · rintro ⟨m, visibleAt, hm⟩
        exact Table.mem_keys_of_get? hm.1

/-- What is held under a name has that name. -/
theorem named (h : c.IsTidy) {id : String} {held : Holding} (hid : c.ledger id = some held) :
    held.message.id = id := by
  cases c with
  | memory messages =>
      have h : messages.IsTidy := h
      cases held with
      | ready m =>
          exact (h.ready _ (Table.mem_of_get? (Memory.ledger_eq_ready_iff.mp hid))).1
      | flying m visibleAt => exact h.named _ (Table.mem_of_get? (h.ledger_eq_flying_iff.mp hid))
  | server ready inFlight texts =>
      have h : IsShelf ready inFlight texts := h
      have hread : (texts.get? id).bind readRecord = some held.message := by
        cases held with
        | ready m => exact (h.ledger_eq_ready_iff.mp hid).2
        | flying m visibleAt => exact (IsShelf.ledger_eq_flying_iff.mp hid).2
      obtain ⟨text, htext, hread⟩ := Option.bind_eq_some_iff.mp hread
      obtain ⟨m, rfl, hname, -, hkeeps⟩ := h.record id text htext
      rw [hkeeps.readRecord_record] at hread
      cases hread
      exact hname

/-- Something is held under every name that the queue knows, and under no other. -/
theorem mem_names_iff (h : c.IsTidy) {id : String} : id ∈ c.names ↔ c.ledger id ≠ none := by
  have hnames : id ∈ c.names ↔ id ∈ c.ready ∨ id ∈ c.inFlight := by
    cases c with
    | memory messages => exact List.mem_append
    | server ready inFlight texts =>
        simp only [names, List.mem_append, IsShelf.held h id, or_self]
        rfl
  rw [hnames, h.mem_ready_iff, h.mem_inFlight_iff]
  cases hheld : c.ledger id with
  | none => simp
  | some held => cases held <;> simp

theorem nodup_ready (h : c.IsTidy) : c.ready.Nodup := by
  cases c with
  | memory messages => exact Memory.IsTidy.toIsSound h |>.nodup
  | server ready inFlight texts => exact IsShelf.nodup h

end IsTidy

/-- What is held is held in one place, and once. -/
theorem IsOrderly.count_names (h : c.IsOrderly now) (id : String) :
    (c.ready ++ c.inFlight).count id = if (c.ledger id).isSome then 1 else 0 := by
  rw [List.count_append, h.tidy.nodup_ready.count, h.once.count]
  have hready : id ∈ c.ready ↔ ∃ m, c.ledger id = some (.ready m) := h.tidy.mem_ready_iff
  have hflight : id ∈ c.inFlight ↔ ∃ m visibleAt, c.ledger id = some (.flying m visibleAt) :=
    h.tidy.mem_inFlight_iff
  cases hheld : c.ledger id with
  | none => simp [hready, hflight, hheld]
  | some held => cases held <;> simp [hready, hflight, hheld]

/-- As time goes on, what was due stays due. -/
theorem IsOrderly.later (h : c.IsOrderly now) {later : Float} (hlater : now ≤ later) :
    c.IsOrderly later where
  tidy := h.tidy
  once := h.once
  scored := by
    cases c with
    | memory messages => trivial
    | server ready inFlight texts =>
        intro id m t hid ht
        refine (h.scored id m t hid ht).imp_right fun ⟨hscore, hseen⟩ => ?_
        exact ⟨Decimal.le_of_le_of_le hscore hlater, Decimal.le_of_le_of_le hseen hlater⟩
  begun id m visibleAt hid := Decimal.le_of_le_of_le (h.begun id m visibleAt hid) hlater

/-- One more message, under a name that is new. -/
theorem IsOrderly.add (h : c.IsOrderly now) {m : Message} (hnew : m.id ∉ c.names)
    (haccept : m.accept = .ok m) (hkeeps : c.Keeps m) :
    (c.add m).IsOrderly now ∧ (c.add m).ledger = c.ledger.add m := by
  have htidy := (h.tidy.add hnew haccept hkeeps).1
  have hledger : (c.add m).ledger = c.ledger.add m := by
    cases c with
    | memory messages =>
        simp only [names, List.mem_append, not_or] at hnew
        have hput := messages.ledger_put m
        unfold Memory.put Memory.makeReady at hput
        rw [Table.put_of_not_mem hnew.1] at hput
        exact hput
    | server ready inFlight texts =>
        simp only [names, List.mem_append, not_or] at hnew
        have hput := @IsShelf.ledger_put ready inFlight texts m hkeeps hnew.1.2 m.available
        rw [Table.put_of_not_mem hnew.1.1, Table.put_of_not_mem hnew.2] at hput
        exact hput
  refine ⟨⟨htidy, by rw [inFlight_add]; exact h.once, ?_, fun id other visibleAt hid => ?_⟩, hledger⟩
  · cases c with
    | memory messages => trivial
    | server ready inFlight texts =>
        simp only [names, List.mem_append, not_or] at hnew
        intro id other t hid ht
        have hid : (Contents.add m (.server ready inFlight texts)).ledger id = some (.ready other) := hid
        rw [hledger] at hid
        rw [← Table.put_of_not_mem hnew.1.1] at ht
        unfold Ledger.add at hid
        by_cases heq : m.id = id
        · rw [if_pos heq] at hid
          rw [← heq, Table.get?_put_self] at ht
          cases hid
          exact .inl (Option.some.inj ht).symm
        · rw [if_neg heq] at hid
          rw [Table.get?_put_of_ne _ _ heq] at ht
          exact h.scored id other t hid ht
  · rw [hledger] at hid
    unfold Ledger.add at hid
    split at hid
    · cases hid
    · exact h.begun id other visibleAt hid

/-- What is held without what is in flight under a name. -/
def drop (id : String) : Contents → Contents
  | .memory messages => .memory { messages with inFlight := messages.inFlight.erase id }
  | .server ready inFlight texts => .server ready (inFlight.erase id) (texts.erase id)

/-- A message in flight is taken away. -/
theorem IsOrderly.drop (h : c.IsOrderly now) {id : String} (hid : id ∈ c.inFlight) :
    (c.drop id).IsOrderly now ∧ (c.drop id).ledger = c.ledger.take id := by
  have hledger : (c.drop id).ledger = c.ledger.take id := by
    cases c with
    | memory messages => exact Memory.IsTidy.ledger_erase h.tidy hid
    | server ready inFlight texts => exact IsShelf.ledger_erase id
  have hothers {other : String} {held : Holding} (hother : (c.drop id).ledger other = some held) :
      c.ledger other = some held := by
    rw [hledger] at hother
    unfold Ledger.take at hother
    split at hother
    · cases hother
    · exact hother
  refine ⟨⟨?_, ?_, ?_, fun other m visibleAt hother => h.begun other m visibleAt (hothers hother)⟩, hledger⟩
  · cases c with
    | memory messages => exact Memory.IsTidy.erase h.tidy id
    | server ready inFlight texts => exact IsShelf.erase h.tidy hid
  · cases c with
    | memory messages => exact Table.nodup_keys_erase h.once id
    | server ready inFlight texts => exact Table.nodup_keys_erase h.once id
  · cases c with
    | memory messages => trivial
    | server ready inFlight texts => exact fun other m t hother ht => h.scored other m t (hothers hother) ht

/-! ## Messages on the server -/

variable {ready inFlight : Table String Float} {texts : Table String String}

/-- A message in flight comes back, which gives it a new score. -/
theorem IsOrderly.land (h : (Contents.server ready inFlight texts).IsOrderly now) {id : String}
    (hid : id ∈ inFlight.keys) :
    (Contents.server (ready.put id now) (inFlight.erase id) texts).IsOrderly now ∧
      (Contents.server (ready.put id now) (inFlight.erase id) texts).ledger =
        (Contents.server ready inFlight texts).ledger.landAll [id] := by
  have hledger : (Contents.server (ready.put id now) (inFlight.erase id) texts).ledger =
      (Contents.server ready inFlight texts).ledger.landAll [id] := IsShelf.ledger_land hid now
  refine ⟨⟨IsShelf.land h.tidy hid now, Table.nodup_keys_erase h.once id, fun other m t hother ht => ?_,
    fun other m visibleAt hother => ?_⟩, hledger⟩
  · have hother : (Contents.server (ready.put id now) (inFlight.erase id) texts).ledger other =
        some (.ready m) := hother
    rw [hledger] at hother
    unfold Ledger.landAll at hother
    by_cases heq : id = other
    · subst heq
      rw [Table.get?_put_self] at ht
      cases ht
      obtain ⟨was, visibleAt, hwas⟩ := h.tidy.mem_inFlight_iff.mp hid
      rw [if_pos (List.mem_singleton_self _), hwas] at hother
      cases hother
      have hseen := h.begun id was visibleAt hwas
      exact .inr ⟨Decimal.le_self_of_le hseen, hseen⟩
    · rw [if_neg (by simpa using Ne.symm heq)] at hother
      rw [Table.get?_put_of_ne _ _ heq] at ht
      exact h.scored other m t hother ht
  · rw [hledger] at hother
    unfold Ledger.landAll at hother
    split at hother
    · cases hheld : (Contents.server ready inFlight texts).ledger other <;> simp [hheld] at hother
    · exact h.begun other m visibleAt hother

/-- A message that is due is handed out. -/
theorem IsOrderly.send (h : (Contents.server ready inFlight texts).IsOrderly now) {m : Message}
    (hready : m.id ∈ ready.keys) (htext : texts.get? m.id = some m.record) (haccept : m.accept = .ok m)
    (hkeeps : Queue.Keeps m) (hseen : m.available ≤ now) (visibleAt : Float) :
    let sent := Contents.server (ready.erase m.id) (inFlight.put m.id visibleAt)
      (texts.put m.id m.delivered.record)
    sent.IsOrderly now ∧
      sent.ledger = (Contents.server ready inFlight texts).ledger.sendAll [m.id] visibleAt := by
  intro sent
  have hledger : sent.ledger = (Contents.server ready inFlight texts).ledger.sendAll [m.id] visibleAt :=
    IsShelf.ledger_send h.tidy hready htext hkeeps visibleAt
  have hheld : (Contents.server ready inFlight texts).ledger m.id = some (.ready m) :=
    (IsShelf.ledger_eq_ready_iff h.tidy).mpr
      ⟨hready, by rw [htext, Option.bind_some, hkeeps.readRecord_record]⟩
  refine ⟨⟨IsShelf.send h.tidy haccept hkeeps visibleAt, Table.nodup_keys_put h.once _ _,
    fun other was t hother ht => ?_, fun other was seen hother => ?_⟩, hledger⟩
  · have hother : sent.ledger other = some (.ready was) := hother
    rw [hledger] at hother
    unfold Ledger.sendAll at hother
    by_cases heq : m.id = other
    · subst heq
      rw [Table.get?_erase_self] at ht
      cases ht
    · rw [if_neg (by simpa using Ne.symm heq)] at hother
      rw [Table.get?_erase_of_ne _ heq] at ht
      exact h.scored other was t hother ht
  · rw [hledger] at hother
    unfold Ledger.sendAll at hother
    by_cases heq : m.id = other
    · subst heq
      rw [if_pos (List.mem_singleton_self _), hheld] at hother
      cases hother
      exact hseen
    · rw [if_neg (by simpa using Ne.symm heq)] at hother
      exact h.begun other was seen hother

/-- The score of a message that is ready says whether it is due. -/
theorem IsOrderly.mem_upTo_iff {q : Queue} {s : Server} (h : (q.shelf s).IsOrderly now) {id : String} :
    id ∈ s.upTo q.readyKey now ↔
      ∃ m, (q.shelf s).ledger id = some (.ready m) ∧ m.available ≤ now := by
  have hready : id ∈ (q.shelf s).ready ↔ ∃ m, (q.shelf s).ledger id = some (.ready m) := h.tidy.mem_ready_iff
  rw [Server.mem_upTo_iff (IsShelf.nodup h.tidy)]
  constructor
  · rintro ⟨t, hget, hscore⟩
    obtain ⟨m, hm⟩ := hready.mp (Table.mem_keys_of_get? hget)
    refine ⟨m, hm, ?_⟩
    rcases h.scored id m t hm hget with rfl | ⟨-, hseen⟩
    · exact hscore
    · exact hseen
  · rintro ⟨m, hm, hseen⟩
    have hkey : id ∈ (s.scored q.readyKey).keys := hready.mpr ⟨m, hm⟩
    obtain ⟨t, hget⟩ : ∃ t, (s.scored q.readyKey).get? id = some t :=
      Option.ne_none_iff_exists'.mp fun hnone => Table.get?_eq_none_iff.mp hnone hkey
    refine ⟨t, hget, ?_⟩
    rcases h.scored id m t hm hget with rfl | ⟨hscore, -⟩
    · exact hseen
    · exact hscore

/-- So does the score of a message in flight about whether its time is over. -/
theorem IsOrderly.mem_upTo_inFlight_iff {q : Queue} {s : Server} (h : (q.shelf s).IsOrderly now)
    {id : String} : id ∈ s.upTo q.inFlightKey now ↔
      ∃ m visibleAt, (q.shelf s).ledger id = some (.flying m visibleAt) ∧ visibleAt ≤ now := by
  have hflight : id ∈ (q.shelf s).inFlight ↔ ∃ m visibleAt, (q.shelf s).ledger id = some (.flying m visibleAt) :=
    h.tidy.mem_inFlight_iff
  have hget (m : Message) (visibleAt : Float) : (q.shelf s).ledger id = some (.flying m visibleAt) →
      (s.scored q.inFlightKey).get? id = some visibleAt := fun hm =>
    (IsShelf.ledger_eq_flying_iff.mp hm).1
  rw [Server.mem_upTo_iff (h.once : (s.scored q.inFlightKey).keys.Nodup)]
  constructor
  · rintro ⟨t, hthere, hscore⟩
    obtain ⟨m, visibleAt, hm⟩ := hflight.mp (Table.mem_keys_of_get? hthere)
    rw [hget m visibleAt hm] at hthere
    exact ⟨m, visibleAt, hm, Option.some.inj hthere ▸ hscore⟩
  · rintro ⟨m, visibleAt, hm, hscore⟩
    exact ⟨visibleAt, hget m visibleAt hm, hscore⟩

theorem IsOrderly.nodup_upTo_inFlight {q : Queue} {s : Server} (h : (q.shelf s).IsOrderly now)
    (limit : Float) : (s.upTo q.inFlightKey limit).Nodup := Server.nodup_upTo h.once limit

end Contents

/-! ## The operations -/

/-- Whether the server can be reached, if the queue is on one. -/
def isReachable (q : Queue) : Bool :=
  match q.storage with
  | .memory => true
  | .server address => (address.request .waiting).toOption.isSome

/-- What is held under all names. -/
def ledger (q : Queue) (site : Site) : Ledger := (q.contents site).ledger

/-- Every message is held once, under its own name, and what is in flight was due. -/
def IsOrderly (q : Queue) (site : Site) : Prop := (q.contents site).IsOrderly site.2.network.now

variable {q : Queue} {site : Site}

/-- Both ways lead to the same server. -/
theorem isSome_request (a : Address) (way : Way) :
    (a.request way).toOption.isSome = (a.request .waiting).toOption.isSome := by
  unfold Address.request
  cases a.fixedMembers with
  | error e => rfl
  | ok fixed =>
      cases a.optionMembers with
      | error e => rfl
      | ok more =>
          simp only [Bind.bind, Except.bind]
          split <;> rfl

/-- Opening the link changes nothing but the link. -/
theorem exists_connect (hreach : q.isReachable = true) (way : Way) (site : Site) : ∃ linked,
    (q.connect way).outcome site = (.ok (), linked) ∧ linked.1.memory = site.1.memory ∧
      linked.2.server = site.2.server ∧ linked.2.network.standing = site.2.network.standing := by
  unfold connect
  unfold isReachable at hreach
  cases hstorage : q.storage with
  | memory => exact ⟨site, rfl, rfl, rfl, rfl⟩
  | server address =>
      simp only [hstorage] at hreach ⊢
      unfold Site.connect Links.ensure
      rw [outcome_onPart, outcome_make]
      dsimp only
      cases site.1.links.isOpen way with
      | true => exact ⟨_, rfl, rfl, rfl, rfl⟩
      | false =>
          rw [← isSome_request address way] at hreach
          cases hrequest : address.request way with
          | error e => simp [hrequest, Except.toOption] at hreach
          | ok call => exact ⟨_, rfl, rfl, rfl, rfl⟩

/-- What may be handed out is put after what is there, if its name is new. -/
theorem outcome_put_add (hreach : q.isReachable = true) (way : Way) {value metadata : Json}
    {options : PutOptions}
    (haccept : (newMessage site.2.network value metadata options).accept =
      .ok (newMessage site.2.network value metadata options))
    (hnew : site.2.network.issue.1 ∉ (q.contents site).names) :
    ∃ after, (q.put way value metadata options).outcome site =
        (.ok (newMessage site.2.network value metadata options), after) ∧
      q.contents after = (q.contents site).add (newMessage site.2.network value metadata options) ∧
      after.2.network.standing = (site.2.network.now, site.2.network.issued + 1) := by
  obtain ⟨linked, hconnect, hmemory, hserver, hstanding⟩ := exists_connect hreach way site
  rw [← haccept]
  exact outcome_put_store hconnect hmemory hserver hstanding value metadata options hnew

/-! ### Pulling on the server -/

/-- The messages that are named are taken out of flight, one after the other. -/
theorem outcome_landAll (now : Float) {ids : List String} (hnodup : ids.Nodup) {h : Host}
    (horderly : (q.shelf h.server).IsOrderly now)
    (hids : ∀ id ∈ ids, id ∈ (h.server.scored q.inFlightKey).keys) : ∃ after : Host,
      (forIn ids PUnit.unit fun id _ => do
        if ← Host.take q.inFlightKey (.str id) then
          Host.add q.readyKey id now
          return ForInStep.yield PUnit.unit
        else return ForInStep.yield PUnit.unit : Effect Host PUnit).outcome h = (.ok ⟨⟩, after) ∧
      (q.shelf after.server).IsOrderly now ∧
      (q.shelf after.server).ledger = (q.shelf h.server).ledger.landAll ids := by
  induction ids generalizing h with
  | nil => exact ⟨h, rfl, horderly, funext fun id => by simp [Ledger.landAll]⟩
  | cons id rest ih =>
      obtain ⟨hnew, hrest⟩ := List.nodup_cons.mp hnodup
      have hid := hids id List.mem_cons_self
      have hfound : (h.server.scored q.inFlightKey).has id = true := Table.has_iff.mpr hid
      obtain ⟨hland, hledger⟩ := horderly.land hid
      rw [← shelf_landed] at hland hledger
      have hstill : ∀ other ∈ rest, other ∈ (((h.server.take q.inFlightKey id).2.add q.readyKey id
          now).scored q.inFlightKey).keys := by
        intro other hother
        have hflight : ((h.server.take q.inFlightKey id).2.add q.readyKey id now).scored q.inFlightKey =
            (h.server.scored q.inFlightKey).erase id := by
          have hshelf := q.shelf_landed h.server id now
          simp only [shelf, Contents.server.injEq] at hshelf
          exact hshelf.2.1
        rw [hflight, Table.keys_erase, List.mem_filter, decide_eq_true_iff]
        exact ⟨hids other (List.mem_cons_of_mem _ hother), ne_of_mem_of_not_mem hother hnew⟩
      rw [List.forIn_cons, outcome_bind]
      rw [outcome_bind_of_ok (outcome_take _ _ h), hfound, if_pos rfl,
        outcome_bind_of_ok (outcome_add _ _ _ _)]
      obtain ⟨after, hall, horderly', hledger'⟩ := ih hrest (h :=
        ⟨(h.network.record (command "zrem" [.str q.inFlightKey, .str id])).record
          (command "zadd" [.str q.readyKey, .single id (.float now)]),
          (h.server.take q.inFlightKey id).2.add q.readyKey id now⟩) hland hstill
      refine ⟨after, hall, horderly', hledger'.trans ?_⟩
      dsimp only
      rw [hledger, Ledger.landAll_cons]
      rfl

/-- Messages on the server whose time in flight is over become ready. -/
theorem outcome_releaseOnServer_ledger {now : Float} {h : Host}
    (horderly : (q.shelf h.server).IsOrderly now) : ∃ after : Host,
      (q.releaseOnServer now).outcome h = (.ok (), after) ∧ (q.shelf after.server).IsOrderly now ∧
      (q.shelf after.server).ledger = (q.shelf h.server).ledger.release now := by
  obtain ⟨after, hall, horderly', hledger⟩ := outcome_landAll now (q := q)
    (horderly.nodup_upTo_inFlight now) (h := { h with network := h.network.record (command
      "zrangebyscore" [.str q.inFlightKey, .str "-inf", .float now] []) }) horderly fun id hid => by
    obtain ⟨m, visibleAt, hm, -⟩ := horderly.mem_upTo_inFlight_iff.mp hid
    exact horderly.tidy.mem_inFlight_iff.mpr ⟨m, visibleAt, hm⟩
  refine ⟨after, ?_, horderly', hledger.trans
    (Ledger.landAll_eq_release fun id => horderly.mem_upTo_inFlight_iff)⟩
  unfold releaseOnServer
  have hfind : (Host.upTo q.inFlightKey now none).outcome h = (.ok (h.server.upTo q.inFlightKey now),
      { h with network := h.network.record (command "zrangebyscore"
        [.str q.inFlightKey, .str "-inf", .float now] []) }) := rfl
  rw [outcome_bind_of_ok hfind, outcome_bind_of_ok hall]
  rfl

/-- Messages on the server that are due are handed out, one after the other. -/
theorem outcome_sendAllOnServer_ledger {now : Float} (visibleAt : Float) {ids : List String}
    (hnodup : ids.Nodup) {h : Host} (horderly : (q.shelf h.server).IsOrderly now)
    (hids : ∀ id ∈ ids, ∃ m, (q.shelf h.server).ledger id = some (.ready m) ∧ m.available ≤ now) :
    ∃ (sent : List Message) (after : Host),
      (ids.filterMapM (q.sendOnServer visibleAt)).outcome h = (.ok (sent.map Message.delivered), after) ∧
      sent.map (·.id) = ids ∧
      (∀ m ∈ sent, (q.shelf h.server).ledger m.id = some (.ready m) ∧ m.available ≤ now) ∧
      (q.shelf after.server).IsOrderly now ∧
      (q.shelf after.server).ledger = (q.shelf h.server).ledger.sendAll ids visibleAt := by
  induction ids generalizing h with
  | nil => exact ⟨[], h, rfl, rfl, nofun, horderly, funext fun id => by simp [Ledger.sendAll]⟩
  | cons id rest ih =>
      obtain ⟨hnew, hrest⟩ := List.nodup_cons.mp hnodup
      obtain ⟨m, hheld, hseen⟩ := hids id List.mem_cons_self
      obtain ⟨hready, htext⟩ := (IsShelf.ledger_eq_ready_iff horderly.tidy).mp hheld
      obtain ⟨was, hwas, rfl, haccept, hkeeps⟩ := IsShelf.exists_message horderly.tidy (.inl hready)
      rw [hwas, Option.bind_some, hkeeps.readRecord_record] at htext
      cases htext
      obtain ⟨next, hsend, hshelf⟩ := outcome_sendOnServer_eq visibleAt hready hwas haccept hkeeps
      obtain ⟨hnext, hledger⟩ := horderly.send hready hwas haccept hkeeps hseen visibleAt
      rw [← hshelf] at hnext hledger
      have hothers : ∀ other ∈ rest,
          (q.shelf next.server).ledger other = (q.shelf h.server).ledger other := by
        intro other hother
        rw [hledger]
        unfold Ledger.sendAll
        rw [if_neg (by simpa using ne_of_mem_of_not_mem hother hnew)]
        rfl
      obtain ⟨sent, after, hall, hmap, hsent, horderly', hledger'⟩ := ih hrest hnext fun other hother => by
        rw [hothers other hother]
        exact hids other (List.mem_cons_of_mem _ hother)
      rw [List.filterMapM_cons, outcome_bind_of_ok hsend]
      dsimp only
      rw [outcome_bind_of_ok hall]
      refine ⟨m :: sent, after, rfl, by rw [List.map_cons, hmap], fun other hother => ?_, horderly', ?_⟩
      · rcases List.mem_cons.mp hother with rfl | hother
        · exact ⟨hheld, hseen⟩
        · rw [← hothers other.id (hmap ▸ List.mem_map_of_mem hother)]
          exact hsent other hother
      · rw [hledger', hledger]
        exact Ledger.sendAll_cons _ hnew visibleAt

/-- A pull on the server hands out what is due once the messages whose time in flight is over are ready. -/
theorem outcome_serve {h : Host} (horderly : (q.shelf h.server).IsOrderly h.network.now) (hidden : Float)
    (limit : Int) : ∃ (sent : List Message) (released after : Host),
      (q.releaseOnServer h.network.now).outcome h = (.ok (), released) ∧
      Effect.outcome (do
        let ids ← Host.upTo q.readyKey h.network.now (some limit)
        ids.filterMapM (q.sendOnServer (h.network.now + hidden))) released =
        (.ok (sent.map Message.delivered), after) ∧
      (q.shelf after.server).IsOrderly h.network.now ∧
      ((q.shelf h.server).ledger.release h.network.now).Pulls h.network.now limit sent ∧
      (q.shelf after.server).ledger = ((q.shelf h.server).ledger.release h.network.now).sendAll
        (sent.map (·.id)) (h.network.now + hidden) := by
  obtain ⟨released, hrelease, horderly', hledger⟩ := outcome_releaseOnServer_ledger horderly
  have hdue (id : String) : id ∈ released.server.upTo q.readyKey h.network.now ↔
      ∃ m, (q.shelf released.server).ledger id = some (.ready m) ∧ m.available ≤ h.network.now :=
    Contents.IsOrderly.mem_upTo_iff horderly'
  rw [hledger] at hdue
  obtain ⟨hnodup, -⟩ := upTo_tidy horderly'.tidy h.network.now
  have hfront : (front (released.server.upTo q.readyKey h.network.now) limit).Sublist
    (released.server.upTo q.readyKey h.network.now) := List.take_sublist _ _
  obtain ⟨sent, after, hall, hmap, hsent, horderly'', hledger'⟩ := outcome_sendAllOnServer_ledger
    (q := q) (h.network.now + hidden) (hnodup.sublist hfront)
    (h := { released with network := released.network.record (command "zrangebyscore"
        [.str q.readyKey, .str "-inf", .float h.network.now] [("start", .int 0), ("num", .int limit)]) })
    horderly' fun id hid => by
      rw [hledger]
      exact (hdue id).mp (hfront.subset hid)
  rw [hledger] at hsent hledger'
  have hlength : sent.length = (front (released.server.upTo q.readyKey h.network.now) limit).length := by
    rw [← hmap, List.length_map]
  refine ⟨sent, released, after, hrelease, ?_, horderly'', ⟨?_, hsent, fun hlimit => ?_,
    fun id m hid hseen => ?_⟩, by rw [hmap, hledger']⟩
  · rw [outcome_bind_of_ok (outcome_upTo _ _ _ _), hall]
  · rw [hmap]
    exact hnodup.sublist hfront
  · rw [hlength]
    exact length_front_le _ hlimit
  · rw [hlength]
    refine (mem_front_or_le ((hdue id).mpr ⟨m, hid, hseen⟩) limit).imp_left fun hin => ?_
    obtain ⟨other, hother, hsame⟩ := List.mem_map.mp (hmap ▸ hin)
    have hheld := (hsent other hother).1
    rw [hsame, hid] at hheld
    cases hheld
    exact hother

/-! ### The ledger after an operation -/

/-- A message that is put is one more in the ledger. -/
theorem outcome_put_ledger (hreach : q.isReachable = true) (horderly : q.IsOrderly site) (way : Way)
    {value metadata : Json} {options : PutOptions}
    (haccept : (newMessage site.2.network value metadata options).accept =
      .ok (newMessage site.2.network value metadata options))
    (hkeeps : (q.contents site).Keeps (newMessage site.2.network value metadata options))
    (hnew : q.ledger site site.2.network.issue.1 = none) :
    ∃ after, (q.put way value metadata options).outcome site =
        (.ok (newMessage site.2.network value metadata options), after) ∧ q.IsOrderly after ∧
      q.ledger after = (q.ledger site).add (newMessage site.2.network value metadata options) ∧
      after.2.network.standing = (site.2.network.now, site.2.network.issued + 1) := by
  have hname : site.2.network.issue.1 ∉ (q.contents site).names := fun hid =>
    horderly.tidy.mem_names_iff.mp hid hnew
  obtain ⟨after, hput, hcontents, hstanding⟩ := outcome_put_add hreach way haccept hname
  obtain ⟨hadd, hledger⟩ := Contents.IsOrderly.add horderly hname haccept hkeeps
  have hnow : after.2.network.now = site.2.network.now := congrArg Prod.fst hstanding
  refine ⟨after, hput, ?_, ?_, hstanding⟩
  · unfold IsOrderly
    rwa [hcontents, hnow]
  · unfold ledger
    rw [hcontents, hledger]

/-- A pull hands out what is due once the messages whose time in flight is over are ready. -/
theorem outcome_pull_ledger (hreach : q.isReachable = true) (horderly : q.IsOrderly site)
    (options : PullOptions) : ∃ (sent : List Message) (after : Site),
      (q.pull options).outcome site = (.ok (sent.map Message.delivered), after) ∧ q.IsOrderly after ∧
      ((q.ledger site).release site.2.network.now).Pulls site.2.network.now options.limit sent ∧
      q.ledger after = ((q.ledger site).release site.2.network.now).sendAll (sent.map (·.id))
        (site.2.network.now + options.timeout q.hidden) ∧
      after.2.network.standing = site.2.network.standing := by
  obtain ⟨linked, hconnect, hmemory, hserver, hstanding⟩ := exists_connect hreach .waiting site
  have hnow : linked.2.network.now = site.2.network.now := congrArg Prod.fst hstanding
  have hleft := leaves_standing_pull (q := q) options site
  have hsame : q.contents linked = q.contents site := contents_congr hmemory hserver
  unfold IsOrderly at horderly ⊢
  unfold ledger
  rw [← hsame, ← hnow] at horderly ⊢
  unfold contents at horderly ⊢
  cases hstorage : q.storage with
  | memory =>
      simp only [hstorage] at horderly ⊢
      obtain ⟨sent, after, hserve, htidy, hpulls, hledger⟩ := Memory.IsTidy.pulls horderly.tidy
        linked.2.network.now (options.timeout q.hidden) options.limit
      refine ⟨sent, _, outcome_pull_memory hstorage hconnect hserve, ?_, hpulls, hledger, hstanding⟩
      refine ⟨htidy, Memory.IsTidy.once htidy, trivial, ?_⟩
      show ∀ id m visibleAt, after.ledger id = some (.flying m visibleAt) → m.available ≤ _
      rw [hledger]
      exact hpulls.begun horderly.begun _
  | server address =>
      simp only [hstorage] at horderly ⊢
      obtain ⟨sent, released, after, hrelease, hserve, horderly', hpulls, hledger⟩ :=
        outcome_serve (h := linked.2) horderly (options.timeout q.hidden) options.limit
      have hpull := outcome_pull_server hstorage hconnect hrelease hserve
      rw [hpull] at hleft
      have hafter : after.network.now = linked.2.network.now := (congrArg Prod.fst hleft).trans hnow.symm
      refine ⟨sent, (linked.1, after), hpull, ?_, hpulls, hledger, hleft⟩
      show Contents.IsOrderly _ after.network.now
      rw [hafter]
      exact horderly'

/-- A message in flight is taken away when it is acknowledged, and nothing else is. -/
theorem outcome_ack_drop (hreach : q.isReachable = true) (way : Way) (id : String) (site : Site) : ∃ after,
    (q.ack way (.str id)).outcome site =
      (if id ∈ q.inFlight site then .ok () else .error (notInFlight (.str id)), after) ∧
    q.contents after = (if id ∈ q.inFlight site then (q.contents site).drop id else q.contents site) ∧
    after.2.network.standing = site.2.network.standing := by
  obtain ⟨linked, hconnect, hmemory, hserver, hstanding⟩ := exists_connect hreach way site
  have hsame : q.contents linked = q.contents site := contents_congr hmemory hserver
  rw [← inFlight_contents, ← hsame, inFlight_contents]
  unfold ack
  rw [outcome_bind_of_ok hconnect]
  unfold inFlight contents
  cases hstorage : q.storage with
  | memory =>
      dsimp only
      have hack : (Site.onMemory fun m _ => (.ok (m.ack id).1, (m.ack id).2)).outcome linked =
          (.ok (linked.1.memory.inFlight.has id),
            { linked.1 with memory := (linked.1.memory.ack id).2 }, linked.2) := rfl
      rw [outcome_bind_of_ok hack]
      by_cases hid : id ∈ linked.1.memory.inFlight.keys
      · rw [Table.has_iff.mpr hid, if_pos hid, if_pos hid]
        exact ⟨_, rfl, rfl, hstanding⟩
      · have hnot : linked.1.memory.inFlight.has id = false :=
          Bool.eq_false_iff.mpr fun hhas => hid (Table.has_iff.mp hhas)
        rw [hnot, if_neg hid, if_neg hid]
        refine ⟨_, rfl, ?_, hstanding⟩
        exact congrArg (fun inFlight => Contents.memory { linked.1.memory with inFlight })
          (Table.erase_of_not_mem hid)
  | server address =>
      dsimp only
      rw [outcome_bind, outcome_onHost, outcome_take]
      dsimp only
      by_cases hid : id ∈ (linked.2.server.scored q.inFlightKey).keys
      · rw [Table.has_iff.mpr hid, if_pos hid, if_pos hid]
        exact ⟨_, rfl, shelf_taken q linked.2.server id, hstanding⟩
      · have hnot : (linked.2.server.scored q.inFlightKey).has id = false :=
          Bool.eq_false_iff.mpr fun hhas => hid (Table.has_iff.mp hhas)
        rw [hnot, if_neg hid, if_neg hid]
        exact ⟨_, rfl, shelf_untaken q linked.2.server hid, hstanding⟩

/-- A message can be acknowledged if it is in flight, and is held no more then. -/
theorem outcome_ack_ledger (hreach : q.isReachable = true) (horderly : q.IsOrderly site) (way : Way)
    (id : String) : ∃ answer after, (q.ack way (.str id)).outcome site = (answer, after) ∧
      q.IsOrderly after ∧ after.2.network.standing = site.2.network.standing ∧
      ((∃ m visibleAt, q.ledger site id = some (.flying m visibleAt)) ∧ answer = .ok () ∧
          q.ledger after = (q.ledger site).take id ∨
        (¬∃ m visibleAt, q.ledger site id = some (.flying m visibleAt)) ∧
          answer = .error (notInFlight (.str id)) ∧ q.ledger after = q.ledger site) := by
  obtain ⟨after, hack, hcontents, hstanding⟩ := outcome_ack_drop hreach way id site
  have hnow : after.2.network.now = site.2.network.now := congrArg Prod.fst hstanding
  have hflight : id ∈ q.inFlight site ↔ ∃ m visibleAt, q.ledger site id = some (.flying m visibleAt) := by
    rw [← inFlight_contents]
    exact horderly.tidy.mem_inFlight_iff
  unfold IsOrderly ledger at *
  by_cases hid : id ∈ q.inFlight site
  · rw [if_pos hid] at hack hcontents
    obtain ⟨hdrop, hledger⟩ := Contents.IsOrderly.drop horderly (inFlight_contents q site ▸ hid)
    rw [← hcontents] at hdrop hledger
    exact ⟨_, after, hack, hnow ▸ hdrop, hstanding, .inl ⟨hflight.mp hid, rfl, hledger⟩⟩
  · rw [if_neg hid] at hack hcontents
    refine ⟨_, after, hack, ?_, hstanding, .inr ⟨fun hheld => hid (hflight.mpr hheld), rfl, ?_⟩⟩
    · rwa [hcontents, hnow]
    · rw [hcontents]

/-- Counting messages may make those ready whose time in flight is over, and does nothing else. -/
theorem outcome_info_ledger (hreach : q.isReachable = true) (horderly : q.IsOrderly site) :
    ∃ i after, q.info.outcome site = (.ok i, after) ∧ q.IsOrderly after ∧
      after.2.network.standing = site.2.network.standing ∧
      (q.ledger after = (q.ledger site).release site.2.network.now ∨ q.ledger after = q.ledger site) := by
  obtain ⟨linked, hconnect, hmemory, hserver, hstanding⟩ := exists_connect hreach .waiting site
  have hnow : linked.2.network.now = site.2.network.now := congrArg Prod.fst hstanding
  have hsame : q.contents linked = q.contents site := contents_congr hmemory hserver
  unfold IsOrderly at horderly ⊢
  unfold ledger info
  rw [← hsame, ← hnow] at horderly ⊢
  rw [outcome_bind_of_ok hconnect]
  unfold contents at horderly ⊢
  cases hstorage : q.storage with
  | memory =>
      simp only [hstorage] at horderly ⊢
      have hledger := Memory.IsTidy.ledger_release horderly.tidy linked.2.network.now
      obtain ⟨htidy, -⟩ := Memory.IsTidy.release horderly.tidy linked.2.network.now
      refine ⟨_, _, rfl, ⟨htidy, htidy.once, trivial, fun id m visibleAt hid => ?_⟩, hstanding, .inl hledger⟩
      have hid : (linked.1.memory.release linked.2.network.now).ledger id =
        some (.flying m visibleAt) := hid
      rw [hledger, Ledger.release_eq_flying_iff] at hid
      exact horderly.begun id m visibleAt hid.1
  | server address =>
      simp only [hstorage] at horderly ⊢
      exact ⟨_, _, rfl, horderly, hstanding, .inr rfl⟩

/-- Nothing is held after everything has been removed. -/
theorem outcome_purge_ledger (hreach : q.isReachable = true) (site : Site) :
    ∃ after, q.purge.outcome site = (.ok (), after) ∧ (q.contents after).IsEmpty ∧
      after.2.network.standing = site.2.network.standing := by
  obtain ⟨linked, hconnect, -, -, hstanding⟩ := exists_connect hreach .waiting site
  unfold purge
  rw [outcome_bind_of_ok hconnect]
  unfold contents
  cases hstorage : q.storage with
  | memory => exact ⟨_, rfl, rfl, hstanding⟩
  | server address =>
      refine ⟨_, rfl, ?_, hstanding⟩
      show Contents.IsEmpty (q.shelf (((linked.2.server.remove q.readyKey).remove q.inFlightKey).remove
        q.dataKey))
      unfold shelf Contents.IsEmpty
      simp [KeyValue.Server.scored_remove, KeyValue.Server.table_remove]

/-- Letting time pass changes nothing in the ledger. -/
theorem IsOrderly.advance (horderly : q.IsOrderly site) {seconds : Float}
    (hseconds : site.2.network.now ≤ site.2.network.now + seconds) :
    q.IsOrderly (site.1, { site.2 with network := site.2.network.advance seconds }) :=
  Contents.IsOrderly.later horderly hseconds

end Queue

end FactIndex
