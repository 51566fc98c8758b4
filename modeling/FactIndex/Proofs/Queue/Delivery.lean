import FactIndex.Proofs.Json.Floats
import FactIndex.Proofs.Queue.Orderly

/-!
# Delivery

What has happened to a queue says what it holds: the messages that were put and are neither acknowledged
nor removed, each once. It also says which of them a pull returns. A message that has been handed out
stays hidden until the time for which it was handed out is over, and counts how often that happened.

## Main definitions

* `Queue.Request`, `Queue.perform`: what is asked of a queue.
* `Queue.Event`: what was asked of a queue at a time, and what it answered.
* `Queue.puts`, `Queue.removed`, `Queue.handOuts`: what happened to messages.
* `Queue.Tallies`: a ledger agrees with what has happened.
* `Queue.Reaches`: what has happened to a queue that was empty at first.
* `Queue.Delivers`: what a queue does next.
-/

namespace FactIndex.Queue

open FactIndex.Effect FactIndex.KeyValue

/-! ## What is asked -/

/-- What is asked of a queue. Time passes meanwhile. -/
inductive Request where
  | put (way : Way) (value metadata : Json) (options : PutOptions)
  | pull (options : PullOptions)
  | ack (way : Way) (id : String)
  | info
  | purge
  | wait (seconds : Float)

/-- What is answered. -/
inductive Answer where
  | message (m : Message)
  | messages (ms : List Message)
  | info (i : QueueInfo)
  | done

/-- Does what is asked. -/
def perform (q : Queue) : Request → Effect Site Answer
  | .put way value metadata options => .message <$> q.put way value metadata options
  | .pull options => .messages <$> q.pull options
  | .ack way id => (fun _ => .done) <$> q.ack way (.str id)
  | .info => .info <$> q.info
  | .purge => (fun _ => .done) <$> q.purge
  | .wait seconds => .make fun (s, h) => (.ok .done, s, { h with network := h.network.advance seconds })

/-! ## What has happened -/

/-- What was asked at a time, and what was answered. -/
structure Event where
  request : Request
  time : Float
  answer : Except Failure Answer

/-- The messages that were put. What happened last stands first. -/
def puts : List Event → List Message
  | ⟨.put .., _, .ok (.message m)⟩ :: earlier => m :: puts earlier
  | _ :: earlier => puts earlier
  | [] => []

/-- The names of the messages that were put. -/
def putNames (history : List Event) : List String := (puts history).map (·.id)

/-- The names of the messages that were acknowledged, or that were removed with all others. -/
def removed : List Event → List String
  | ⟨.ack _ id, _, .ok _⟩ :: earlier => id :: removed earlier
  | ⟨.purge, _, .ok _⟩ :: earlier => putNames earlier
  | _ :: earlier => removed earlier
  | [] => []

/-- For each time that a message was handed out, when that was to be over. -/
def handOuts (hidden : Float) : List Event → String → List Float
  | ⟨.pull options, time, .ok (.messages ms)⟩ :: earlier, id =>
    if id ∈ ms.map (·.id) then (time + options.timeout hidden) :: handOuts hidden earlier id
    else handOuts hidden earlier id
  | _ :: earlier, id => handOuts hidden earlier id
  | [], _ => []

/-- A message was put under the name, and has been neither acknowledged nor removed. -/
def IsOutstanding (history : List Event) (id : String) : Prop :=
  id ∈ putNames history ∧ id ∉ removed history

instance (history : List Event) (id : String) : Decidable (IsOutstanding history id) :=
  inferInstanceAs (Decidable (_ ∧ _))

/-! ## Tallies -/

/-- What is held of a message that was put, if it was to be hidden until these times. -/
def IsTally (now : Float) (put : Message) (hidden : List Float) : Holding → Prop
  | .ready m => m = { put with deliveries := hidden.length } ∧ ∀ t ∈ hidden, t ≤ now
  | .flying m visibleAt => m = { put with deliveries := hidden.length } ∧
      ∃ earlier, hidden = visibleAt :: earlier ∧ ∀ t ∈ earlier, t ≤ now

section

variable {now : Float} {put : Message} {hidden : List Float} {held : Holding}

theorem IsTally.later {later : Float} (h : IsTally now put hidden held) (hlater : now ≤ later) :
    IsTally later put hidden held := by
  cases held with
  | ready m => exact ⟨h.1, fun t ht => Decimal.le_of_le_of_le (h.2 t ht) hlater⟩
  | flying m visibleAt =>
      obtain ⟨hm, earlier, heq, hover⟩ := h
      exact ⟨hm, earlier, heq, fun t ht => Decimal.le_of_le_of_le (hover t ht) hlater⟩

theorem IsTally.settle (h : IsTally now put hidden held) : IsTally now put hidden (held.settle now) := by
  cases held with
  | ready m => exact h
  | flying m visibleAt =>
      by_cases hover : visibleAt ≤ now
      · rw [Holding.settle_flying_of_le hover]
        obtain ⟨hm, earlier, rfl, hearlier⟩ := h
        exact ⟨hm, List.forall_mem_cons.mpr ⟨hover, hearlier⟩⟩
      · rwa [Holding.settle_flying_of_not_le hover]

theorem IsTally.send {m : Message} (h : IsTally now put hidden (.ready m)) (visibleAt : Float) :
    IsTally now put (visibleAt :: hidden) (.flying m.delivered visibleAt) := by
  obtain ⟨rfl, hover⟩ := h
  refine ⟨?_, hidden, rfl, hover⟩
  simp [Message.delivered]

end

/-- A ledger agrees with what has happened: it holds what is outstanding, under names that have been
given. -/
structure Tallies (hidden : Float) (history : List Event) (L : Ledger) (now : Float) (issued : Nat) :
    Prop where
  nodup : (putNames history).Nodup
  named : ∀ id ∈ putNames history, ∃ k ≤ issued, id = Network.nameOf k
  gone : ∀ id ∈ removed history, id ∈ putNames history
  unseen : ∀ id, id ∉ putNames history → handOuts hidden history id = []
  holds : ∀ id, L id ≠ none ↔ IsOutstanding history id
  tally : ∀ put ∈ puts history, ∀ held, L put.id = some held →
    IsTally now put (handOuts hidden history put.id) held

namespace Tallies

variable {hidden now : Float} {history : List Event} {L : Ledger} {issued : Nat}

theorem start (hidden now : Float) (issued : Nat) : Tallies hidden [] Ledger.empty now issued where
  nodup := List.nodup_nil
  named := nofun
  gone := nofun
  unseen _ _ := rfl
  holds _ := ⟨fun h => absurd rfl h, fun h => absurd h.1 List.not_mem_nil⟩
  tally := nofun

/-- Time passes. -/
theorem later (h : Tallies hidden history L now issued) {later : Float} (hlater : now ≤ later) :
    Tallies hidden history L later issued where
  nodup := h.nodup
  named := h.named
  gone := h.gone
  unseen := h.unseen
  holds := h.holds
  tally put hput held hheld := (h.tally put hput held hheld).later hlater

/-- Messages whose time in flight is over are ready. -/
theorem release (h : Tallies hidden history L now issued) :
    Tallies hidden history (L.release now) now issued where
  nodup := h.nodup
  named := h.named
  gone := h.gone
  unseen := h.unseen
  holds id := by
    rw [← h.holds id]
    unfold Ledger.release
    rw [Ne, Option.map_eq_none_iff]
  tally put hput held hheld := by
    obtain ⟨was, hwas, rfl⟩ := Option.map_eq_some_iff.mp hheld
    exact (h.tally put hput was hwas).settle

/-- The next name is new. -/
theorem not_mem_putNames (h : Tallies hidden history L now issued) :
    Network.nameOf (issued + 1) ∉ putNames history := by
  intro hmem
  obtain ⟨k, hk, hname⟩ := h.named _ hmem
  have hsame := Network.nameOf_injective hname
  omega

/-- A message is put under the next name. -/
theorem add (h : Tallies hidden history L now issued) {m : Message}
    (hid : m.id = Network.nameOf (issued + 1)) (hdeliveries : m.deliveries = 0) (way : Way)
    (value metadata : Json) (options : PutOptions) (time : Float) :
    Tallies hidden (⟨.put way value metadata options, time, .ok (.message m)⟩ :: history) (L.add m) now
      (issued + 1) := by
  have hnew : m.id ∉ putNames history := hid ▸ h.not_mem_putNames
  have hunseen := h.unseen m.id hnew
  refine ⟨List.nodup_cons.mpr ⟨hnew, h.nodup⟩, fun id hmem => ?_, fun id hmem => ?_, fun id hmem => ?_,
    fun id => ?_, fun put hput held hheld => ?_⟩
  · rcases List.mem_cons.mp hmem with rfl | hmem
    · exact ⟨_, Nat.le_refl _, hid⟩
    · obtain ⟨k, hk, hname⟩ := h.named id hmem
      exact ⟨k, by omega, hname⟩
  · exact List.mem_cons_of_mem _ (h.gone id hmem)
  · exact h.unseen id fun hold => hmem (List.mem_cons_of_mem _ hold)
  · have hout : IsOutstanding (⟨.put way value metadata options, time, .ok (.message m)⟩ :: history) id ↔
        (id = m.id ∨ id ∈ putNames history) ∧ id ∉ removed history :=
      and_congr_left fun _ => List.mem_cons
    rw [hout]
    unfold Ledger.add
    by_cases heq : m.id = id
    · subst heq
      exact ⟨fun _ => ⟨.inl rfl, fun hmem => hnew (h.gone _ hmem)⟩, fun _ => by simp⟩
    · rw [if_neg heq, h.holds id, or_iff_right (Ne.symm heq)]
      rfl
  · show IsTally now put (handOuts hidden history put.id) held
    unfold Ledger.add at hheld
    rcases List.mem_cons.mp hput with rfl | hput
    · rw [if_pos rfl, Option.some.injEq] at hheld
      rw [← hheld, hunseen]
      exact ⟨congrArg (fun n => { put with deliveries := n }) hdeliveries, nofun⟩
    · have hne : m.id ≠ put.id := fun heq => hnew (heq ▸ List.mem_map_of_mem hput)
      rw [if_neg hne] at hheld
      exact h.tally put hput held hheld

/-- Messages are handed out. -/
theorem sendAll (h : Tallies hidden history L now issued) {limit : Int} {sent : List Message}
    (hsent : L.Pulls now limit sent) (options : PullOptions) :
    Tallies hidden (⟨.pull options, now, .ok (.messages (sent.map Message.delivered))⟩ :: history)
      (L.sendAll (sent.map (·.id)) (now + options.timeout hidden)) now issued := by
  have hids : (sent.map Message.delivered).map (·.id) = sent.map (·.id) := by
    rw [List.map_map]
    rfl
  have hseen (id : String) : handOuts hidden
      (⟨.pull options, now, .ok (.messages (sent.map Message.delivered))⟩ :: history) id =
      if id ∈ sent.map (·.id) then (now + options.timeout hidden) :: handOuts hidden history id
      else handOuts hidden history id := by
    rw [handOuts, hids]
  have hput {id : String} (hid : id ∈ sent.map (·.id)) : id ∈ putNames history := by
    obtain ⟨m, hm, rfl⟩ := List.mem_map.mp hid
    refine ((h.holds m.id).mp ?_).1
    rw [(hsent.held m hm).1]
    nofun
  refine ⟨h.nodup, h.named, h.gone, fun id hid => ?_, fun id => ?_, fun put hmem held hheld => ?_⟩
  · rw [hseen, if_neg fun hmem => hid (hput hmem)]
    exact h.unseen id hid
  · refine Iff.trans ?_ (h.holds id)
    unfold Ledger.sendAll
    split
    · rw [Ne, Option.map_eq_none_iff]
    · rfl
  · rw [hseen]
    unfold Ledger.sendAll at hheld
    split
    · rename_i hid
      rw [if_pos hid] at hheld
      obtain ⟨m, hm, hname⟩ := List.mem_map.mp hid
      have hready := (hsent.held m hm).1
      rw [hname] at hready
      rw [hready] at hheld
      cases hheld
      exact (h.tally put hmem _ hready).send _
    · rename_i hid
      rw [if_neg hid] at hheld
      exact h.tally put hmem held hheld

/-- A message is acknowledged. -/
theorem take (h : Tallies hidden history L now issued) {id : String} (hid : L id ≠ none) (way : Way)
    (time : Float) (answer : Answer) :
    Tallies hidden (⟨.ack way id, time, .ok answer⟩ :: history) (L.take id) now issued := by
  refine ⟨h.nodup, h.named, fun other hmem => ?_, h.unseen, fun other => ?_, fun put hput held hheld => ?_⟩
  · rcases List.mem_cons.mp hmem with rfl | hmem
    · exact ((h.holds other).mp hid).1
    · exact h.gone other hmem
  · have hout : IsOutstanding (⟨.ack way id, time, .ok answer⟩ :: history) other ↔
        other ∈ putNames history ∧ ¬(other = id ∨ other ∈ removed history) :=
      and_congr_right fun _ => not_congr List.mem_cons
    rw [hout]
    unfold Ledger.take
    by_cases heq : id = other
    · simp [heq]
    · rw [if_neg heq, h.holds other, or_iff_right (Ne.symm heq)]
      rfl
  · unfold Ledger.take at hheld
    split at hheld
    · cases hheld
    · exact h.tally put hput held hheld

/-- Everything is removed. -/
theorem clear (h : Tallies hidden history L now issued) (time : Float) (answer : Answer) :
    Tallies hidden (⟨.purge, time, .ok answer⟩ :: history) Ledger.empty now issued where
  nodup := h.nodup
  named := h.named
  gone _ hmem := hmem
  unseen := h.unseen
  holds _ := ⟨fun hne => absurd rfl hne, fun hout => absurd hout.1 hout.2⟩
  tally := nofun

/-- Something that is not noted here happens. -/
theorem unnoted (h : Tallies hidden history L now issued) {e : Event}
    (hputs : puts (e :: history) = puts history) (hremoved : removed (e :: history) = removed history)
    (hseen : handOuts hidden (e :: history) = handOuts hidden history) :
    Tallies hidden (e :: history) L now issued := by
  have hnames : putNames (e :: history) = putNames history :=
    congrArg (List.map Message.id) hputs
  refine ⟨?_, ?_, ?_, ?_, ?_, ?_⟩
  · exact hnames ▸ h.nodup
  · exact hnames ▸ h.named
  · rw [hnames, hremoved]
    exact h.gone
  · rw [hnames, hseen]
    exact h.unseen
  · unfold IsOutstanding
    rw [hnames, hremoved]
    exact h.holds
  · rw [hputs, hseen]
    exact h.tally

end Tallies

/-! ## Runs -/

/-- A value can be stored where the queue keeps its messages. In memory every value can. -/
def CanStore (q : Queue) (value : Json) : Prop := q.storage ≠ .memory → Json.Fits 989 value

/-- What may be asked: to put what a message may carry, to pull at least one message, and to wait for a
time that goes on. -/
def Admits (q : Queue) (now : Float) : Request → Prop
  | .put _ value metadata _ => Message.valueIssues value = [] ∧ Message.metadataIssues metadata = [] ∧
      q.CanStore value ∧ q.CanStore metadata
  | .pull options => 0 < options.limit
  | .wait seconds => now ≤ now + seconds
  | _ => True

/-- The queue was empty, and all this has happened to it. -/
inductive Reaches (q : Queue) : List Event → Site → Prop
  | start {site : Site} (h : (q.contents site).IsEmpty) : Reaches q [] site
  | step {history : List Event} {site : Site} (h : Reaches q history site) {r : Request}
      (hr : q.Admits site.2.network.now r) :
      Reaches q (⟨r, site.2.network.now, ((q.perform r).outcome site).1⟩ :: history)
        ((q.perform r).outcome site).2

variable {q : Queue} {history : List Event} {site : Site}

/-- A message that may be put is read back from where it is held. -/
theorem keeps_newMessage {value metadata : Json} (hvalue : q.CanStore value)
    (hmetadata : q.CanStore metadata) (n : Network) (options : PutOptions) :
    (q.contents site).Keeps (newMessage n value metadata options) := by
  unfold contents Contents.Keeps
  cases hstorage : q.storage with
  | memory => trivial
  | server address =>
      intro deliveries
      have hserver : q.storage ≠ .memory := by simp [hstorage]
      have hkeys : ["id", "value", "metadata", "enqueued_time", "available_time",
        "delivery_count"].Nodup := by decide
      have hfits : Json.Fits Json.argumentDepth
          { newMessage n value metadata options with deliveries }.recordJson := by
        refine .obj hkeys ?_
        simp only [List.forall_mem_cons]
        exact ⟨.str _, hvalue hserver, hmetadata hserver, .float _, .float _, .int _, List.forall_mem_nil _⟩
      unfold readRecord Message.record
      rw [Json.parse?_print Json.Style.isPlain_stored hfits.isReadable]
      exact Message.ofRecordJson?_recordJson _

/-- What a message may carry is accepted. -/
theorem accept_newMessage {value metadata : Json} (hvalue : Message.valueIssues value = [])
    (hmetadata : Message.metadataIssues metadata = []) (n : Network) (options : PutOptions) :
    (newMessage n value metadata options).accept = .ok (newMessage n value metadata options) := by
  have hissues : Message.valueIssues (newMessage n value metadata options).value ++
      Message.metadataIssues (newMessage n value metadata options).metadata = [] :=
    List.append_eq_nil_iff.mpr ⟨hvalue, hmetadata⟩
  unfold Message.accept
  rw [hissues]

/-- The ledger of the queue agrees with what has happened. -/
structure Accounts (q : Queue) (history : List Event) (site : Site) : Prop where
  orderly : q.IsOrderly site
  tallies : Tallies q.hidden history (q.ledger site) site.2.network.now site.2.network.issued

theorem Accounts.of_standing {after : Site} (horderly : q.IsOrderly after)
    (hstanding : after.2.network.standing = site.2.network.standing)
    (h : Tallies q.hidden history (q.ledger after) site.2.network.now site.2.network.issued) :
    q.Accounts history after := by
  have hnow : after.2.network.now = site.2.network.now := congrArg Prod.fst hstanding
  have hissued : after.2.network.issued = site.2.network.issued := congrArg Prod.snd hstanding
  refine ⟨horderly, ?_⟩
  rwa [hnow, hissued]

theorem Accounts.outcome_put (h : q.Accounts history site) (hreach : q.isReachable = true) {way : Way}
    {value metadata : Json} {options : PutOptions}
    (hr : q.Admits site.2.network.now (.put way value metadata options)) : ∃ after,
      (q.put way value metadata options).outcome site =
        (.ok (newMessage site.2.network value metadata options), after) ∧ q.IsOrderly after ∧
      q.ledger after = (q.ledger site).add (newMessage site.2.network value metadata options) ∧
      after.2.network.standing = (site.2.network.now, site.2.network.issued + 1) := by
  obtain ⟨hvalue, hmetadata, hkeepsValue, hkeepsMetadata⟩ := hr
  refine outcome_put_ledger hreach h.orderly way (accept_newMessage hvalue hmetadata _ _)
    (keeps_newMessage hkeepsValue hkeepsMetadata _ _) (Decidable.byContradiction fun hheld => ?_)
  exact h.tallies.not_mem_putNames ((h.tallies.holds _).mp hheld).1

/-- Whatever is asked, the ledger goes on to agree with what has happened. -/
theorem Accounts.step (h : q.Accounts history site) (hreach : q.isReachable = true) {r : Request}
    (hr : q.Admits site.2.network.now r) :
    q.Accounts (⟨r, site.2.network.now, ((q.perform r).outcome site).1⟩ :: history)
      ((q.perform r).outcome site).2 := by
  cases r with
  | put way value metadata options =>
      obtain ⟨after, hput, horderly, hledger, hstanding⟩ := h.outcome_put hreach hr
      have hnow : after.2.network.now = site.2.network.now := congrArg Prod.fst hstanding
      have hissued : after.2.network.issued = site.2.network.issued + 1 := congrArg Prod.snd hstanding
      simp only [perform, outcome_map, hput]
      refine ⟨horderly, ?_⟩
      rw [hledger, hnow, hissued]
      exact h.tallies.add rfl rfl way value metadata options _
  | pull options =>
      obtain ⟨sent, after, hpull, horderly, hpulls, hledger, hstanding⟩ :=
        outcome_pull_ledger hreach h.orderly options
      simp only [perform, outcome_map, hpull]
      refine .of_standing horderly hstanding ?_
      rw [hledger]
      exact h.tallies.release.sendAll hpulls options
  | ack way id =>
      obtain ⟨answer, after, hack, horderly, hstanding, hledger⟩ :=
        outcome_ack_ledger hreach h.orderly way id
      simp only [perform, outcome_map, hack]
      refine .of_standing horderly hstanding ?_
      rcases hledger with ⟨⟨m, visibleAt, hheld⟩, rfl, hledger⟩ | ⟨-, rfl, hledger⟩
      · rw [hledger]
        exact h.tallies.take (by rw [hheld]; nofun) way _ _
      · rw [hledger]
        exact h.tallies.unnoted rfl rfl rfl
  | info =>
      obtain ⟨i, after, hinfo, horderly, hstanding, hledger⟩ := outcome_info_ledger hreach h.orderly
      simp only [perform, outcome_map, hinfo]
      refine .of_standing horderly hstanding ?_
      rcases hledger with hledger | hledger
      · rw [hledger]
        exact h.tallies.release.unnoted rfl rfl rfl
      · rw [hledger]
        exact h.tallies.unnoted rfl rfl rfl
  | purge =>
      obtain ⟨after, hpurge, hempty, hstanding⟩ := outcome_purge_ledger hreach site
      simp only [perform, outcome_map, hpurge]
      refine .of_standing (hempty.isOrderly _) hstanding ?_
      rw [show q.ledger after = Ledger.empty from hempty.ledger_eq]
      exact h.tallies.clear _ _
  | wait seconds =>
      exact ⟨h.orderly.advance hr, (h.tallies.later hr).unnoted rfl rfl rfl⟩

end FactIndex.Queue
