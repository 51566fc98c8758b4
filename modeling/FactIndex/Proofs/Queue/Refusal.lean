import FactIndex.Proofs.Failure
import FactIndex.Proofs.Queue.Delivery
import FactIndex.Queue.Operations

/-!
# Messages that are refused

A message is stored before it is looked at. So a call to put that fails has changed nothing if it came to
no message, and otherwise it leaves a message behind that may not be handed out. A pull that comes to this
message fails as the call did.

## Main definitions

* `Queue.Memory.IsBlocked`, `Queue.IsBlockedShelf`: one message is ready that may not be handed out.
* `Queue.outcome_pull_blocked`: a pull fails exactly if it comes to that message.
* `Queue.asked`, `Queue.message?`: what a call to put makes of its arguments, and the message.
* `Queue.call_put_error`: what a call to put that fails leaves behind.
-/

namespace FactIndex

open FactIndex.Effect FactIndex.KeyValue

/-- What is refused is refused however often it has been handed out. -/
theorem Message.accept_delivered_of_error {m : Message} {e : Failure} (h : m.accept = .error e) :
    m.delivered.accept = .error e := by
  unfold accept at h ⊢
  cases hissues : valueIssues m.value ++ metadataIssues m.metadata with
  | nil =>
      rw [hissues] at h
      cases h
  | cons issue more =>
      have hsame : valueIssues m.delivered.value ++ metadataIssues m.delivered.metadata = issue :: more := hissues
      rw [hissues] at h
      rw [hsame]
      exact h

namespace Queue

variable {refused : Message} {e : Failure} {names : List String}

/-! ## In memory -/

namespace Memory

/-- One message is ready that may not be handed out. All others may, and they are named. -/
structure IsBlocked (m : Memory) (refused : Message) (names : List String) : Prop where
  nodup : m.ready.keys.Nodup
  known : m.ready.keys ⊆ names
  there : m.ready.get? refused.id = some refused
  ready : ∀ entry ∈ m.ready, entry.2 = refused ∨ entry.2.accept = .ok entry.2
  flying : ∀ entry ∈ m.inFlight, entry.2.message.id ∈ names ∧ entry.2.message.id ≠ refused.id ∧
    entry.2.message.accept = .ok entry.2.message

variable {m : Memory}

/-- A message in flight comes back. -/
theorem IsBlocked.land (h : m.IsBlocked refused names) {entry : String × Flight}
    (hnamed : entry.2.message.id ∈ names) (hother : entry.2.message.id ≠ refused.id)
    (haccept : entry.2.message.accept = .ok entry.2.message) :
    (makeReady { m with inFlight := m.inFlight.erase entry.1 } entry.2.message).IsBlocked refused names where
  nodup := Table.nodup_keys_put h.nodup _ _
  known id hid := by
    rcases Table.mem_keys_put.mp hid with rfl | hid
    · exact hnamed
    · exact h.known hid
  there := (Table.get?_put_of_ne _ _ hother).trans h.there
  ready other hmem := by
    rcases Table.mem_of_mem_put hmem with rfl | hmem
    · exact .inr haccept
    · exact h.ready other hmem
  flying other hmem := h.flying other (List.mem_filter.mp hmem).1

theorem IsBlocked.release (h : m.IsBlocked refused names) (now : Float) :
    (m.release now).IsBlocked refused names :=
  List.foldlRecOn (motive := fun m : Memory => m.IsBlocked refused names) _ _ h fun _ hm f hf => by
    obtain ⟨hnamed, hother, haccept⟩ := h.flying f (List.mem_filter.mp hf).1
    exact hm.land hnamed hother haccept

/-- Of messages that are handed out one after the other, the first that is refused ends it. -/
theorem sendAll_eq_error_iff (hrefused : refused.accept = .error e) {messages : List Message}
    (h : ∀ message ∈ messages, message = refused ∨ message.accept = .ok message) (visibleAt : Float)
    (m : Memory) {f : Failure} :
    (m.sendAll visibleAt messages).1 = .error f ↔ f = e ∧ refused ∈ messages := by
  induction messages generalizing m with
  | nil => simp [sendAll]
  | cons message rest ih =>
      have hrest := ih (fun other hother => h other (List.mem_cons_of_mem _ hother))
        (m.send message visibleAt)
      simp only [sendAll]
      rcases h message List.mem_cons_self with rfl | haccept
      · rw [Message.accept_delivered_of_error hrefused]
        simp [eq_comm]
      · have hne : refused ≠ message := by
          rintro rfl
          rw [hrefused] at haccept
          cases haccept
        rw [Message.accept_delivered haccept, List.mem_cons, or_iff_right hne, ← hrest]
        dsimp only
        cases (m.send message visibleAt).sendAll visibleAt rest |>.1 <;> simp [Except.map]

/-- A pull that asks for enough messages fails exactly if the message is due that is refused. -/
theorem IsBlocked.pull_eq_error_iff (h : m.IsBlocked refused names) (hrefused : refused.accept = .error e)
    (now hidden : Float) {count : Int} (hcount : names.length ≤ count) {f : Failure} :
    (m.pull now hidden count).1 = .error f ↔ f = e ∧ refused.available ≤ now := by
  have hreleased := h.release now
  have hmem {message : Message} : message ∈ (m.release now).due now ↔
      message ∈ (m.release now).ready.values ∧ message.available ≤ now := by
    rw [due, List.mem_mergeSort, List.mem_filter, decide_eq_true_iff]
  have hlength : ((m.release now).due now).length ≤ names.length :=
    calc ((m.release now).due now).length
        = ((m.release now).ready.values.filter fun r => r.available ≤ now).length := List.length_mergeSort _
      _ ≤ (m.release now).ready.values.length := List.length_filter_le _ _
      _ = (m.release now).ready.keys.length := by rw [Table.values, Table.keys, List.length_map, List.length_map]
      _ ≤ names.length := (List.subperm_of_subset hreleased.nodup hreleased.known).length_le
  have hthere : refused ∈ (m.release now).ready.values :=
    List.mem_map.mpr ⟨_, Table.mem_of_get? hreleased.there, rfl⟩
  unfold pull
  dsimp only
  rw [front_of_length_le (by omega), sendAll_eq_error_iff hrefused fun message hmessage => ?_]
  · rw [hmem, and_iff_right hthere]
  · obtain ⟨entry, hentry, rfl⟩ := List.mem_map.mp (hmem.mp hmessage).1
    exact hreleased.ready entry hentry

/-- A message that is refused is put beside others that may be handed out. -/
theorem IsTidy.isBlocked (h : m.IsTidy) (hnew : refused.id ∉ m.ready.keys ++ m.inFlight.keys) :
    IsBlocked { m with ready := m.ready ++ [(refused.id, refused)] } refused
      ((m.ready ++ [(refused.id, refused)]).keys ++ m.inFlight.keys) := by
  rw [List.mem_append, not_or] at hnew
  rw [← Table.put_of_not_mem hnew.1]
  refine ⟨Table.nodup_keys_put h.nodup _ _, List.subset_append_left _ _, Table.get?_put_self _ _ _,
    fun entry hentry => ?_, fun entry hentry => ?_⟩
  · rcases Table.mem_of_mem_put hentry with rfl | hentry
    · exact .inl rfl
    · exact .inr (h.ready entry hentry).2
  · have hkey : entry.2.message.id ∈ m.inFlight.keys :=
      h.named entry hentry ▸ List.mem_map_of_mem hentry
    exact ⟨List.mem_append_right _ hkey, ne_of_mem_of_not_mem hkey hnew.2, h.inFlight entry hentry⟩

end Memory

/-! ## On the server -/

/-- One message is ready that may not be handed out. All others may, and they are named. -/
structure IsBlockedShelf (ready inFlight : Table String Float) (texts : Table String String)
    (refused : Message) (names : List String) : Prop where
  nodup : ready.keys.Nodup
  known : ready.keys ⊆ names
  there : ready.get? refused.id = some refused.available
  text : texts.get? refused.id = some refused.record
  flying : ∀ id ∈ inFlight.keys, id ∈ names ∧ id ≠ refused.id
  record : ∀ id, id ≠ refused.id → id ∈ ready.keys ∨ id ∈ inFlight.keys →
    ∀ text, texts.get? id = some text → IsRecordOf id text

variable {q : Queue} {ready inFlight : Table String Float} {texts : Table String String}

/-- A message in flight comes back. -/
theorem IsBlockedShelf.land (h : IsBlockedShelf ready inFlight texts refused names) {id : String}
    (hid : id ∈ inFlight.keys) (score : Float) :
    IsBlockedShelf (ready.put id score) (inFlight.erase id) texts refused names where
  nodup := Table.nodup_keys_put h.nodup _ _
  known other hother := by
    rcases Table.mem_keys_put.mp hother with rfl | hother
    · exact (h.flying _ hid).1
    · exact h.known hother
  there := (Table.get?_put_of_ne _ _ (h.flying id hid).2).trans h.there
  text := h.text
  flying other hother := by
    rw [Table.keys_erase] at hother
    exact h.flying other (List.mem_filter.mp hother).1
  record other hne hother := by
    rw [Table.mem_keys_put, Table.keys_erase, List.mem_filter] at hother
    refine h.record other hne ?_
    rcases hother with (rfl | hother) | hother
    · exact .inr hid
    · exact .inl hother
    · exact .inr hother.1

/-- A message that is refused is put beside others that may be handed out. -/
theorem IsShelf.isBlocked (h : IsShelf ready inFlight texts)
    (hnew : refused.id ∉ ready.keys ++ inFlight.keys ++ texts.keys) :
    IsBlockedShelf (ready ++ [(refused.id, refused.available)]) inFlight
      (texts ++ [(refused.id, refused.record)]) refused
      ((ready ++ [(refused.id, refused.available)]).keys ++ inFlight.keys) := by
  simp only [List.mem_append, not_or] at hnew
  obtain ⟨⟨hready, hflight⟩, htext⟩ := hnew
  rw [← Table.put_of_not_mem hready, ← Table.put_of_not_mem htext]
  refine ⟨Table.nodup_keys_put h.nodup _ _, List.subset_append_left _ _, Table.get?_put_self _ _ _,
    Table.get?_put_self _ _ _,
    fun id hid => ⟨List.mem_append_right _ hid, ne_of_mem_of_not_mem hid hflight⟩,
    fun id hne _ text hget => ?_⟩
  rw [Table.get?_put_of_ne _ _ (Ne.symm hne)] at hget
  obtain ⟨m, rfl, hname, haccept, hkeeps⟩ := h.record id text hget
  exact ⟨m, hkeeps.readRecord_record, hname, haccept⟩

/-- The message that is refused is not handed out. -/
theorem outcome_sendOnServer_refused (hrefused : refused.accept = .error e) (hkeeps : Keeps refused)
    (visibleAt : Float) {h : Host} (hready : refused.id ∈ (h.server.scored q.readyKey).keys)
    (htext : h.server.field q.dataKey refused.id = some refused.record) :
    ((q.sendOnServer visibleAt refused.id).outcome h).1 = .error e := by
  have hread : (Json.parse? Json.argumentDepth refused.record).bind Message.ofRecordJson? = some refused :=
    hkeeps.readRecord_record
  unfold sendOnServer
  rw [outcome_bind_of_ok (outcome_take _ _ h), Table.has_iff.mpr hready]
  simp only [Bool.not_true, Bool.false_eq_true, if_false]
  rw [outcome_bind_of_ok (outcome_add _ _ _ _), outcome_bind_of_ok (outcome_field _ _ _)]
  simp only [Server.field_setScored, htext, hread]
  rw [outcome_bind_of_ok (outcome_putField _ _ _ _), Message.accept_delivered_of_error hrefused]
  rfl

/-- Of messages that are handed out one after the other, the first that is refused ends it. -/
theorem sendAllOnServer_eq_error_iff (hrefused : refused.accept = .error e) (hkeeps : Keeps refused)
    (visibleAt : Float) {ids : List String} (hnodup : ids.Nodup) {h : Host}
    (hready : ∀ id ∈ ids, id ∈ (h.server.scored q.readyKey).keys)
    (htext : h.server.field q.dataKey refused.id = some refused.record)
    (hrecord : ∀ id ∈ ids, id ≠ refused.id → ∀ text, h.server.field q.dataKey id = some text →
      IsRecordOf id text) {f : Failure} :
    ((ids.filterMapM (q.sendOnServer visibleAt)).outcome h).1 = .error f ↔ f = e ∧ refused.id ∈ ids := by
  induction ids generalizing h with
  | nil => exact iff_of_false nofun fun h => List.not_mem_nil h.2
  | cons id rest ih =>
      obtain ⟨hnew, hrest⟩ := List.nodup_cons.mp hnodup
      rw [List.filterMapM_cons]
      by_cases hid : id = refused.id
      · subst hid
        have hsend := outcome_sendOnServer_refused hrefused hkeeps visibleAt
          (hready _ List.mem_cons_self) htext
        rw [fst_bind_of_error hsend]
        simp [eq_comm]
      · obtain ⟨sent, next, hsend, -, hothers⟩ := q.outcome_sendOnServer visibleAt
          (hready id List.mem_cons_self) (hrecord id List.mem_cons_self hid)
        have hne {other : String} (hother : other ∈ rest) : other ≠ id := ne_of_mem_of_not_mem hother hnew
        have hall := ih hrest (h := next)
          (fun other hother => (hothers other (hne hother)).2.1.mpr (hready other (List.mem_cons_of_mem _ hother)))
          ((hothers _ (Ne.symm hid)).2.2.trans htext)
          (fun other hother hnot text hget => hrecord other (List.mem_cons_of_mem _ hother) hnot text
            ((hothers other (hne hother)).2.2 ▸ hget))
        rw [outcome_bind_of_ok hsend, List.mem_cons, or_iff_right (Ne.symm hid), ← hall]
        cases sent with
        | none => rfl
        | some m =>
            dsimp only
            rw [outcome_bind]
            rcases (rest.filterMapM (q.sendOnServer visibleAt)).outcome next with ⟨_ | _, _⟩ <;> simp

/-- Messages whose time in flight is over become ready. -/
theorem release_blocked (now : Float) {h : Host} (hblocked : IsBlockedShelf (h.server.scored q.readyKey)
      (h.server.scored q.inFlightKey) (h.server.table q.dataKey) refused names) :
    (q.releaseOnServer now).Meets h fun r after => r = .ok () ∧ IsBlockedShelf
      (after.server.scored q.readyKey) (after.server.scored q.inFlightKey) (after.server.table q.dataKey)
      refused names :=
  meets_release_of_land now
    (P := fun ready inFlight texts => IsBlockedShelf ready inFlight texts refused names)
    (fun _ _ _ _ hid h => h.land hid now) hblocked

/-- A pull that asks for enough messages fails exactly if the message is due that is refused. -/
theorem serve_eq_error_iff (hrefused : refused.accept = .error e) (hkeeps : Keeps refused) {h : Host}
    (hblocked : IsBlockedShelf (h.server.scored q.readyKey) (h.server.scored q.inFlightKey)
      (h.server.table q.dataKey) refused names) (now visibleAt : Float) {limit : Int}
    (hlimit : names.length ≤ limit) {f : Failure} :
    (Effect.outcome (do
      let ids ← Host.upTo q.readyKey now (some limit)
      ids.filterMapM (q.sendOnServer visibleAt)) h).1 = .error f ↔ f = e ∧ refused.available ≤ now := by
  have hdue {id : String} : id ∈ h.server.upTo q.readyKey now ↔
      ∃ t, (h.server.scored q.readyKey).get? id = some t ∧ t ≤ now := Server.mem_upTo_iff hblocked.nodup
  have hready {id : String} (hid : id ∈ h.server.upTo q.readyKey now) :
      id ∈ (h.server.scored q.readyKey).keys := by
    obtain ⟨t, hget, -⟩ := hdue.mp hid
    exact Table.mem_keys_of_get? hget
  have hlength : (h.server.upTo q.readyKey now).length ≤ names.length :=
    (h.server.length_upTo_le _ _).trans (List.subperm_of_subset hblocked.nodup hblocked.known).length_le
  rw [outcome_bind_of_ok (outcome_upTo _ _ _ _), front_of_length_le (by omega)]
  refine (sendAllOnServer_eq_error_iff hrefused hkeeps visibleAt (Server.nodup_upTo hblocked.nodup now)
    (h := ⟨h.network.record _, h.server⟩) (fun id hid => hready hid) hblocked.text
    fun id hid hne => hblocked.record id hne (.inl (hready hid))).trans ?_
  rw [hdue, hblocked.there]
  simp

/-! ## Pulling -/

variable {site : Site}

/-- A pull that asks for enough messages fails exactly if the message is due that is refused. -/
theorem outcome_pull_blocked {c : Contents} (htidy : c.IsTidy) (hnew : refused.id ∉ c.names)
    (hkeeps : c.Keeps refused) (hrefused : refused.accept = .error e)
    (hheld : q.contents site = c.add refused) (hlink : q.isConnected site = true) {options : PullOptions}
    (hlimit : ((q.contents site).ready ++ (q.contents site).inFlight).length ≤ options.limit) {f : Failure} :
    ((q.pull options).outcome site).1 = .error f ↔ f = e ∧ refused.available ≤ site.2.network.now := by
  obtain ⟨linked, hconnect, hmemory, hserver, -⟩ := outcome_connect hlink
  have hnow : linked.2.network.now = site.2.network.now := congrArg Prod.fst (standing_of_connect hconnect)
  rw [← contents_congr hmemory hserver] at hheld hlimit
  rw [← hnow]
  cases hstorage : q.storage with
  | memory =>
      cases c with
      | server ready inFlight texts => simp [contents, hstorage, Contents.add] at hheld
      | memory messages =>
          rw [hheld] at hlimit
          simp only [contents, hstorage, Contents.add, Contents.memory.injEq] at hheld
          have hblocked := Memory.IsTidy.isBlocked htidy hnew
          rw [← hheld] at hblocked
          rw [outcome_pull_memory hstorage hconnect rfl]
          exact hblocked.pull_eq_error_iff hrefused _ _ hlimit
  | server address =>
      cases c with
      | memory messages => simp [contents, hstorage, Contents.add] at hheld
      | server ready inFlight texts =>
          simp only [contents, hstorage, Contents.add, Contents.server.injEq] at hheld hlimit
          obtain ⟨hready, hflight, htexts⟩ := hheld
          have hblocked := IsShelf.isBlocked htidy hnew
          rw [← hready, ← hflight, ← htexts] at hblocked
          rcases hrelease : (q.releaseOnServer linked.2.network.now).outcome linked.2 with ⟨r, released⟩
          obtain ⟨rfl, hreleased⟩ := (release_blocked linked.2.network.now hblocked).of_outcome hrelease
          rw [outcome_pull_server hstorage hconnect hrelease rfl]
          exact serve_eq_error_iff hrefused hkeeps hreleased _ _ hlimit

/-! ## Calls -/

/-- What a call to put asks for. -/
structure Asked where
  value : Json
  metadata : Json
  options : PutOptions
  context : Context

/-- What a call to put asks for, if its arguments are in order. -/
def asked (given : Arguments) (context : Json) : Except Failure Asked := do
  let (arguments, context) ← interface.start true "put" given context
  let arguments ← convertAll ((Table.get? interface "put").getD []) arguments
  let value ← arguments.need "value"
  let options ← optionsOf PutOptions.read {} (arguments.value "config")
  return { value := value.value, metadata := arguments.value "metadata", options, context }

/-- The message that a call to put makes, if it comes to that. -/
def message? (q : Queue) (way : Way) (given : Arguments) (context : Json) (site : Site) : Option Message :=
  match ((q.connect (wayOf "put" way)).outcome site).1, asked given context with
  | .ok _, .ok a => some (newMessage site.2.network a.value a.metadata a.options)
  | _, _ => none

theorem leaves_memory_connect (way : Way) : Leaves (fun site : Site => site.1.memory) (q.connect way) := by
  unfold connect
  split
  · exact Leaves.pure _
  · exact fun _ => rfl

/-- Opening the link changes nothing but the link, also if it fails. -/
theorem contents_connect (q : Queue) (way : Way) (site : Site) :
    q.contents ((q.connect way).outcome site).2 = q.contents site :=
  contents_congr (leaves_memory_connect way site) (leaves_host_connect Host.IsQuiet.server way site)

/-- A link that has been opened need not be opened again. -/
theorem connect_again {way : Way} {linked : Site} (h : (q.connect way).outcome site = (.ok (), linked)) :
    ((q.connect way).outcome linked).1 = .ok () := by
  unfold connect at h ⊢
  cases hstorage : q.storage with
  | memory => rfl
  | server address =>
      simp only [hstorage] at h ⊢
      unfold Site.connect Links.ensure at h ⊢
      rw [outcome_onPart, outcome_make] at h ⊢
      dsimp only at h ⊢
      have hopen : linked.1.links.isOpen way = true := by
        cases hwas : site.1.links.isOpen way with
        | true =>
            rw [hwas] at h
            cases h
            exact hwas
        | false =>
            rw [hwas] at h
            cases hrequest : address.request way with
            | error e => simp [hrequest] at h
            | ok call =>
                simp only [hrequest] at h
                cases h
                cases way <;> rfl
      rw [hopen]
      rfl

theorem asked_eq_ok_iff {given : Arguments} {context : Json} {a : Asked} : asked given context = .ok a ↔
    ∃ arguments converted value, interface.start true "put" given context = .ok (arguments, a.context) ∧
      convertAll ((Table.get? interface "put").getD []) arguments = .ok converted ∧
      converted.need "value" = .ok value ∧
      optionsOf PutOptions.read {} (converted.value "config") = .ok a.options ∧
      value.value = a.value ∧ converted.value "metadata" = a.metadata := by
  constructor
  · intro h
    obtain ⟨⟨arguments, context'⟩, hstart, h⟩ := Failure.exists_of_bind_ok h
    obtain ⟨converted, hconverted, h⟩ := Failure.exists_of_bind_ok h
    obtain ⟨value, hvalue, h⟩ := Failure.exists_of_bind_ok h
    obtain ⟨options, hoptions, h⟩ := Failure.exists_of_bind_ok h
    cases h
    exact ⟨arguments, converted, value, hstart, hconverted, hvalue, hoptions, rfl, rfl⟩
  · rintro ⟨arguments, converted, value, hstart, hconverted, hvalue, hoptions, hgiven, hmetadata⟩
    simp only [asked, hstart, hconverted, hvalue, hoptions, hgiven, hmetadata, Bind.bind, Except.bind]
    rfl

theorem run_put (q : Queue) (way : Way) (given : Arguments) : q.run way "put" given = (do
    q.connect (wayOf "put" way)
    let given ← .ofExcept (convertAll ((Table.get? interface "put").getD []) given)
    let value ← .ofExcept (given.need "value")
    match optionsOf PutOptions.read {} (given.value "config") with
    | .ok options => Message.toJson <$> q.put (wayOf "put" way) value.value (given.value "metadata") options
    | .error e =>
      let _ ← Site.newMessage value.value .null {}
      throw e) := rfl

variable {way : Way} {given : Arguments} {context : Json}

/-- A call that comes to no message changes nothing. -/
theorem contents_call_put (h : q.message? way given context site = none) :
    q.contents ((call (some q) way "put" given context).outcome site).2 = q.contents site := by
  show (call (some q) way "put" given context).Meets site fun _ after => q.contents after = q.contents site
  unfold call
  refine Meets.ofExcept_bind (fun ⟨arguments, context'⟩ hstart => ?_) fun _ _ => rfl
  have hrun : (q.run way "put" arguments).Meets site fun _ after => q.contents after = q.contents site := by
    have hconnect : (q.connect (wayOf "put" way)).Meets site fun r linked =>
      r = ((q.connect (wayOf "put" way)).outcome site).1 ∧ q.contents linked = q.contents site :=
        ⟨rfl, contents_connect q _ site⟩
    rw [run_put]
    refine hconnect.bind (fun _ linked hlinked => ?_) fun _ _ hlinked => hlinked.2
    refine Meets.ofExcept_bind (fun converted hconverted => ?_) fun _ _ => hlinked.2
    refine Meets.ofExcept_bind (fun value hvalue => ?_) fun _ _ => hlinked.2
    cases hoptions : optionsOf PutOptions.read {} (converted.value "config") with
    | ok options =>
        have hasked : asked given context =
            .ok ⟨value.value, converted.value "metadata", options, context'⟩ :=
          asked_eq_ok_iff.mpr ⟨_, _, _, hstart, hconverted, hvalue, hoptions, rfl, rfl⟩
        unfold message? at h
        rw [← hlinked.1, hasked] at h
        cases h
    | error e => exact hlinked.2
  exact hrun.bind (fun _ _ hsame => hsame) fun _ _ hsame => hsame

/-- A call that comes to a message stores it, and fails if it may not be handed out. -/
theorem outcome_call_put {m : Message} (h : q.message? way given context site = some m)
    (hnew : site.2.network.issue.1 ∉ (q.contents site).names) : ∃ a after, asked given context = .ok a ∧
      m = newMessage site.2.network a.value a.metadata a.options ∧
      (call (some q) way "put" given context).outcome site =
        (m.accept.map fun m => (m.toJson, a.context), after) ∧
      q.contents after = (q.contents site).add m := by
  rcases hconnect : (q.connect (wayOf "put" way)).outcome site with ⟨_ | _, linked⟩
  · simp [message?, hconnect] at h
  cases hasked : asked given context with
  | error f => simp [message?, hconnect, hasked] at h
  | ok a =>
      simp only [message?, hconnect, hasked, Option.some.injEq] at h
      obtain ⟨arguments, converted, value, hstart, hconverted, hvalue, hoptions, hgiven, hmetadata⟩ :=
        asked_eq_ok_iff.mp hasked
      have hsame : q.contents linked = q.contents site := by
        have hleft := contents_connect q (wayOf "put" way) site
        rwa [hconnect] at hleft
      have hstanding := standing_of_connect hconnect
      have hissue : linked.2.network.issue.1 = site.2.network.issue.1 :=
        congrArg (fun standing : Float × Nat => "msg-" ++ toString (standing.2 + 1)) hstanding
      have hagain : (q.connect (wayOf "put" way)).outcome linked =
          (.ok (), ((q.connect (wayOf "put" way)).outcome linked).2) := Prod.ext (connect_again hconnect) rfl
      obtain ⟨after, hput, hcontents, -⟩ := outcome_put_store hagain (leaves_memory_connect _ linked)
        (leaves_host_connect Host.IsQuiet.server _ linked)
        (leaves_host_connect Host.IsQuiet.standing _ linked) a.value a.metadata a.options
        (by rwa [hissue, hsame])
      rw [newMessage_congr hstanding, h] at hput hcontents
      rw [hsame] at hcontents
      refine ⟨a, after, rfl, h.symm, ?_, hcontents⟩
      have hrun : (q.run way "put" arguments).outcome site = (m.accept.map Message.toJson, after) := by
        rw [run_put, outcome_bind_of_ok hconnect, hconverted, outcome_bind_of_ok (outcome_ofExcept _ _),
          hvalue, outcome_bind_of_ok (outcome_ofExcept _ _), hoptions]
        dsimp only
        rw [outcome_map, hgiven, hmetadata, hput]
      have hbound : interface.start (some q).isSome "put" given context = .ok (arguments, a.context) := hstart
      unfold call
      rw [hbound, outcome_bind_of_ok (outcome_ofExcept _ _)]
      dsimp only
      rw [Option.getD_some, outcome_bind, hrun]
      cases m.accept <;> rfl

theorem Contents.add_ne (c : Contents) (m : Message) : c.add m ≠ c := by
  cases c with
  | memory messages =>
      intro h
      have hready : messages.ready ++ [(m.id, m)] = messages.ready :=
        congrArg Memory.ready (Contents.memory.inj h)
      simp at hready
  | server ready inFlight texts => simp [Contents.add]

/-- A call to put that fails has changed nothing exactly if it came to no message. Otherwise the message is
among those that are ready, and the call failed because it may not be handed out. A later pull that asks for
enough messages fails exactly if this message is there and due, and it fails as the call did. -/
theorem call_put_error {after : Site} (hnew : site.2.network.issue.1 ∉ (q.contents site).names)
    (hfail : (call (some q) way "put" given context).outcome site = (.error e, after)) :
    (q.contents after = q.contents site ↔ q.message? way given context site = none) ∧
    (∀ m, q.message? way given context site = some m →
      m.accept = .error e ∧ q.contents after = (q.contents site).add m) ∧
    ((q.contents site).IsTidy →
      (∀ a, asked given context = .ok a → q.CanStore a.value ∧ q.CanStore a.metadata) →
      ∀ (later : Site) (options : PullOptions) (f : Failure), q.contents later = q.contents after →
        q.isConnected later = true →
        ((q.contents later).ready ++ (q.contents later).inFlight).length ≤ options.limit →
        (((q.pull options).outcome later).1 = .error f ↔
          f = e ∧ ∃ m, q.message? way given context site = some m ∧ m.available ≤ later.2.network.now)) := by
  cases hmessage : q.message? way given context site with
  | none =>
      have hsame : q.contents after = q.contents site := by
        have hcall := contents_call_put hmessage
        rwa [hfail] at hcall
      refine ⟨iff_of_true hsame rfl, nofun, fun htidy _ later options f hlater hlink _ => ?_⟩
      rw [← hsame, ← hlater] at htidy
      obtain ⟨messages, pulled, hpull, -⟩ := outcome_pull_tidy htidy hlink options
      rw [hpull]
      exact iff_of_false nofun fun ⟨_, _, h, _⟩ => nomatch h
  | some m =>
      obtain ⟨a, stored, hasked, hm, hcall, hadded⟩ := outcome_call_put hmessage hnew
      rw [hfail] at hcall
      obtain rfl : after = stored := congrArg Prod.snd hcall
      have hrefused : m.accept = .error e := by
        cases haccept : m.accept with
        | ok sent => simp [haccept, Except.map] at hcall
        | error f =>
            simp only [haccept, Except.map, Prod.mk.injEq, Except.error.injEq] at hcall
            rw [hcall.1]
      refine ⟨iff_of_false (fun hsame => Contents.add_ne _ m (hadded.symm.trans hsame)) nofun, ?_,
        fun htidy hstore later options f hlater hlink hlimit => ?_⟩
      · rintro _ ⟨⟩
        exact ⟨hrefused, hadded⟩
      · obtain ⟨hvalue, hmetadata⟩ := hstore a hasked
        have hkeeps : (q.contents site).Keeps m := hm ▸ keeps_newMessage hvalue hmetadata _ _
        have hname : m.id ∉ (q.contents site).names := by rwa [hm]
        rw [outcome_pull_blocked htidy hname hkeeps hrefused (hlater.trans hadded) hlink hlimit]
        simp

/-- On a server a list is put, which is refused, and a pull fails for it. -/
theorem call_put_error_list : ∃ e after,
    (call (some { storage := .server { url := .str "redis://localhost" } }) .waiting "put"
      [("value", .plain (.arr [.int 1]))] .null).outcome ({}, {}) = (.error e, after) ∧
    ({ storage := .server { url := .str "redis://localhost" } } : Queue).contents after ≠
      ({ storage := .server { url := .str "redis://localhost" } } : Queue).contents ({}, {}) ∧
    ((({ storage := .server { url := .str "redis://localhost" } } : Queue).pull {}).outcome after).1 =
      .error e := by
  have hempty : (({ storage := .server { url := .str "redis://localhost" } } : Queue).contents
    ({}, {})).IsEmpty := ⟨rfl, rfl, rfl⟩
  have htidy := (hempty.isOrderly (1000 : Float)).tidy
  refine ⟨_, _, rfl, ?_⟩
  obtain ⟨hsame, -, hpull⟩ := @call_put_error _ { storage := .server { url := .str "redis://localhost" } }
    ({}, {}) .waiting [("value", .plain (.arr [.int 1]))] .null _ List.not_mem_nil rfl
  refine ⟨fun h => (nomatch hsame.mp h), (hpull htidy ?_ _ {} _ rfl rfl ?_).mpr ⟨rfl, _, rfl, ?_⟩⟩
  · rintro _ ⟨⟩
    exact ⟨fun _ => .arr (List.forall_mem_singleton.mpr (.int 1)), fun _ => .null⟩
  · decide
  · decide +kernel

end Queue

end FactIndex
