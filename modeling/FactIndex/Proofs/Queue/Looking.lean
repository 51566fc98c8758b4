import FactIndex.Proofs.Queue.Delivery

/-!
# Looking at a queue

Asking a queue how many messages it holds should not be noticed by anybody else. On the server it is not: the
numbers are read, and nothing is moved. In memory the messages whose time in flight is over are made ready
first. If there are any, they can no longer be acknowledged, as they could have been without the look.

## Main definitions

* `Queue.answers`, `Queue.reached`: what is answered to requests one after the other, and where they lead.
* `Queue.shown`: everything that later answers depend on.
* `Queue.sameUpTo_perform`: requests do the same at sites that show the same.
* `Queue.HasOverdue`: a message in memory whose time in flight is over.
* `Queue.looking_unnoticed_iff`: when a look goes unnoticed.
-/

namespace FactIndex

open FactIndex.Effect FactIndex.KeyValue

/-- What the server keeps, the time, and how many names have been given. -/
def KeyValue.Host.core (h : Host) : Server × Float × Nat := (h.server, h.network.standing)

/-- A command does the same wherever the server keeps the same at the same time. -/
theorem KeyValue.Host.sameUpTo_send {α : Type} (call : Call) (act : Float → Server → α × Server) :
    SameUpTo Host.core (Host.send call act) (Host.send call act) := by
  intro h h' heq
  simp only [Host.core, Network.standing, Prod.mk.injEq] at heq
  obtain ⟨hserver, hnow, hissued⟩ := heq
  unfold Host.send
  simp only [outcome_make, Host.core, Network.standing, Network.record, hserver, hnow, hissued, and_self]

theorem KeyValue.Host.sameUpTo_upTo (key : String) (limit : Float) (count : Option Int) :
    SameUpTo Host.core (Host.upTo key limit count) (Host.upTo key limit count) := Host.sameUpTo_send _ _

namespace Queue

variable {α : Type} {q : Queue}

/-! ## What a site shows -/

/-- A link can be used if it is open or can be opened. -/
theorem fst_ensure (address : Address) (way : Way) (s : Links × Host) :
    ((Links.ensure address way).outcome s).1 =
      if s.1.isOpen way then .ok () else (address.request way).map fun _ => () := by
  obtain ⟨links, host⟩ := s
  unfold Links.ensure
  rw [outcome_make]
  dsimp only
  cases links.isOpen way with
  | true => rfl
  | false => cases address.request way <;> rfl

/-- A link that is opened could be opened. -/
theorem links_ensure (address : Address) (way : Way) (s : Links × Host) :
    ((Links.ensure address way).outcome s).2.1 = s.1 ∨
      (∃ call, address.request way = .ok call) ∧
        ((Links.ensure address way).outcome s).2.1 = s.1.set way true := by
  obtain ⟨links, host⟩ := s
  unfold Links.ensure
  rw [outcome_make]
  dsimp only
  cases links.isOpen way with
  | true => exact .inl rfl
  | false =>
      cases hrequest : address.request way with
      | error e => exact .inl rfl
      | ok call => exact .inr ⟨⟨call, rfl⟩, rfl⟩

/-- Opening a link, or trying to, makes no other difference to which links can be used. -/
theorem fst_ensure_ensure (address : Address) (way other : Way) (s : Links × Host) :
    ((Links.ensure address other).outcome ((Links.ensure address way).outcome s).2).1 =
      ((Links.ensure address other).outcome s).1 := by
  rw [fst_ensure, fst_ensure]
  rcases links_ensure address way s with hlinks | ⟨⟨call, hcall⟩, hlinks⟩ <;> rw [hlinks]
  by_cases hother : other = way
  · subst hother
    rw [hcall]
    split <;> split <;> rfl
  · have hisOpen : (s.1.set way true).isOpen other = s.1.isOpen other := by
      cases way <;> cases other <;> first | rfl | exact absurd rfl hother
    rw [hisOpen]

/-- Everything that later answers depend on: the messages, the server, the time, and whether links can be
used. Which of them are open already does not matter, and neither does which commands have been sent. -/
def shown (q : Queue) (site : Site) : Memory × (Server × Float × Nat) × (Way → Except Failure Unit) :=
  (site.1.memory, site.2.core, fun way => ((q.connect way).outcome site).1)

/-- Whether a link can be used depends on the links alone. -/
theorem fst_connect_congr {site site' : Site} (h : site.1.links = site'.1.links) (way : Way) :
    ((q.connect way).outcome site).1 = ((q.connect way).outcome site').1 := by
  unfold connect
  cases q.storage with
  | memory => rfl
  | server address =>
      show ((Links.ensure address way).outcome (site.1.links, site.2)).1 =
        ((Links.ensure address way).outcome (site'.1.links, site'.2)).1
      rw [fst_ensure, fst_ensure, h]

/-- Opening a link shows nothing new. -/
theorem leaves_shown_connect (way : Way) : Leaves q.shown (q.connect way) := by
  intro site
  have hcore : ((q.connect way).outcome site).2.2.core = site.2.core :=
    leaves_host_connect (fun _ _ _ => rfl) way site
  unfold shown
  rw [hcore]
  unfold connect
  cases q.storage with
  | memory => rfl
  | server address =>
      refine Prod.ext rfl (Prod.ext rfl (funext fun other => ?_))
      exact fst_ensure_ensure address way other (site.1.links, site.2)

/-- What leaves the server, the time and the names alone shows nothing new. -/
theorem leaves_shown_onHost {x : Effect Host α} (hx : Leaves Host.core x) : Leaves q.shown (Site.onHost x) := by
  intro site
  refine Prod.ext rfl (Prod.ext (hx site.2) (funext fun way => ?_))
  have hlinks : ((Site.onHost x).outcome site).2.1.links = site.1.links := rfl
  exact fst_connect_congr hlinks way

theorem sameUpTo_connect (way : Way) : SameUpTo q.shown (q.connect way) (q.connect way) := by
  intro s t h
  refine ⟨congrFun (congrArg (·.2.2) h) way, ?_⟩
  rw [leaves_shown_connect way s, leaves_shown_connect way t, h]

/-- What is done with the messages, the server, the time and the names, while links stay as they are. -/
theorem sameUpTo_make {f : Site → Except Failure α × Site} (hlinks : ∀ s, (f s).2.1.links = s.1.links)
    (h : ∀ s t, s.1.memory = t.1.memory → s.2.core = t.2.core →
      (f s).1 = (f t).1 ∧ (f s).2.1.memory = (f t).2.1.memory ∧ (f s).2.2.core = (f t).2.2.core) :
    SameUpTo q.shown (Effect.make f) (Effect.make f) := by
  intro s t hshown
  simp only [shown, Prod.mk.injEq] at hshown
  obtain ⟨hmemory, hcore, hconnect⟩ := hshown
  obtain ⟨hanswer, hmemory', hcore'⟩ := h s t hmemory hcore
  refine ⟨hanswer, ?_⟩
  simp only [outcome_make, shown, Prod.mk.injEq]
  refine ⟨hmemory', hcore', funext fun way => ?_⟩
  rw [fst_connect_congr (hlinks s), fst_connect_congr (hlinks t)]
  exact congrFun hconnect way

theorem sameUpTo_onMemory (f : Memory → Float → Except Failure α × Memory) :
    SameUpTo q.shown (Site.onMemory f) (Site.onMemory f) := by
  refine sameUpTo_make (fun _ => rfl) fun s t hmemory hcore => ?_
  have hnow : s.2.network.now = t.2.network.now := congrArg (·.2.1) hcore
  dsimp only
  rw [hmemory, hnow]
  exact ⟨rfl, rfl, hcore⟩

theorem sameUpTo_onHost {x : Effect Host α} (hx : SameUpTo Host.core x x) :
    SameUpTo q.shown (Site.onHost x) (Site.onHost x) :=
  sameUpTo_make (fun _ => rfl) fun _ _ hmemory hcore => ⟨(hx _ _ hcore).1, hmemory, (hx _ _ hcore).2⟩

theorem sameUpTo_now : SameUpTo q.shown Site.now Site.now :=
  sameUpTo_make (fun _ => rfl) fun _ _ hmemory hcore =>
    ⟨congrArg (fun core : Server × Float × Nat => Except.ok core.2.1) hcore, hmemory, hcore⟩

theorem sameUpTo_newMessage (value metadata : Json) (options : PutOptions) :
    SameUpTo q.shown (Site.newMessage value metadata options) (Site.newMessage value metadata options) := by
  refine sameUpTo_make (fun _ => rfl) fun s t hmemory hcore => ?_
  simp only [Host.core, Network.standing, Prod.mk.injEq] at hcore
  obtain ⟨hserver, hnow, hissued⟩ := hcore
  simp only [Host.core, Network.standing, Network.issue, hserver, hnow, hissued, hmemory, and_self]

/-! ## Requests -/

theorem sameUpTo_put (way : Way) (value metadata : Json) (options : PutOptions) :
    SameUpTo q.shown (q.put way value metadata options) (q.put way value metadata options) := by
  refine (sameUpTo_connect way).bind fun _ => (sameUpTo_newMessage _ _ _).bind fun message => ?_
  dsimp only
  cases q.storage with
  | memory => exact (sameUpTo_onMemory _).bind fun _ => SameUpTo.ofExcept _
  | server address =>
      exact (sameUpTo_onHost ((Host.sameUpTo_send _ _).bind fun _ => Host.sameUpTo_send _ _)).bind fun _ =>
        SameUpTo.ofExcept _

theorem sameUpTo_releaseOnServer (now : Float) :
    SameUpTo Host.core (q.releaseOnServer now) (q.releaseOnServer now) := by
  unfold releaseOnServer
  refine (Host.sameUpTo_upTo _ _ _).bind fun ids => (SameUpTo.forIn (fun id => ?_) ids).bind fun _ =>
    SameUpTo.pure _
  refine (Host.sameUpTo_send _ _).bind fun found => ?_
  cases found with
  | false => exact SameUpTo.pure _
  | true => exact (Host.sameUpTo_send _ _).bind fun _ => SameUpTo.pure _

theorem sameUpTo_sendOnServer (visibleAt : Float) (id : String) :
    SameUpTo Host.core (q.sendOnServer visibleAt id) (q.sendOnServer visibleAt id) := by
  refine (Host.sameUpTo_send _ _).bind fun found => ?_
  cases found with
  | false => exact SameUpTo.pure _
  | true =>
      refine (Host.sameUpTo_send _ _).bind fun _ => (Host.sameUpTo_send _ _).bind fun text => ?_
      cases text with
      | none => exact (Host.sameUpTo_send _ _).bind fun _ => SameUpTo.pure _
      | some text =>
          dsimp only
          split
          · exact SameUpTo.throw _
          · exact (Host.sameUpTo_send _ _).bind fun _ => (SameUpTo.ofExcept _).map _

theorem sameUpTo_pull (options : PullOptions) : SameUpTo q.shown (q.pull options) (q.pull options) := by
  refine (sameUpTo_connect _).bind fun _ => ?_
  unfold beforePull
  dsimp only
  cases q.storage with
  | memory => exact sameUpTo_onMemory _
  | server address =>
      refine SameUpTo.bind (sameUpTo_now.bind fun now => sameUpTo_onHost (sameUpTo_releaseOnServer now)) fun _ =>
        sameUpTo_now.bind fun now => sameUpTo_onHost ?_
      exact (Host.sameUpTo_upTo _ _ _).bind fun ids => SameUpTo.filterMapM (sameUpTo_sendOnServer _) ids

theorem sameUpTo_ack (way : Way) (id : Json) : SameUpTo q.shown (q.ack way id) (q.ack way id) := by
  refine (sameUpTo_connect way).bind fun _ => ?_
  dsimp only
  cases q.storage with
  | memory =>
      dsimp only
      split
      · refine (sameUpTo_onMemory _).bind fun found => ?_
        cases found with
        | false => exact SameUpTo.throw _
        | true => exact SameUpTo.pure _
      · exact SameUpTo.throw _
      · exact SameUpTo.throw _
      · exact SameUpTo.throw _
  | server address =>
      refine (sameUpTo_onHost (Host.sameUpTo_send _ _)).bind fun found => ?_
      cases found with
      | false => exact SameUpTo.throw _
      | true => exact sameUpTo_onHost (Host.sameUpTo_send _ _)

theorem sameUpTo_info : SameUpTo q.shown q.info q.info := by
  refine (sameUpTo_connect _).bind fun _ => ?_
  cases q.storage with
  | memory => exact sameUpTo_onMemory _
  | server address =>
      refine sameUpTo_now.bind fun now => sameUpTo_onHost ?_
      exact (Host.sameUpTo_send _ _).bind fun _ => (Host.sameUpTo_send _ _).bind fun _ =>
        (Host.sameUpTo_send _ _).bind fun _ => SameUpTo.pure _

theorem sameUpTo_purge : SameUpTo q.shown q.purge q.purge := by
  refine (sameUpTo_connect _).bind fun _ => ?_
  cases q.storage with
  | memory => exact sameUpTo_onMemory _
  | server address => exact (sameUpTo_onHost (Host.sameUpTo_send _ _)).bind fun _ => SameUpTo.pure _

/-- Whatever is asked, the same is done at sites that show the same. -/
theorem sameUpTo_perform (request : Request) : SameUpTo q.shown (q.perform request) (q.perform request) := by
  cases request with
  | put way value metadata options => exact (sameUpTo_put way value metadata options).map _
  | pull options => exact (sameUpTo_pull options).map _
  | ack way id => exact (sameUpTo_ack way (.str id)).map _
  | info => exact sameUpTo_info.map _
  | purge => exact sameUpTo_purge.map _
  | wait seconds =>
      refine sameUpTo_make (fun _ => rfl) fun s t hmemory hcore => ⟨rfl, hmemory, ?_⟩
      exact congrArg (fun core : Server × Float × Nat => (core.1, core.2.1 + seconds, core.2.2)) hcore

/-! ## Runs -/

/-- What is answered to requests, one after the other. -/
def answers (q : Queue) : List Request → Site → List (Except Failure Answer)
  | [], _ => []
  | request :: rest, site =>
    ((q.perform request).outcome site).1 :: q.answers rest ((q.perform request).outcome site).2

/-- Where requests lead, one after the other. -/
def reached (q : Queue) (requests : List Request) (site : Site) : Site :=
  requests.foldl (fun site request => ((q.perform request).outcome site).2) site

theorem length_answers (requests : List Request) (site : Site) :
    (q.answers requests site).length = requests.length := by
  induction requests generalizing site with
  | nil => rfl
  | cons request rest ih => exact congrArg (· + 1) (ih _)

theorem answers_append (before after : List Request) (site : Site) :
    q.answers (before ++ after) site = q.answers before site ++ q.answers after (q.reached before site) := by
  induction before generalizing site with
  | nil => rfl
  | cons request rest ih => exact congrArg (_ :: ·) (ih _)

/-- At sites that show the same, the same is answered to all requests. -/
theorem answers_congr (requests : List Request) {site site' : Site} (h : q.shown site = q.shown site') :
    q.answers requests site = q.answers requests site' := by
  induction requests generalizing site site' with
  | nil => rfl
  | cons request rest ih =>
      obtain ⟨hanswer, hshown⟩ := sameUpTo_perform request site site' h
      exact congrArg₂ (· :: ·) hanswer (ih hshown)

/-! ## Looking -/

/-- A message is in flight in memory whose time is over. -/
def HasOverdue (q : Queue) (site : Site) : Prop :=
  q.storage = .memory ∧ ∃ entry ∈ site.1.memory.inFlight, entry.2.visibleAt ≤ site.2.network.now

instance (q : Queue) (site : Site) : Decidable (q.HasOverdue site) := inferInstanceAs (Decidable (_ ∧ _))

/-- A look in memory makes ready the messages whose time in flight is over. -/
theorem snd_info_memory (hstorage : q.storage = .memory) (site : Site) :
    ((q.perform .info).outcome site).2 =
      ({ site.1 with memory := site.1.memory.release site.2.network.now }, site.2) := by
  unfold perform
  rw [outcome_map]
  unfold info connect
  simp only [hstorage]
  rfl

/-- A look on the server shows nothing new. -/
theorem leaves_shown_info {address : Address} (hstorage : q.storage = .server address) :
    Leaves q.shown (q.perform .info) := by
  unfold perform
  refine Leaves.map _ ?_
  unfold info
  simp only [hstorage]
  refine (leaves_shown_connect _).bind fun _ => Leaves.bind (fun _ => rfl) fun now => leaves_shown_onHost ?_
  exact Leaves.bind (fun _ => rfl) fun _ => Leaves.bind (fun _ => rfl) fun _ =>
    Leaves.bind (fun _ => rfl) fun _ => Leaves.pure _

/-- Without such a message, a look moves nothing. -/
theorem shown_info {site : Site} (h : ¬ q.HasOverdue site) :
    q.shown ((q.perform .info).outcome site).2 = q.shown site := by
  cases hstorage : q.storage with
  | memory =>
      have hnone : (site.1.memory.inFlight.filter fun f => f.2.visibleAt ≤ site.2.network.now) = [] := by
        rw [List.filter_eq_nil_iff]
        intro entry hentry hover
        exact h ⟨hstorage, entry, hentry, of_decide_eq_true hover⟩
      rw [snd_info_memory hstorage]
      unfold Memory.release
      rw [hnone]
      rfl
  | server address => exact leaves_shown_info hstorage site

/-- The messages made ready are in flight no more, whichever entries bear their names. -/
theorem Memory.mem_keys_release {m : Memory} {now : Float} {id : String} :
    id ∈ (m.release now).inFlight.keys ↔
      id ∈ m.inFlight.keys ∧ ∀ entry ∈ m.inFlight, entry.2.visibleAt ≤ now → entry.1 ≠ id := by
  have hfold : ∀ (expired : Table String Flight) (m : Memory), id ∈ (expired.foldl (fun m f =>
      makeReady { m with inFlight := m.inFlight.erase f.1 } f.2.message) m).inFlight.keys ↔
      id ∈ m.inFlight.keys ∧ ∀ entry ∈ expired, entry.1 ≠ id := by
    intro expired
    induction expired with
    | nil => simp
    | cons entry rest ih =>
        intro m
        rw [List.foldl_cons, ih]
        show id ∈ (m.inFlight.erase entry.1).keys ∧ _ ↔ _
        rw [Table.keys_erase, List.mem_filter]
        rw [decide_eq_true_eq, ne_comm, List.forall_mem_cons, and_assoc]
  unfold release
  rw [hfold]
  simp only [List.mem_filter, decide_eq_true_eq, and_imp]

/-- An acknowledgement in memory succeeds exactly if the message is in flight. -/
theorem fst_ack_memory (hstorage : q.storage = .memory) (way : Way) (id : String) (site : Site) :
    ((q.perform (.ack way id)).outcome site).1 =
      if site.1.memory.inFlight.has id then .ok .done else .error (notInFlight (.str id)) := by
  have hack : (Site.onMemory fun m _ => (.ok (m.ack id).1, (m.ack id).2)).outcome site =
      (.ok (site.1.memory.inFlight.has id), { site.1 with memory := (site.1.memory.ack id).2 }, site.2) := rfl
  have hconnect : (q.connect way).outcome site = (.ok (), site) := by
    unfold connect
    simp only [hstorage]
    rfl
  unfold perform
  rw [outcome_map]
  unfold ack
  rw [outcome_bind_of_ok hconnect]
  simp only [hstorage]
  rw [outcome_bind_of_ok hack]
  cases site.1.memory.inFlight.has id <;> rfl

/-- The number of messages was asked for in the course of a run. All other requests of the run are answered as
they would have been without that, whatever was asked afterwards, if and only if no message was in flight in
memory whose time was over. -/
theorem looking_unnoticed_iff (q : Queue) (before : List Request) (site : Site) :
    (∀ after, (q.answers (before ++ .info :: after) site).eraseIdx before.length =
      q.answers (before ++ after) site) ↔ ¬ q.HasOverdue (q.reached before site) := by
  let looked := ((q.perform .info).outcome (q.reached before site)).2
  have hrest (after : List Request) : (q.answers (before ++ .info :: after) site).eraseIdx before.length =
      q.answers (before ++ after) site ↔ q.answers after looked = q.answers after (q.reached before site) := by
    rw [answers_append, List.eraseIdx_append_of_length_le (by rw [length_answers]), length_answers,
      Nat.sub_self, answers_append]
    rw [List.append_cancel_left_eq]
    rfl
  simp only [hrest]
  constructor
  · rintro h ⟨hstorage, ⟨id, flight⟩, hmem, hover⟩
    -- the message can be acknowledged without the look, and not after it
    let there := q.reached before site
    have hlooked : looked.1.memory = there.1.memory.release there.2.network.now :=
      congrArg (·.1.memory) (snd_info_memory hstorage there)
    have hthere : there.1.memory.inFlight.has id = true := Table.has_iff.mpr (List.mem_map_of_mem hmem)
    have hgone : looked.1.memory.inFlight.has id = false := by
      rw [hlooked, Bool.eq_false_iff, Ne, Table.has_iff, Memory.mem_keys_release]
      exact fun hstill => hstill.2 (id, flight) hmem hover rfl
    have hack := congrArg (·.head?) (h [.ack .waiting id])
    simp only [answers, List.head?_cons, Option.some.injEq] at hack
    rw [fst_ack_memory hstorage, fst_ack_memory hstorage, hthere, hgone] at hack
    cases hack
  · intro h after
    exact answers_congr after (shown_info h)

/-- A job that was handed out for half a minute, one second later. -/
example : ({ hidden := 30 } : Queue).HasOverdue (({ hidden := 30 } : Queue).reached
    [.put .waiting (.str "job") .null {}, .pull {}, .wait 31] ({}, {})) := by decide +kernel

end Queue

end FactIndex
