import FactIndex.Proofs.Compile.Pursuit
import FactIndex.Proofs.Lookup.Exact
import FactIndex.Proofs.Store.Loss

/-!
# Queries that are repeated after losses

A query of which requests have been lost leaves nothing behind that would be in the way of asking it again.
When the engine is back it is answered as if nothing had been lost: the same last request is sent, and what
is made of its answer is the same.

## Main definitions

* `World.resumed`: a world in which the engine is back later on.
* `Deployment.prepare_follows`: a search that is prepared twice.
* `Deployment.Comeback`: a query is asked, requests are lost, and it is asked again.
-/

namespace FactIndex

open FactIndex.Effect

variable {σ : Type} {d : Deployment σ} {w : World σ}

/-! ## The engine is back -/

/-- The world in which the search engine is back at a time. -/
def World.resumed (w : World σ) (engine : σ) (now : Float) : World σ :=
  { w with engine, host.network.now := now }

/-- As time passes, what is remembered is forgotten. -/
theorem World.recalled_of_resumed {engine : σ} {now : Float} (hle : w.host.network.now ≤ now) {key : String}
    {found : Except Failure Json} (h : (w.resumed engine now).recalled d key = some found) :
    w.recalled d key = some found := by
  obtain ⟨full, hfull⟩ := d.cache.exists_fullKey key
  have hentry : d.cache.entry ((w.resumed engine now).cache, (w.resumed engine now).host) full =
      d.cache.entry (w.cache, w.host) full := by
    unfold Cache.entry
    cases d.cache.storage <;> rfl
  have hserved : ∀ content, d.cache.served ((w.resumed engine now).cache, (w.resumed engine now).host) full =
      some content → d.cache.served (w.cache, w.host) full = some content := by
    intro content hcontent
    rw [Cache.served_eq, Cache.fresh_of_le hentry hle] at hcontent
    rw [Cache.served_eq]
    cases hfresh : d.cache.fresh (w.cache, w.host) full with
    | none => simp [hfresh] at hcontent
    | some e =>
        rw [hfresh, Option.filter_some] at hcontent
        split at hcontent
        · exact hcontent
        · cases hcontent
  unfold recalled at h ⊢
  rw [hfull] at h ⊢
  dsimp only at h ⊢
  cases hlater : d.cache.served ((w.resumed engine now).cache, (w.resumed engine now).host) full with
  | none =>
      rw [hlater] at h
      cases h
  | some content =>
      rw [hlater] at h
      rwa [hserved content hlater]

theorem World.reachesCache_resumed {engine : σ} {now : Float} :
    (w.resumed engine now).ReachesCache d ↔ w.ReachesCache d := by
  unfold ReachesCache Cache.view
  cases d.cache.storage <;> exact Iff.rfl

theorem World.behind_resumed {engine : σ} {now : Float} (hle : w.host.network.now ≤ now) :
    (w.resumed engine now).Behind d w :=
  ⟨.refl, fun _ _ => recalled_of_resumed hle, reachesCache_resumed.mp⟩

/-- The last request that has been sent to the search engine since, if any. -/
def World.lastSent (w v : World σ) : Option Call :=
  (v.requests.take (v.requests.length - w.requests.length)).head?

theorem World.lastSent_of_eq {v : World σ} (h : v.requests = w.requests) : w.lastSent v = none := by
  simp [lastSent, h]

theorem World.lastSent_asked {v : World σ} (h : w.requests <:+ v.requests) (r : Request) :
    w.lastSent (v.asked d r) = some r.call := by
  have hlt : 0 < (v.requests.length + 1) - w.requests.length := by
    have hle := h.length_le
    omega
  unfold lastSent
  rw [requests_asked, List.length_cons, List.head?_take, if_neg (Nat.ne_of_gt hlt)]
  rfl

/-! ## An engine that loses requests by a plan -/

/-- An engine with fixed answers that loses requests by a plan. -/
structure Relay where
  /-- Which of the next requests are lost. All others get through. -/
  plan : List Bool := []
  lost : Nat := 0

namespace Relay

/-- The answer to a search that finds some numbers, or is refused. -/
def found : Option (List Int) → Except ClientError Json
  | some ids => .ok (Archive.report ids ids.length)
  | none => .error (.refused 400 (.str "too_many_clauses") none)

/-- The answer to a request. -/
def reply (search : Members → Option (List Int)) : Request → Except ClientError Json
  | .ping => .ok (.bool true)
  | .search _ options => found (search options)
  | .count _ _ => .ok (.single "count" (.int 2))
  | _ => .ok (.obj [])

/-- The answer to a request, or that it is lost. -/
def answer (search : Members → Option (List Int)) (r : Request) (s : Relay) :
    Except ClientError Json × Relay :=
  match s.plan with
  | true :: rest => (.error .connection, ⟨rest, s.lost + 1⟩)
  | false :: rest => (reply search r, ⟨rest, s.lost⟩)
  | [] => (reply search r, s)

/-- A store that uses such an engine, and keeps everything else in memory. -/
def deployment (settings : Settings) (search : Members → Option (List Int)) : Deployment Relay where
  settings := settings
  client := ⟨answer search⟩
  cache := {}
  queue := {}

theorem fits_report (ids : List Int) : Json.Fits 5 (Archive.report ids ids.length) := by
  have hnames : ∀ name ∈ (ids.take (ids.length : Int).toNat).map fun n =>
      Json.single "_id" (.str (toString n)), Json.Fits 2 name :=
    List.forall_mem_map.mpr fun n _ => .single "_id" (.str _)
  have hkeys : (Table.keys [("total", Json.single "value" (.int ids.length)),
      ("hits", Json.arr ((ids.take (ids.length : Int).toNat).map fun n =>
        Json.single "_id" (.str (toString n))))]).Nodup := by simp [Table.keys]
  refine .single "hits" (.obj hkeys ?_)
  exact List.forall_mem_cons.mpr ⟨.single "value" (.int _),
    List.forall_mem_singleton.mpr (.arr hnames)⟩

/-- The index of such an engine never changes. -/
def line (settings : Settings) (search : Members → Option (List Int)) : Line (deployment settings search) where
  steady _ := True
  steady_send _ _ := trivial
  reply := reply search
  lost := Relay.lost
  send {r s} _ _ := by
    show ((answer search r s).2.lost = s.lost ∧ (answer search r s).1 = reply search r) ∨
      (s.lost < (answer search r s).2.lost ∧ r.isLost (answer search r s).1 = true)
    unfold answer
    split
    · exact .inr ⟨Nat.lt_succ_self _, rfl⟩
    · exact .inl ⟨rfl, rfl⟩
    · exact .inl ⟨rfl, rfl⟩
  through r := by
    cases r with
    | search _ options =>
        show Request.isLost _ (found (search options)) = false
        cases search options <;> rfl
    | _ => rfl
  pings := ⟨_, rfl⟩
  stores _ _ := ⟨_, rfl⟩
  refreshes := ⟨_, rfl⟩
  fits r answer h := by
    have hsmall : Json.Fits 5 answer := by
      cases r with
      | search _ options =>
          have hfound : found (search options) = .ok answer := h
          cases hids : search options with
          | some ids =>
              rw [hids] at hfound
              cases hfound
              exact fits_report ids
          | none =>
              rw [hids] at hfound
              cases hfound
      | ping =>
          cases h
          exact .bool _
      | count =>
          cases h
          exact .single "count" (.int _)
      | _ =>
          cases h
          exact .obj List.nodup_nil (List.forall_mem_nil _)
    exact hsmall.mono (by decide)

/-- Once the plan is through, nothing more is lost. -/
theorem isUp_line (settings : Settings) (search : Members → Option (List Int)) (lost : Nat) :
    (line settings search).IsUp ⟨[], lost⟩ := by
  refine ⟨trivial, fun requests h => ?_⟩
  induction requests with
  | nil => rfl
  | cons r rest ih => exact ih (List.forall_mem_cons.mp h).2

end Relay

namespace Deployment

open Compiling

variable {L : Line d} {q : Query} {s : Search} {u v e : World σ}

/-! ## Preparing a search twice -/

/-- What is said about the search does not depend on the records of lookups. -/
theorem searchOf_of_akin {found : Sorting × Option Json × String} {p p' : Progress} (h : Akin p p') :
    d.searchOf q (found, p') =
      { d.searchOf q (found, p) with records := (d.searchOf q (found, p')).records } := by
  have hdefects : p'.defects = p.defects := (congrArg Progress.defects h).symm
  have hnodes : p'.nodes = p.nodes := (congrArg Progress.nodes h).symm
  unfold searchOf
  dsimp only
  rw [hdefects, hnodes]

theorem prepare_follows (P : Pursuit L) (hbase : P.base u v) (h : (d.prepare q).outcome u = (.ok s, e))
    (hfine : ∀ records : List Members, records.map Json.obj <+: s.records → P.fine e records) :
    (∃ s' v', (d.prepare q).outcome v = (.ok s', v') ∧ s' = { s with records := s'.records } ∧
        P.base e v') ∨
      ∃ text v', (d.prepare q).outcome v = (.error (.unavailable text), v') ∧ P.passed e v' := by
  rw [prepare_eq, outcome_map, outcome_start] at h
  obtain ⟨⟨found, p⟩, hfound, rfl⟩ := exists_of_map_ok (Prod.mk.inj h).1
  obtain ⟨found, hrun, heq⟩ := exists_of_map_ok hfound
  cases heq
  have hrun : (d.preparing q).outcome (u, {}) = (.ok found, (e, ((d.preparing q).outcome (u, {})).2.2)) :=
    Prod.ext hrun (Prod.ext (Prod.mk.inj h).2 rfl)
  have hfollows := (d.isBuilt_preparing q).follows P (s := (u, {})) (t := (v, {})) hbase rfl hrun
    (hfine _ (List.prefix_append _ _))
  rw [prepare_eq, outcome_map, outcome_start]
  rcases hfollows with ⟨⟨v', p'⟩, hv, hbase', hakin⟩ | ⟨text, ⟨v', p'⟩, hv, hpassed⟩ <;> rw [hv]
  · exact .inl ⟨_, v', rfl, searchOf_of_akin hakin, hbase'⟩
  · exact .inr ⟨text, v', rfl, hpassed⟩

/-! ## Answers of an engine that is up -/

theorem isUp_pinged (hup : L.IsUp w.engine) :
    L.IsUp (d.pinged w).engine ∧ L.lost (d.pinged w).engine = L.lost w.engine := by
  unfold pinged
  split
  · exact ⟨hup.sent .ping, hup.lost_eq .ping⟩
  · exact ⟨hup, rfl⟩

theorem outcome_answer_of_isUp {query : Argument} (hquery : Query.read false query.value = .ok q)
    (hup : L.IsUp w.engine) : (d.answer query).outcome w = (d.execute q).outcome (d.pinged w) := by
  obtain ⟨hpinged, hlost⟩ := isUp_pinged hup
  have hexecute := ((carries_execute L q _ hpinged.1).isUp hpinged).2
  rcases outcome_answer L hquery hup.1 with ⟨-, -, hanswer⟩ | ⟨hgrown, -⟩
  · exact hanswer
  · exact absurd (hexecute.trans hlost) (Nat.ne_of_gt hgrown)

/-- Once a search has been prepared, only its answer matters. -/
theorem outcome_execute_of_prepare (hidle : q.idleAnswer = none) (h : (d.prepare q).outcome u = (.ok s, e))
    (hup : L.IsUp e.engine) : (d.execute q).outcome u =
      (ofAnswer q s e.catalog (L.reply (finalRequest q s)), e.asked d (finalRequest q s)) := by
  rw [execute_eq, hidle]
  dsimp only
  rw [outcome_bind_of_ok h, outcome_finish, hup.answer_eq (asks_finalRequest (index_of_prepare h))]

theorem exists_of_execute_ok (hidle : q.idleAnswer = none) (hup : L.IsUp u.engine) {result : QueryResult}
    (h : (d.execute q).outcome u = (.ok result, v)) : ∃ s e, (d.prepare q).outcome u = (.ok s, e) ∧
      L.IsUp e.engine ∧ ofAnswer q s e.catalog (L.reply (finalRequest q s)) = .ok result ∧
      v = e.asked d (finalRequest q s) := by
  have hprepare := carries_prepare L q u hup.1
  rcases hr : (d.prepare q).outcome u with ⟨failure | s, e⟩
  · rw [execute_eq, hidle] at h
    dsimp only at h
    rw [outcome_bind_of_error hr] at h
    cases h
  · have hup' := ((hprepare.of_outcome hr).isUp hup).1
    rw [outcome_execute_of_prepare hidle hr hup'] at h
    exact ⟨s, e, rfl, hup', (Prod.mk.inj h).1, (Prod.mk.inj h).2.symm⟩

/-- But for the records of lookups, what is made of an answer is the same. -/
theorem ofAnswer_of_like {c : Catalog} {answer : Except ClientError Json} {s' : Search} {result : QueryResult}
    (hs : s' = { s with records := s'.records }) (h : ofAnswer q s c answer = .ok result) :
    ∃ result', ofAnswer q s' c answer = .ok result' ∧
      result' = { result with trace := result'.trace, info := result'.info } := by
  rw [hs]
  generalize s'.records = records
  unfold ofAnswer at h ⊢
  cases hmode : q.mode with
  | debug =>
      rw [hmode] at h
      obtain ⟨verdict, hverdict, h⟩ := Failure.exists_of_bind_ok h
      cases h
      dsimp only
      rw [hverdict]
      exact ⟨_, rfl, rfl⟩
  | count =>
      rw [hmode] at h
      obtain ⟨⟨count, errors⟩, hcount, h⟩ := Failure.exists_of_bind_ok h
      cases h
      dsimp only
      rw [hcount]
      exact ⟨_, rfl, rfl⟩
  | instances | none =>
      rw [hmode] at h
      obtain ⟨⟨answer, errors⟩, hanswer, h⟩ := Failure.exists_of_bind_ok h
      obtain ⟨found, hfound, h⟩ := Failure.exists_of_bind_ok h
      cases h
      dsimp only
      rw [hanswer]
      dsimp only [Bind.bind, Except.bind]
      rw [hfound]
      exact ⟨_, rfl, rfl⟩

theorem finalRequest_of_like {s' : Search} (hs : s' = { s with records := s'.records }) :
    finalRequest q s' = finalRequest q s := by
  rw [hs]
  rfl

/-! ## What is left of a query -/

variable {query : Argument}

/-- After a query the world is later, and what has been asked here is all that has happened to it. -/
theorem exists_of_answer (hquery : Query.read false query.value = .ok q) (hw : L.steady w.engine) :
    ∃ u, (u = d.pinged w ∨ u = ((d.execute q).outcome (d.pinged w)).2) ∧
      ((d.answer query).outcome w).2.prospect d = u.prospect d := by
  rcases outcome_answer L hquery hw with ⟨-, -, hanswer⟩ | ⟨-, hanswer⟩
  · exact ⟨_, .inr rfl, by rw [hanswer]⟩
  · cases hspare : d.spare with
    | some result =>
        rw [hspare] at hanswer
        obtain ⟨u, hu, -, hanswer⟩ := hanswer
        exact ⟨u, hu, by rw [hanswer, World.prospect_elsewhere]⟩
    | none =>
        rw [hspare] at hanswer
        obtain ⟨text, hanswer⟩ := hanswer
        exact ⟨_, .inr rfl, by rw [hanswer]⟩

theorem leads_answer (hquery : Query.read false query.value = .ok q) (hw : L.steady w.engine) :
    L.Leads w ((d.answer query).outcome w).2 := by
  obtain ⟨u, hu, hprospect⟩ := exists_of_answer hquery hw
  have hpinged := leads_pinged L hw
  have hexecute := hpinged.trans (carries_execute L q _ hpinged.steady).leads
  rcases hu with rfl | rfl
  · exact hpinged.trans (.of_prospect hpinged.steady hprospect)
  · exact hexecute.trans (.of_prospect hexecute.steady hprospect)

theorem pinged_eq_setEngine (w : World σ) (up : σ) :
    d.pinged w = { d.pinged { w with engine := up } with engine := (d.pinged w).engine } := by
  unfold pinged
  split <;> rfl

/-- What is left of a query lies behind what an undisturbed one has prepared. -/
theorem behind_of_answer (hquery : Query.read false query.value = .ok q) (hw : L.steady w.engine) {up : σ}
    (hup : L.IsUp up) (hidle : q.idleAnswer = none)
    (h : (d.prepare q).outcome (d.pinged { w with engine := up }) = (.ok s, e)) :
    ((d.answer query).outcome w).2.Behind d e := by
  have hpinged := isUp_pinged (w := { w with engine := up }) hup
  have hsteady := (leads_pinged L hw).steady
  have hengine := pinged_eq_setEngine (d := d) w up
  have hlater := ((carries_prepare L q _ hpinged.1.1).of_outcome h).leads.toBehind
  have hstart : (d.pinged w).Behind d e := by
    rw [hengine]
    exact ⟨hlater.catalog, hlater.recalled, hlater.reachesCache⟩
  have hexecute : ((d.execute q).outcome (d.pinged w)).2.Behind d e := by
    rw [execute_eq, hidle]
    dsimp only
    rcases prepare_follows (interruption L) (v := d.pinged w) ⟨hpinged.1, hsteady, hengine⟩ h
      (fun _ _ => trivial) with ⟨s', v', hv, -, -, -, hv'⟩ | ⟨text, v', hv, hpassed⟩
    · rw [outcome_bind_of_ok hv, outcome_finish, hv']
      exact ⟨.refl, fun key found hfound => by rwa [World.recalled_asked] at hfound,
        fun hlinked => (World.reachesCache_asked _).mp hlinked⟩
    · rw [outcome_bind_of_error hv]
      exact hpassed
  obtain ⟨u, hu, hprospect⟩ := exists_of_answer hquery hw
  have hbehind := (World.Later.of_prospect hprospect.symm).toBehind
  rcases hu with rfl | rfl
  · exact hbehind.trans hstart
  · exact hbehind.trans hexecute

/-- A ping is no reason to recall more or less. -/
theorem behind_pinged : (d.pinged u).Behind d u ∧ u.Behind d (d.pinged u) := by
  unfold pinged
  split
  · exact ⟨⟨.refl, fun key found hfound => by rwa [World.recalled_asked] at hfound,
      (World.reachesCache_asked _).mp⟩, ⟨.refl, fun key found hfound => by rwa [World.recalled_asked],
      (World.reachesCache_asked _).mpr⟩⟩
  · exact ⟨.refl d u, .refl d u⟩

/-! ## Asking again -/

/-- A query has been asked, and it is asked again later on when the engine is back. Nothing is lost then, and
would have been on another engine that might have been asked in the first place. What was remembered before
the first query still is, and what is remembered lasts for a moment at least. No lookup is refused. -/
structure Comeback (L : Line d) (q : Query) (query : Argument) (w : World σ) (up back : σ) (now : Float) :
    Prop where
  isUp : L.IsUp up
  isBack : L.IsUp back
  le : w.host.network.now ≤ now
  lasts : LastsAt d w.host.network.now
  stillLasts : LastsAt d now
  isFiled : w.catalog.IsFiled
  remembers : ∀ key found, w.recalled d key = some found →
    (((d.answer query).outcome w).2.resumed back now).recalled d key = some found
  accepted : ∀ s v, (d.prepare q).outcome (d.pinged { w with engine := up }) = (.ok s, v) →
    ∀ record ∈ s.records, record.get? "errors" = none

variable {up back : σ} {now : Float} {result : QueryResult}

/-- A search that has been prepared is prepared again. -/
theorem Comeback.exists_prepare (hc : Comeback L q query w up back now)
    (hquery : Query.read false query.value = .ok q) (hw : L.steady w.engine) (hidle : q.idleAnswer = none)
    (h : (d.prepare q).outcome (d.pinged { w with engine := up }) = (.ok s, e)) : ∃ s' v,
      (d.prepare q).outcome (d.pinged (((d.answer query).outcome w).2.resumed back now)) = (.ok s', v) ∧
        s' = { s with records := s'.records } ∧ L.IsUp v.engine ∧ v.catalog = e.catalog := by
  have hleads := leads_answer hquery hw
  have hafter := behind_of_answer hquery hw hc.isUp hidle h
  let start : World σ := { w with engine := up }
  let again := ((d.answer query).outcome w).2.resumed back now
  have hstart := leads_pinged L (w := start) hc.isUp.1
  have hnow : (d.pinged again).host.network.now = now := (leads_pinged L (w := again) hc.isBack.1).now
  have hahead : start.Behind d again := ⟨hleads.catalog, hc.remembers, fun hlinked =>
    World.reachesCache_resumed.mpr (hleads.reachesCache hlinked)⟩
  let P : Pursuit L := repetition L e (hstart.now ▸ hc.lasts) hc.stillLasts
  have hbase : P.base (d.pinged start) (d.pinged again) :=
    ⟨hstart.steady, (isUp_pinged hc.isBack).1, (behind_pinged.1.trans hahead).trans behind_pinged.2,
      behind_pinged.1.trans ((World.behind_resumed (hleads.now ▸ hc.le)).trans hafter),
      hc.isFiled.reaches hstart.catalog, rfl, hnow⟩
  have haccepted : ∀ records : List Members, records.map Json.obj <+: s.records → AllAccepted records :=
    fun records hfront record hrecord =>
      hc.accepted s e h (.obj record) (hfront.subset (List.mem_map_of_mem hrecord))
  rcases prepare_follows P hbase h (fun records hfront => ⟨.refl d e, haccepted records hfront⟩) with
    ⟨s', v, hv, hs', hbase'⟩ | ⟨_, _, _, hpassed⟩
  · obtain ⟨-, hup, hev, hve, -⟩ := hbase'
    exact ⟨s', v, hv, hs', hup, hev.catalog.antisymm hve.catalog⟩
  · exact hpassed.elim

/-- A query that has been answered without losses is answered again. -/
theorem Comeback.exists_answer (hc : Comeback L q query w up back now)
    (hquery : Query.read false query.value = .ok q) (hw : L.steady w.engine)
    (h : (d.answer query).outcome { w with engine := up } = (.ok result, e)) : ∃ result' v,
      (d.answer query).outcome (((d.answer query).outcome w).2.resumed back now) = (.ok result', v) ∧
        result' = { result with trace := result'.trace, info := result'.info } ∧
        (((d.answer query).outcome w).2.resumed back now).lastSent v = w.lastSent e := by
  rw [outcome_answer_of_isUp hquery hc.isUp] at h
  rw [outcome_answer_of_isUp hquery (w := ((d.answer query).outcome w).2.resumed back now) hc.isBack]
  cases hidle : q.idleAnswer with
  | some idle =>
      rw [execute_eq, hidle] at h ⊢
      cases h
      refine ⟨result, _, rfl, rfl, ?_⟩
      unfold pinged
      split
      · rw [World.lastSent_asked List.suffix_rfl]
        exact (World.lastSent_asked List.suffix_rfl _).symm
      · rw [World.lastSent_of_eq rfl]
        exact (World.lastSent_of_eq rfl).symm
  | none =>
      obtain ⟨s, u, hprepare, hup, hanswer, rfl⟩ := exists_of_execute_ok hidle (isUp_pinged hc.isUp).1 h
      obtain ⟨s', v, hprepare', hs', hup', hcatalog⟩ := hc.exists_prepare hquery hw hidle hprepare
      obtain ⟨result', hanswer', hresult'⟩ := ofAnswer_of_like hs' hanswer
      refine ⟨result', v.asked d (finalRequest q s'), ?_, hresult', ?_⟩
      · rw [outcome_execute_of_prepare hidle hprepare' hup', hcatalog, finalRequest_of_like hs',
          hanswer']
      · have hsuffix : ∀ {start : World σ} {s : Search} {v : World σ}, L.steady start.engine →
            (d.prepare q).outcome (d.pinged start) = (.ok s, v) → start.requests <:+ v.requests := by
          intro start s v hsteady hprepare
          have hstart := leads_pinged L hsteady
          exact (hstart.trans ((carries_prepare L q _ hstart.steady).of_outcome hprepare).leads).requests
        rw [finalRequest_of_like hs', World.lastSent_asked (hsuffix hc.isBack.1 hprepare')]
        have hup : L.steady ({ w with engine := up } : World σ).engine := hc.isUp.1
        exact (World.lastSent_asked (hsuffix hup hprepare) _).symm

/-- Requests that are lost while a query is answered do no harm. Without a loss the query is answered here;
with one another store answers, and if there is none the engine is unavailable. A lookup that fails, or whose
search is refused, keeps nothing in the cache, and what is recalled afterwards would have been recalled after
an undisturbed query. If such a query has an answer and none of its lookups is refused, then asking again
when the engine is back sends the same last request and has the same answer. -/
theorem answer_withstands (L : Line d) (hquery : Query.read false query.value = .ok q)
    (hw : L.steady w.engine) :
    (d.answer query).Meets w (Answered L q query w) ∧
    (∀ (l : Lookup) (v : World σ), (l.resolve d).Meets v fun r after =>
      ¬ Lookup.IsUsable r → v.KeepsNoMore d after) ∧
    ∀ (up : σ) (result : QueryResult) (undisturbed : World σ), L.IsUp up →
      (d.answer query).outcome { w with engine := up } = (.ok result, undisturbed) →
      ((d.answer query).outcome w).2.Behind d undisturbed ∧
      ∀ (back : σ) (now : Float), Comeback L q query w up back now → ∃ result' again,
        (d.answer query).outcome (((d.answer query).outcome w).2.resumed back now) = (.ok result', again) ∧
          result' = { result with trace := result'.trace, info := result'.info } ∧
          (((d.answer query).outcome w).2.resumed back now).lastSent again = w.lastSent undisturbed := by
  refine ⟨meets_answer L hquery hw, fun l v => Lookup.keepsNoMore_resolve l v,
    fun up result undisturbed hup h => ⟨?_, fun back now hc => hc.exists_answer hquery hw h⟩⟩
  rw [outcome_answer_of_isUp hquery (w := { w with engine := up }) hup] at h
  cases hidle : q.idleAnswer with
  | some idle =>
      obtain ⟨u, hu, hprospect⟩ := exists_of_answer hquery hw
      rw [execute_eq, hidle] at h hu
      cases h
      have hu : u = d.pinged w := hu.elim id id
      refine (World.Later.of_prospect hprospect.symm).toBehind.trans ?_
      rw [hu, pinged_eq_setEngine w up]
      exact ⟨.refl, fun _ _ => id, id⟩
  | none =>
      obtain ⟨s, e, hprepare, -, -, rfl⟩ := exists_of_execute_ok hidle (isUp_pinged hup).1 h
      exact (behind_of_answer hquery hw hup hidle hprepare).trans (World.Later.asked d _ e).toBehind

private def townSearch (_ : Members) : Option (List Int) := some [11]

/-- Every list of numbers is stored. -/
private def townStore : Deployment Relay := Relay.deployment { subquery := { threshold := 1 } } townSearch

private def townLine : Line townStore := Relay.line _ townSearch

/-- What is located in something of the main namespace. -/
private def townQuery : Argument :=
  .plain (.single "description" (.obj [("type", .str "some_property"),
    ("property", .obj [("key", .str "Located_in"), ("value_type", .str "_wpg")]),
    ("description", .obj [("type", .str "namespace"), ("namespace", .int 0)])]))

private def townRead : Query where
  description := .someProperty { key := "Located_in", valueType := .page } (.space 0) none

/-- The search gets through and its list is stored, but the refresh is lost. -/
private def townWorld : World Relay where
  engine := ⟨[false, false, true], 0⟩
  catalog := { next := 1 }

private theorem lastsAt_town {now : Float} (h : decide (now + 60 < now) = false) : LastsAt townStore now := by
  rintro seconds (rfl | rfl) limit hlimit
  · cases hlimit
    exact h
  · cases hlimit
    exact h

private theorem comeback_town : Comeback townLine townRead townQuery townWorld {} {} 1010 where
  isUp := Relay.isUp_line _ _ 0
  isBack := Relay.isUp_line _ _ 0
  le := by decide +kernel
  lasts := lastsAt_town (by decide +kernel)
  stillLasts := lastsAt_town (by decide +kernel)
  isFiled := nofun
  remembers key found h := by cases h
  accepted s v h := by
    have haccepted : ((townStore.prepare townRead).outcome (townStore.pinged { townWorld with engine := {} })).1.map
        (fun s => s.records.all fun record => record.get? "errors" = none) = .ok true := by decide +kernel
    rw [h] at haccepted
    exact fun record hrecord =>
      of_decide_eq_true (List.all_eq_true.mp (Except.ok.inj haccepted) record hrecord)

theorem answer_withstands_town :
    Query.read false townQuery.value = .ok townRead ∧ townLine.steady townWorld.engine ∧
      townLine.IsUp {} ∧ Comeback townLine townRead townQuery townWorld {} {} 1010 ∧
      ∃ text result undisturbed result' again,
        ((townStore.answer townQuery).outcome townWorld).1 = .error (.unavailable text) ∧
        (townStore.answer townQuery).outcome { townWorld with engine := {} } = (.ok result, undisturbed) ∧
        ((townStore.answer townQuery).outcome townWorld).2.Behind townStore undisturbed ∧
        (townStore.answer townQuery).outcome
          (((townStore.answer townQuery).outcome townWorld).2.resumed {} 1010) = (.ok result', again) ∧
        result' = { result with trace := result'.trace, info := result'.info } ∧
        (((townStore.answer townQuery).outcome townWorld).2.resumed {} 1010).lastSent again =
          townWorld.lastSent undisturbed := by
  have hread : Query.read false townQuery.value = .ok townRead := rfl
  have hup : townLine.IsUp {} := Relay.isUp_line _ _ 0
  have hlost : ∃ text, ((townStore.answer townQuery).outcome townWorld).1 = .error (.unavailable text) :=
    ⟨_, rfl⟩
  have hok : ((townStore.answer townQuery).outcome { townWorld with engine := {} }).1.isOk = true := by
    decide +kernel
  obtain ⟨-, -, hagain⟩ := answer_withstands townLine hread (w := townWorld) trivial
  obtain ⟨text, htext⟩ := hlost
  rcases hrun : (townStore.answer townQuery).outcome { townWorld with engine := {} } with
    ⟨e | result, undisturbed⟩
  · rw [hrun] at hok
    cases hok
  · obtain ⟨hbehind, hagain⟩ := hagain {} result undisturbed hup hrun
    obtain ⟨result', again, hanswer, hresult, hlast⟩ := hagain {} 1010 comeback_town
    exact ⟨hread, trivial, hup, comeback_town, text, result, undisturbed, result', again, htext, rfl, hbehind,
      hanswer, hresult, hlast⟩

/-- Each of two concepts is the same as the other one. -/
private def circleTexts : Table String String :=
  [("C#0##", "\x7b\"type\":\"concept\",\"concept\":\x7b\"title\":\"D\"\x7d\x7d"),
   ("D#0##", "\x7b\"type\":\"concept\",\"concept\":\x7b\"title\":\"C\"\x7d\x7d")]

/-- Only the search that no entity satisfies, because a concept is met within itself, is not refused. -/
private def circleSearch (options : Members) : Option (List Int) :=
  if Table.get? options "query" = some (wrapped Clause.nothing true) then some [20] else none

private def circleStore : Deployment Relay := Relay.deployment {} circleSearch

private def circleQuery : Argument :=
  .plain (.obj [("description", .obj [("type", .str "conjunction"), ("descriptions", .arr
    (["C", "D"].map fun title => .obj [("type", .str "concept"),
      ("concept", .obj [("title", .str title)])]))]), ("mode", .str "count")])

/-- The count is lost. -/
private def circleWorld : World Relay where
  engine := ⟨[false, false, false, true], 0⟩
  catalog := { next := 1, concepts := circleTexts }

private def circleFirst : Except Failure QueryResult × World Relay :=
  (circleStore.answer circleQuery).outcome circleWorld

private def circleUndisturbed : Except Failure QueryResult × World Relay :=
  (circleStore.answer circleQuery).outcome { circleWorld with engine := {} }

private def circleAgain : Except Failure QueryResult × World Relay :=
  (circleStore.answer circleQuery).outcome (circleFirst.2.resumed {} 1000)

/-- The count of what is in two lists. -/
private def circleCount (first second : List Json) : Call where
  name := "count"
  arguments := .obj [("index", .str "semindex-data"), ("query", Clause.constantScore (Clause.compound .must
    ([first, second].map fun found => Clause.constantScore (Clause.terms "_id" (.arr found)))))]

private theorem circleUndisturbed_sent : circleUndisturbed.1.isOk = true ∧
    circleWorld.lastSent circleUndisturbed.2 = some (circleCount [] [.int 20]) := by
  decide +kernel

private theorem circleAgain_sent : circleAgain.1.isOk = true ∧
    (circleFirst.2.resumed {} 1000).lastSent circleAgain.2 = some (circleCount [.int 20] [.int 20]) := by
  decide +kernel

/-- Where the search for a concept is refused, the repeated query recalls what the same concept came to at
another place, and counts something else. -/
theorem answer_again_of_refused :
    circleUndisturbed.1.isOk = true ∧ circleAgain.1.isOk = true ∧
      (circleFirst.2.resumed {} 1000).lastSent circleAgain.2 ≠ circleWorld.lastSent circleUndisturbed.2 := by
  refine ⟨circleUndisturbed_sent.1, circleAgain_sent.1, ?_⟩
  rw [circleUndisturbed_sent.2, circleAgain_sent.2]
  decide

end Deployment

end FactIndex
