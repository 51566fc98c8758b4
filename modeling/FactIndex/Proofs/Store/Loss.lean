import FactIndex.Proofs.Store.Answer

/-!
# Queries on a line on which requests are lost

A query is answered by a compilation and a last request. Where nothing is lost, its answer or its failure is
the engine's own business. Where a request is lost, the engine is unavailable and another store answers, if
there is one and it may be used.

## Main definitions

* `Deployment.carries_prepare`, `Deployment.carries_execute`: the parts of a query and the whole.
* `Deployment.meets_answer`: what becomes of a query.
-/

namespace FactIndex

open FactIndex.Effect

variable {σ : Type} {d : Deployment σ}

/-! ## Another store -/

/-- What another store is asked is not asked of the search engine. -/
theorem World.prospect_elsewhere (w : World σ) (query : Argument) :
    (w.elsewhere query).prospect d = w.prospect d := by
  have hview : d.cache.view .waiting ((w.elsewhere query).cache, (w.elsewhere query).host) =
      d.cache.view .waiting (w.cache, w.host) := by
    unfold Cache.view Cache.served
    cases d.cache.storage <;> rfl
  refine World.prospect_setCache hview rfl ?_
  have hname : Request.names.contains "fallback.query" = false := by decide
  exact List.filter_cons_of_neg (by simpa using hname)

/-! ## Lookups that fail -/

/-- What can be used of a lookup once more: it has a result, and its search was not refused. -/
def Lookup.IsUsable (r : Except Failure Materialized) : Prop :=
  ∃ m, r = .ok m ∧ Table.get? m.record "errors" = none

/-- Nothing is kept that was not kept before. -/
def World.KeepsNoMore (d : Deployment σ) (w after : World σ) : Prop :=
  ∀ full content, after.kept d full = some content → w.kept d full = some content

namespace World.KeepsNoMore

variable {u v w : World σ}

theorem of_eq (h : v.kept d = w.kept d) : w.KeepsNoMore d v := fun full content hcontent => by rwa [← h]

theorem trans (h : u.KeepsNoMore d v) (h' : v.KeepsNoMore d w) : u.KeepsNoMore d w :=
  fun full content hcontent => h full content (h' full content hcontent)

end World.KeepsNoMore

namespace Lookup

variable {l : Lookup} {found : Found} {w : World σ}

/-- Remembering a result keeps it, or else nothing more than before. -/
theorem keepsNoMore_remember (count : Int) (name : String) (numbers : Json) (m : Materialized)
    (w : World σ) (husable : Table.get? m.record "errors" = none) :
    (l.remember d count name numbers >>= fun _ => (pure m : Action σ Materialized)).Meets w
      fun r after => ¬ IsUsable r → w.KeepsNoMore d after := by
  have hput : (l.remember d count name numbers).Meets w fun r after => r = .ok () ∨ after.kept d = w.kept d := by
    have h := @Cache.meets_put d.cache (w.cache, w.host) .waiting l.key
      (.obj [("count", .int count), (name, numbers)]) (.float l.lifetime)
    unfold Meets at h ⊢
    rcases hr : ((l.remember d count name numbers).outcome w).1 with e | ⟨⟩
    · refine .inr ?_
      rw [show ((d.cache.put .waiting l.key (.obj [("count", .int count), (name, numbers)])
        (.float l.lifetime)).outcome (w.cache, w.host)).1 = .error e from hr] at h
      exact h
    · exact .inl rfl
  refine hput.bind (fun _ after _ => Meets.pure fun hfailed => absurd ⟨m, rfl, husable⟩ hfailed) ?_
  rintro e after (h | h) -
  · cases h
  · exact .of_eq h

theorem keepsNoMore_keep {answer : Except ClientError Json} (hfound : l.ofSearch answer = .ok found) :
    (l.keep d found).Meets w fun r after => ¬ IsUsable r → w.KeepsNoMore d after := by
  by_cases herrors : found.errors = []
  · unfold Lookup.keep
    dsimp only
    split
    · have hstore : (storeList d l.id found.ids).Meets w fun _ after => after.kept d = w.kept d :=
        leaves_storeList leaves_kept_ask _ _ w
      refine hstore.bind ?_ ?_
      · intro reference stored hstored
        refine (keepsNoMore_remember _ _ _ _ _ ?_).mono fun r after hafter hfailed =>
          (World.KeepsNoMore.of_eq hstored).trans (hafter hfailed)
        simp [herrors, Table.get?]
      · exact fun e after hafter _ => .of_eq hafter
    · rw [if_pos (by simp [herrors])]
      exact keepsNoMore_remember _ _ _ _ _ (by simp [herrors, Table.get?])
  · have hshort := Lookup.isStored_of_errors hfound herrors
    unfold Lookup.keep
    dsimp only
    rw [if_neg (by simp [hshort]), if_neg (by simpa using herrors)]
    exact Meets.pure fun _ => .of_eq rfl

/-- A lookup that fails, or whose search is refused, keeps nothing in the cache. -/
theorem keepsNoMore_resolve (l : Lookup) (w : World σ) :
    (l.resolve d).Meets w fun r after => ¬ IsUsable r → w.KeepsNoMore d after := by
  have hmaterialize : ∀ v : World σ, w.KeepsNoMore d v →
      (l.materialize d).Meets v fun r after => ¬ IsUsable r → w.KeepsNoMore d after := by
    intro v hv
    unfold materialize
    rw [find_eq]
    have hfind : (ask d (l.request d) >>= fun answer => Effect.ofExcept (l.ofSearch answer)).Meets v
        fun r after => r = l.ofSearch (d.client.send (l.request d) v.engine).1 ∧
          after.kept d = v.kept d := by
      unfold Meets
      rw [outcome_bind_of_ok (outcome_ask d _ v), outcome_ofExcept]
      exact ⟨rfl, kept_congr rfl rfl⟩
    refine hfind.bind ?_ ?_
    · rintro found after ⟨hfound, hafter⟩
      exact (keepsNoMore_keep hfound.symm).mono fun r last hlast hfailed =>
        hv.trans ((World.KeepsNoMore.of_eq hafter).trans (hlast hfailed))
    · rintro e after ⟨-, hafter⟩ -
      exact hv.trans (.of_eq hafter)
  unfold resolve
  refine (meets_cached w l.key).bind ?_ ?_
  · rintro remembered looked ⟨hlooked, -⟩
    split
    · split
      · exact hmaterialize looked hlooked
      · exact Meets.ofExcept fun _ => hlooked
    · exact hmaterialize looked hlooked
  · rintro e looked ⟨hlooked, -⟩ -
    exact hlooked

end Lookup

namespace ClientError

theorem reading_ofCount : Reading ofCount where
  lost {e} he := by
    cases e with
    | refused => cases he
    | connection | timeout | transport => exact ⟨_, rfl⟩
  refused {e} he := by
    cases e with
    | refused => exact .ok _
    | connection | timeout | transport => cases he
  answered answer := (Json.own_paired answer).bind fun _ => (Json.own_toWhole _).bind fun _ => .pure _

theorem reading_ofValidation : Reading ofValidation where
  lost {e} he := by
    cases e with
    | refused => cases he
    | connection | timeout | transport => exact ⟨_, rfl⟩
  refused {e} he := by
    cases e with
    | refused => exact .ok _
    | connection | timeout | transport => cases he
  answered answer := Json.own_paired answer

end ClientError

namespace Deployment

open Compiling

variable (L : Line d) {w : World σ} {q : Query} {s : Search}

/-! ## The parts of a query -/

theorem carries_prepare (q : Query) : L.Carries (d.prepare q) := by
  intro w hw
  have h := (d.isBuilt_preparing q).advances L (s := (w, {})) hw
  rw [prepare_eq]
  unfold Meets
  rw [outcome_map, outcome_start]
  unfold Meets at h
  rcases hr : (d.preparing q).outcome (w, {}) with ⟨e | found, t⟩ <;> rw [hr] at h
  · exact h.passes.of_error
  · exact h.passes.trans (.refl h.passes.leads.steady (.ok _))

/-- The search of a query is made in the index of documents. -/
theorem index_of_prepare {v : World σ} (h : (d.prepare q).outcome w = (.ok s, v)) :
    s.index = d.indexName IndexType.data := by
  rw [prepare_eq, outcome_map] at h
  obtain ⟨found, -, rfl⟩ := exists_of_map_ok (Prod.mk.inj h).1
  rfl

theorem asks_finalRequest (h : s.index = d.indexName IndexType.data) : d.Asks (finalRequest q s) := by
  unfold finalRequest
  rw [h]
  cases q.mode with
  | debug => exact .validate _
  | count => exact .count _
  | instances | none => exact .search _

theorem finalRequest_ne_ping : finalRequest q s ≠ .ping := by
  unfold finalRequest
  cases q.mode <;> exact Request.noConfusion

theorem reading_ofAnswer (q : Query) (s : Search) (c : Catalog) : Reading (ofAnswer q s c) := by
  unfold ofAnswer
  cases q.mode with
  | debug => exact ClientError.reading_ofValidation.bind fun _ => .pure _
  | count => exact ClientError.reading_ofCount.bind fun _ => .pure _
  | instances | none =>
      exact ClientError.reading_ofSearch.bind fun _ => (Hits.own_convert _ _ _).bind fun _ => .pure _

theorem passes_finish (hs : s.index = d.indexName IndexType.data) (hw : L.steady w.engine) :
    (d.finish q s).Meets w (L.Passes w) := by
  unfold Meets
  rw [outcome_finish]
  exact .inquiry (reading_ofAnswer q s w.catalog) finalRequest_ne_ping (asks_finalRequest hs) hw

theorem carries_execute (q : Query) : L.Carries (d.execute q) := by
  rw [execute_eq]
  cases q.idleAnswer with
  | some result => exact .pure result
  | none =>
      intro w hw
      have hprepare := carries_prepare L q w hw
      unfold Meets
      rcases hr : (d.prepare q).outcome w with ⟨e | s, v⟩
      · rw [outcome_bind_of_error hr]
        exact (hprepare.of_outcome hr).of_error
      · rw [outcome_bind_of_ok hr]
        have hv := hprepare.of_outcome hr
        exact hv.trans (passes_finish L (index_of_prepare hr) hv.leads.steady)

/-! ## The answer to a query -/

theorem answerHere_eq {query : Argument} (hquery : Query.read false query.value = .ok q) :
    d.answerHere query = d.execute q := by
  unfold answerHere
  rw [hquery]
  rfl

/-- A ping is answered, or it is lost. -/
theorem ping_cases (hw : L.steady w.engine) :
    (d.ping.outcome w = (.ok true, w.asked d .ping) ∧
        L.lost (w.asked d .ping).engine = L.lost w.engine) ∨
      (d.ping.outcome w = (.ok false, w.asked d .ping) ∧
        L.lost w.engine < L.lost (w.asked d .ping).engine) := by
  rw [outcome_ping_ask]
  rcases L.send .ping hw with ⟨hsame, hanswer⟩ | ⟨hgrown, hanswer⟩
  · obtain ⟨answer, hreply⟩ := L.pings
    have hgiven : answer.isGiven = true := by
      have hthrough := L.through .ping
      rw [hreply] at hthrough
      simpa [Request.isLost] using hthrough
    refine .inl ⟨?_, hsame⟩
    rw [hanswer, hreply]
    exact congrArg (fun given => (Except.ok given, w.asked d .ping)) hgiven
  · refine .inr ⟨?_, hgrown⟩
    rcases hsend : (d.client.send .ping w.engine).1 with e | answer <;> rw [hsend] at hanswer
    · cases e with
      | refused => cases hanswer
      | connection | timeout | transport => rfl
    · have hgiven : answer.isGiven = false := by simpa [Request.isLost] using hanswer
      exact congrArg (fun given => (Except.ok given, w.asked d .ping)) hgiven

theorem leads_pinged (hw : L.steady w.engine) : L.Leads w (d.pinged w) := by
  unfold pinged
  split
  · exact .asked .ping hw
  · exact .refl hw

/-- A query is answered here if nothing is lost. Otherwise another store answers, and without one the engine
is unavailable. -/
theorem outcome_answer {query : Argument} (hquery : Query.read false query.value = .ok q)
    (hw : L.steady w.engine) : let x := (d.execute q).outcome (d.pinged w)
    (L.lost x.2.engine = L.lost w.engine ∧ Failure.Own x.1 ∧ (d.answer query).outcome w = x) ∨
      (L.lost w.engine < L.lost x.2.engine ∧ match d.spare with
        | some result => ∃ u, (u = d.pinged w ∨ u = x.2) ∧ L.lost w.engine < L.lost u.engine ∧
          (d.answer query).outcome w = (.ok result, u.elsewhere query)
        | none => ∃ text, (d.answer query).outcome w = (.error (.unavailable text), x.2)) := by
  have hhere := answerHere_eq (d := d) hquery
  have hexecute := carries_execute L q (d.pinged w) (leads_pinged L hw).steady
  unfold Meets at hexecute
  rcases hr : (d.execute q).outcome (d.pinged w) with ⟨r, v⟩
  rw [hr] at hexecute
  cases hspare : d.spare with
  | none =>
      have hpinged : d.pinged w = w := by simp [pinged, hspare]
      rw [hpinged] at hr hexecute
      rw [d.answer_of_spare_none hspare, hhere, hr]
      rcases hexecute.isHonest with ⟨hsame, hown⟩ | ⟨hgrown, text, rfl⟩
      · exact .inl ⟨hsame, hown, rfl⟩
      · exact .inr ⟨hgrown, text, rfl⟩
  | some result =>
      have hpinged : d.pinged w = w.asked d .ping := by simp [pinged, hspare]
      rw [hpinged] at hr hexecute ⊢
      rcases ping_cases L hw with ⟨hping, hsame⟩ | ⟨hping, hgrown⟩
      · rw [d.outcome_answer_of_ping_true hspare hping, hhere, hr]
        rcases hexecute.isHonest with ⟨hlost, hown⟩ | ⟨hlost, text, rfl⟩
        · refine .inl ⟨hlost.trans hsame, hown, ?_⟩
          rcases r with e | result
          · cases e with
            | unavailable text => cases hown _ rfl
            | _ => rfl
          · rfl
        · exact .inr ⟨hsame ▸ hlost, v, .inr rfl, hsame ▸ hlost, rfl⟩
      · rw [d.outcome_answer_of_ping_false hspare hping]
        exact .inr ⟨Nat.lt_of_lt_of_le hgrown hexecute.lost_le, _, .inl rfl, hgrown, rfl⟩

/-- What becomes of a query. -/
structure Answered (L : Line d) (q : Query) (query : Argument) (w : World σ)
    (r : Except Failure QueryResult) (v : World σ) : Prop where
  lost_le : L.lost w.engine ≤ L.lost v.engine
  /-- Where nothing is lost the query is answered here. If that fails, it is not for the search engine. -/
  here : L.lost v.engine = L.lost w.engine →
    (r, v) = (d.execute q).outcome (d.pinged w) ∧ Failure.Own r
  /-- Where a request is lost another store answers, and without one the engine is unavailable. -/
  lost : L.lost w.engine < L.lost v.engine → match d.spare with
    | some result => r = .ok result ∧ ∃ u : World σ, v = u.elsewhere query
    | none => ∃ text, r = .error (.unavailable text)

theorem meets_answer {query : Argument} (hquery : Query.read false query.value = .ok q)
    (hw : L.steady w.engine) : (d.answer query).Meets w (Answered L q query w) := by
  unfold Meets
  rcases outcome_answer L hquery hw with ⟨hsame, hown, hanswer⟩ | ⟨hgrown, hanswer⟩
  · rw [hanswer]
    exact ⟨Nat.le_of_eq hsame.symm, fun _ => ⟨rfl, hown⟩, fun h => absurd hsame (Nat.ne_of_gt h)⟩
  · cases hspare : d.spare with
    | some result =>
        rw [hspare] at hanswer
        obtain ⟨u, -, hlost, hanswer⟩ := hanswer
        rw [hanswer]
        refine ⟨Nat.le_of_lt hlost, fun h => absurd h (Nat.ne_of_gt hlost), fun _ => ?_⟩
        rw [hspare]
        exact ⟨rfl, u, rfl⟩
    | none =>
        rw [hspare] at hanswer
        obtain ⟨text, hanswer⟩ := hanswer
        rw [hanswer]
        refine ⟨Nat.le_of_lt hgrown, fun h => absurd h (Nat.ne_of_gt hgrown), fun _ => ?_⟩
        rw [hspare]
        exact ⟨text, rfl⟩

end Deployment

end FactIndex
