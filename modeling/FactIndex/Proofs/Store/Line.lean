import FactIndex.Proofs.Lookup.Found

/-!
# The line to the search engine

A request may be lost on its way. Those that get through are answered, and as long as the index does not
change, the same request is always answered in the same way. A lookup whose search, document or refresh is
lost is unavailable and leaves nothing behind in the cache.

## Main definitions

* `Request.isLost`: the answer says that a request did not get through.
* `Deployment.Asks`: the requests that are sent while a query is answered.
* `Line`: what is known of an engine on which they are lost and otherwise answered always the same.
* `Line.IsUp`: nothing more will be lost.
* `Line.Resolves`: what can become of a lookup.
* `Line.meets_resolve`: nothing else becomes of it.
-/

namespace FactIndex

open FactIndex.Effect

variable {σ α β : Type}

/-! ## Lost requests -/

/-- Whether an error says that a request did not get through. -/
def ClientError.isLoss : ClientError → Bool
  | .refused _ _ _ => false
  | _ => true

/-- Whether the answer to a request says that it did not get through. A ping says so without an error. -/
def Request.isLost (r : Request) : Except ClientError Json → Bool
  | .error e => e.isLoss
  | .ok answer => r = .ping && !answer.isGiven

/-- The requests that are sent while a query is answered. The index of documents is only read. -/
inductive Deployment.Asks (d : Deployment σ) : Request → Prop
  | ping : d.Asks .ping
  | search (options : Members) : d.Asks (.search (d.indexName IndexType.data) options)
  | count (query : Json) : d.Asks (.count (d.indexName IndexType.data) query)
  | validate (query : Json) : d.Asks (.validate (d.indexName IndexType.data) query)
  | store (id : String) (document : Json) : d.Asks (.store (d.indexName IndexType.lookup) id document)
  | refresh : d.Asks (.refresh (d.indexName IndexType.lookup))

/-- A search engine whose index does not change while it is asked. Requests to it may be lost, which is
counted. Those that get through are answered always the same, and pings, lists to be stored and refreshes
are not refused. -/
structure Line (d : Deployment σ) where
  /-- The states in which the index is what it is. -/
  steady : σ → Prop
  steady_send : ∀ {r : Request} {s : σ}, d.Asks r → steady s → steady (d.client.send r s).2
  /-- The answer to a request that gets through. -/
  reply : Request → Except ClientError Json
  /-- How many requests have been lost. -/
  lost : σ → Nat
  send : ∀ {r : Request} {s : σ}, d.Asks r → steady s →
    (lost (d.client.send r s).2 = lost s ∧ (d.client.send r s).1 = reply r) ∨
      (lost s < lost (d.client.send r s).2 ∧ r.isLost (d.client.send r s).1 = true)
  through : ∀ r : Request, r.isLost (reply r) = false
  pings : ∃ answer, reply .ping = .ok answer
  stores : ∀ id document, ∃ answer, reply (.store (d.indexName IndexType.lookup) id document) = .ok answer
  refreshes : ∃ answer, reply (.refresh (d.indexName IndexType.lookup)) = .ok answer
  /-- Answers are values that can be stored. -/
  fits : ∀ r answer, reply r = .ok answer → Json.Fits Json.argumentDepth answer

namespace Line

variable {d : Deployment σ} (L : Line d) {s : σ} {r : Request}

/-- Whatever is asked from now on, nothing is lost. -/
def IsUp (s : σ) : Prop :=
  L.steady s ∧ ∀ requests : List Request, (∀ r ∈ requests, d.Asks r) →
    L.lost (requests.foldl (fun s r => (d.client.send r s).2) s) = L.lost s

theorem lost_le (hr : d.Asks r) (hs : L.steady s) : L.lost s ≤ L.lost (d.client.send r s).2 := by
  rcases L.send hr hs with ⟨h, -⟩ | ⟨h, -⟩ <;> omega

variable {L}

theorem IsUp.lost_eq (h : L.IsUp s) (hr : d.Asks r) : L.lost (d.client.send r s).2 = L.lost s :=
  h.2 [r] (by simpa using hr)

theorem IsUp.answer_eq (h : L.IsUp s) (hr : d.Asks r) : (d.client.send r s).1 = L.reply r := by
  rcases L.send hr h.1 with ⟨-, hanswer⟩ | ⟨hlost, -⟩
  · exact hanswer
  · exact absurd (h.lost_eq hr) (Nat.ne_of_gt hlost)

theorem IsUp.sent (h : L.IsUp s) (hr : d.Asks r) : L.IsUp (d.client.send r s).2 := by
  refine ⟨L.steady_send hr h.1, fun requests hrequests => ?_⟩
  rw [h.lost_eq hr]
  exact h.2 (r :: requests) (List.forall_mem_cons.mpr ⟨hr, hrequests⟩)

variable (L)

/-- One world is later than another, and the index is still what it is. -/
structure Leads (u v : World σ) : Prop extends World.Later d u v where
  steady : L.steady v.engine

namespace Leads

variable {L} {u v w : World σ}

theorem refl (h : L.steady w.engine) : L.Leads w w := ⟨.refl d w, h⟩

theorem trans (h : L.Leads u v) (h' : L.Leads v w) : L.Leads u w := ⟨h.toLater.trans h'.toLater, h'.steady⟩

theorem of_prospect (hw : L.steady w.engine) (h : v.prospect d = w.prospect d) : L.Leads w v :=
  ⟨.of_prospect h, (show v.engine = w.engine from congrArg World.Prospect.engine h) ▸ hw⟩

theorem asked (hr : d.Asks r) (hw : L.steady w.engine) : L.Leads w (w.asked d r) :=
  ⟨.asked d r w, L.steady_send hr hw⟩

end Leads

end Line

/-! ## Requests and what is made of their answers -/

/-- A way to read answers: a loss means that the engine is unavailable, and whatever else fails does so by
itself. -/
structure Reading (read : Except ClientError Json → Except Failure α) : Prop where
  lost : ∀ {e : ClientError}, e.isLoss = true → ∃ text, read (.error e) = .error (.unavailable text)
  refused : ∀ {e : ClientError}, e.isLoss = false → Failure.Own (read (.error e))
  answered : ∀ answer, Failure.Own (read (.ok answer))

namespace Reading

variable {read : Except ClientError Json → Except Failure α} {r : Request}
  {answer : Except ClientError Json}

theorem bind (h : Reading read) {f : α → Except Failure β} (hf : ∀ a, Failure.Own (f a)) :
    Reading fun answer => read answer >>= f where
  lost he := by
    obtain ⟨text, htext⟩ := h.lost he
    exact ⟨text, by rw [htext]; rfl⟩
  refused he := (h.refused he).bind hf
  answered answer := (h.answered answer).bind hf

theorem of_isLost (h : Reading read) (hping : r ≠ .ping) (hlost : r.isLost answer = true) :
    ∃ text, read answer = .error (.unavailable text) := by
  rcases answer with e | answer
  · exact h.lost hlost
  · simp [Request.isLost, hping] at hlost

theorem own (h : Reading read) (hthrough : r.isLost answer = false) : Failure.Own (read answer) := by
  rcases answer with e | answer
  · exact h.refused hthrough
  · exact h.answered answer

end Reading

theorem ClientError.reading_ofSearch : Reading ofSearch where
  lost {e} he := by
    cases e with
    | refused => cases he
    | connection | timeout | transport => exact ⟨_, rfl⟩
  refused {e} he := by
    cases e with
    | refused => exact .ok _
    | connection | timeout | transport => cases he
  answered answer := (Json.own_paired answer).map _

theorem Lookup.reading_ofSearch (l : Lookup) : Reading l.ofSearch := by
  refine ClientError.reading_ofSearch.bind fun answer => Failure.Own.bind ?_ fun _ => .pure _
  refine (Hits.own_total _).bind fun total => ?_
  split
  · exact (Hits.own_numbers _).bind fun _ => .pure _
  · exact (Hits.own_fieldValues _ _).bind fun _ => .pure _

namespace Deployment

variable {d : Deployment σ} (L : Line d) {w : World σ}

/-- A request of which something is made. -/
theorem outcome_inquiry {r : Request} {read : Except ClientError Json → Except Failure α}
    (hread : Reading read) (hping : r ≠ .ping) (hr : d.Asks r) (hw : L.steady w.engine) :
    (L.lost (w.asked d r).engine = L.lost w.engine ∧
        (ask d r >>= fun answer => Effect.ofExcept (read answer)).outcome w =
          (read (L.reply r), w.asked d r)) ∨
      (L.lost w.engine < L.lost (w.asked d r).engine ∧ ∃ text,
        (ask d r >>= fun answer => Effect.ofExcept (read answer)).outcome w =
          (.error (.unavailable text), w.asked d r)) := by
  rw [outcome_bind_of_ok (outcome_ask d r w), outcome_ofExcept]
  rcases L.send hr hw with ⟨hlost, hanswer⟩ | ⟨hlost, hanswer⟩
  · exact .inl ⟨hlost, by rw [hanswer]⟩
  · obtain ⟨text, htext⟩ := hread.of_isLost hping hanswer
    exact .inr ⟨hlost, text, by rw [htext]⟩

theorem demand_eq (r : Request) : d.demand r =
    ask d r >>= fun answer => Effect.ofExcept (answer.mapError asFailure) := by
  refine Effect.ext fun w => ?_
  rw [d.outcome_demand, outcome_bind_of_ok (outcome_ask d _ w), outcome_ofExcept]

/-- A request that is not refused gets through, or is lost. -/
theorem outcome_demand_cases {r : Request} (hping : r ≠ .ping) (hreply : ∃ answer, L.reply r = .ok answer)
    (hr : d.Asks r) (hw : L.steady w.engine) :
    (L.lost (w.asked d r).engine = L.lost w.engine ∧
        (d.demand r >>= fun _ => (pure () : Action σ Unit)).outcome w = (.ok (), w.asked d r)) ∨
      (L.lost w.engine < L.lost (w.asked d r).engine ∧ ∃ text,
        (d.demand r >>= fun _ => (pure () : Action σ Unit)).outcome w =
          (.error (.unavailable text), w.asked d r)) := by
  rw [d.outcome_demand_unit]
  rcases L.send hr hw with ⟨hlost, hanswer⟩ | ⟨hlost, hanswer⟩
  · obtain ⟨answer, hreply⟩ := hreply
    exact .inl ⟨hlost, by rw [hanswer, hreply]; rfl⟩
  · refine .inr ⟨hlost, ?_⟩
    rcases hsend : (d.client.send r w.engine).1 with e | answer
    · rw [hsend] at hanswer
      cases e with
      | refused => cases hanswer
      | connection | timeout | transport => exact ⟨_, rfl⟩
    · simp [hsend, Request.isLost, hping] at hanswer

/-- A list is stored, or its document or the refresh is lost. -/
theorem meets_storeList (id : String) (ids : List Json) (hw : L.steady w.engine) :
    (Lookup.storeList d id ids).Meets w fun r after =>
      L.Leads w after ∧ after.recalled d = w.recalled d ∧
      ((L.lost after.engine = L.lost w.engine ∧
          r = .ok (Clause.reference (d.indexName IndexType.lookup) id "id")) ∨
        (L.lost w.engine < L.lost after.engine ∧ ∃ text, r = .error (.unavailable text))) := by
  let store := Request.store (d.indexName IndexType.lookup) id (.single "id" (.arr ids))
  let refresh := Request.refresh (d.indexName IndexType.lookup)
  have hstored : L.Leads w (w.asked d store) := .asked (.store _ _) hw
  have hrefreshed := hstored.trans (.asked (r := refresh) .refresh hstored.steady)
  have hrecalled : ((w.asked d store).asked d refresh).recalled d = w.recalled d :=
    (World.recalled_asked _).trans (World.recalled_asked _)
  rcases d.outcome_demand_cases L (r := store) nofun (L.stores _ _) (.store _ _) hw with
    ⟨hlost, hstore⟩ | ⟨hlost, text, hstore⟩
  · refine Meets.bind_of_ok hstore ?_
    rcases d.outcome_demand_cases L (r := refresh) nofun L.refreshes .refresh hstored.steady with
      ⟨hlost', hrefresh⟩ | ⟨hlost', text, hrefresh⟩
    · exact Meets.bind_of_ok hrefresh
        (Meets.pure ⟨hrefreshed, hrecalled, .inl ⟨hlost'.trans hlost, rfl⟩⟩)
    · exact Meets.bind_of_error hrefresh ⟨hrefreshed, hrecalled, .inr ⟨hlost ▸ hlost', text, rfl⟩⟩
  · exact Meets.bind_of_error hstore
      ⟨hstored, World.recalled_asked _, .inr ⟨hlost, text, rfl⟩⟩

end Deployment

/-! ## Lookups -/

namespace Line

variable {d : Deployment σ} (L : Line d) {l : Lookup} {w : World σ}

/-- What a search for a lookup finds if it gets through. -/
def found (l : Lookup) : Except Failure Found := l.ofSearch (L.reply (l.request d))

theorem own_found (l : Lookup) : Failure.Own (L.found l) := l.reading_ofSearch.own (L.through _)

/-- What can become of a lookup for which a search is made. -/
inductive Materializes (l : Lookup) (w : World σ) : Except Failure Materialized → World σ → Prop
  /-- The search, the document or the refresh is lost. -/
  | lost {after : World σ} (text : String) (h : L.lost w.engine < L.lost after.engine)
      (hrecalled : after.recalled d = w.recalled d) : Materializes l w (.error (.unavailable text)) after
  /-- The answer makes no sense, or the cache does not take the result. -/
  | failed {e : Failure} {after : World σ} (h : L.lost after.engine = L.lost w.engine)
      (hown : e.isOwn = true) (hrecalled : after.recalled d = w.recalled d)
      (hcause : L.found l = .error e ∨ ¬ d.cache.Accepts (.float l.lifetime)) :
      Materializes l w (.error e) after
  /-- The search is refused. -/
  | refused {found : Found} {after : World σ} (h : L.lost after.engine = L.lost w.engine)
      (hfound : L.found l = .ok found) (herrors : found.errors ≠ [])
      (hrecalled : after.recalled d = w.recalled d) :
      Materializes l w (.ok (l.materializedOf d found)) after
  /-- The result is remembered. -/
  | kept {found : Found} {after : World σ} (h : L.lost after.engine = L.lost w.engine)
      (hfound : L.found l = .ok found) (herrors : found.errors = [])
      (haccepts : d.cache.Accepts (.float l.lifetime))
      (hothers : ∀ key, key ≠ l.keyText → after.recalled d key = w.recalled d key)
      (hrecalled : d.Lasts w.host.network.now l.lifetime →
        after.recalled d l.keyText = some (.ok (l.valueOf d found))) :
      Materializes l w (.ok (l.materializedOf d found)) after

/-- Remembering what has been found. -/
theorem meets_remember (hw : L.steady w.engine) (hlinked : w.ReachesCache d) (hnew : w.recalled d l.keyText = none) {found : Found}
    (hfound : L.found l = .ok found) (herrors : found.errors = []) :
    (l.remember d found.count (l.nameOf found) (l.numbersOf d found) >>= fun _ =>
        pure (l.materializedOf d found)).Meets w fun r after =>
      L.Leads w after ∧ L.Materializes l w r after := by
  by_cases haccepts : d.cache.Accepts (.float l.lifetime)
  · obtain ⟨after, hremember, hengine, hcatalog, hrequests, hnow, hlinked', hothers, hself⟩ :=
      l.outcome_remember hlinked haccepts found.count (l.nameOf found) (l.numbersOf d found)
    refine Meets.bind_of_ok hremember (Meets.pure ⟨⟨⟨⟨hcatalog ▸ .refl, fun key value hvalue => ?_,
      fun _ => hlinked'⟩, hrequests ▸ List.suffix_rfl, hnow⟩, hengine ▸ hw⟩,
      .kept (by rw [hengine]) hfound herrors haccepts hothers fun hlasts => ?_⟩)
    · by_cases hkey : key = l.keyText
      · rw [hkey, hnew] at hvalue
        cases hvalue
      · rwa [hothers key hkey]
    · exact hself hlasts (Lookup.readBack_valueOf (L.fits _) hfound)
  · obtain ⟨e, after, hown, hremember, hprospect⟩ := l.outcome_remember_of_not_accepts w haccepts
      found.count (l.nameOf found) (l.numbersOf d found)
    have hengine : after.engine = w.engine := congrArg World.Prospect.engine hprospect
    exact Meets.bind_of_error hremember ⟨.of_prospect hw hprospect, .failed (by rw [hengine]) hown
      (World.recalled_of_prospect hprospect) (.inr haccepts)⟩

variable {L} in
/-- What becomes of a lookup is the same from any world that recalls the same at the same time. -/
theorem Materializes.of_same {u v : World σ} {r : Except Failure Materialized}
    (h : L.Materializes l v r w) (hlost : L.lost v.engine = L.lost u.engine)
    (hsame : v.recalled d = u.recalled d) (hnow : v.host.network.now = u.host.network.now) :
    L.Materializes l u r w := by
  cases h with
  | lost text h hrecalled => exact .lost text (hlost ▸ h) (hrecalled.trans hsame)
  | failed h hown hrecalled hcause => exact .failed (h.trans hlost) hown (hrecalled.trans hsame) hcause
  | refused h hfound herrors hrecalled =>
      exact .refused (h.trans hlost) hfound herrors (hrecalled.trans hsame)
  | kept h hfound herrors haccepts hothers hrecalled =>
      exact .kept (h.trans hlost) hfound herrors haccepts
        (fun key hkey => (hothers key hkey).trans (congrFun hsame key)) (hnow ▸ hrecalled)

/-- Keeping what has been found. -/
theorem meets_keep (hw : L.steady w.engine) (hlinked : w.ReachesCache d) (hnew : w.recalled d l.keyText = none) {found : Found}
    (hfound : L.found l = .ok found) : (l.keep d found).Meets w fun r after =>
      L.Leads w after ∧ L.Materializes l w r after := by
  by_cases herrors : found.errors = []
  · have hremember := fun (s : World σ) hs hs' hs'' =>
      L.meets_remember (w := s) (l := l) hs hs' hs'' hfound herrors
    cases hstored : l.isStored found with
    | true =>
        have hkeep : l.keep d found = Lookup.storeList d l.id found.ids >>= fun reference =>
            l.remember d found.count "ref" reference >>= fun _ => pure ⟨.int found.count, reference,
              (l.materializedOf d found).record⟩ := by
          unfold Lookup.keep Lookup.materializedOf
          simp only [hstored, if_true]
        rw [hkeep]
        refine (Deployment.meets_storeList L l.id found.ids hw).bind ?_ ?_
        · rintro reference stored ⟨hlater, hrecalled, ⟨hlost, href⟩ | ⟨-, text, h⟩⟩
          · cases href
            have hnext := hremember stored hlater.steady (hlater.reachesCache hlinked) (by rw [hrecalled, hnew])
            simp only [Lookup.nameOf, Lookup.numbersOf, Lookup.materializedOf, hstored, if_true] at hnext
            refine hnext.mono fun r after ⟨hlater', hmaterializes⟩ => ⟨hlater.trans hlater', ?_⟩
            exact hmaterializes.of_same hlost hrecalled hlater.now
          · cases h
        · rintro e stored ⟨hlater, hrecalled, ⟨-, h⟩ | ⟨hlost, text, h⟩⟩
          · cases h
          · cases h
            exact ⟨hlater, .lost text hlost hrecalled⟩
    | false =>
        have hnext := hremember w hw hlinked hnew
        unfold Lookup.keep
        simp only [Lookup.nameOf, Lookup.numbersOf, Lookup.materializedOf, hstored, herrors,
          List.isEmpty_nil, Bool.false_eq_true, if_true, if_false, List.nil_append] at hnext ⊢
        exact hnext
  · have hshort := Lookup.isStored_of_errors hfound herrors
    have hkeep : l.keep d found = pure (l.materializedOf d found) := by
      unfold Lookup.keep Lookup.materializedOf Lookup.numbersOf
      simp [hshort, herrors]
    rw [hkeep]
    exact Meets.pure ⟨.refl hw, .refused rfl hfound herrors rfl⟩

/-- A search for a lookup, and keeping what it finds. -/
theorem meets_materialize (hw : L.steady w.engine) (hlinked : w.ReachesCache d)
    (hnew : w.recalled d l.keyText = none) :
    (l.materialize d).Meets w fun r after => L.Leads w after ∧ L.Materializes l w r after := by
  have hasked : L.Leads w (w.asked d (l.request d)) := .asked (.search _) hw
  have hrecalled : (w.asked d (l.request d)).recalled d = w.recalled d := World.recalled_asked _
  unfold Lookup.materialize
  rw [Lookup.find_eq]
  have hinquiry := Deployment.outcome_inquiry L (r := l.request d) l.reading_ofSearch nofun (.search _) hw
  rcases hinquiry with ⟨hlost, hfind⟩ | ⟨hlost, text, hfind⟩
  · cases hfound : L.found l with
    | error e =>
        rw [show l.ofSearch (L.reply (l.request d)) = .error e from hfound] at hfind
        exact Meets.bind_of_error hfind
          ⟨hasked, .failed hlost (L.own_found l e hfound) hrecalled (.inl hfound)⟩
    | ok found =>
        rw [show l.ofSearch (L.reply (l.request d)) = .ok found from hfound] at hfind
        refine Meets.bind_of_ok hfind ?_
        have hkeep := L.meets_keep hasked.steady (hasked.reachesCache hlinked) (by rw [hrecalled, hnew]) hfound
        refine hkeep.mono fun r after ⟨hlater, h⟩ => ⟨hasked.trans hlater, ?_⟩
        exact h.of_same hlost hrecalled hasked.now
  · exact Meets.bind_of_error hfind ⟨hasked, .lost text hlost hrecalled⟩

/-- What can become of a lookup. -/
inductive Resolves (l : Lookup) (w : World σ) : Except Failure Materialized → World σ → Prop
  /-- The cache cannot be reached. -/
  | unlinked {e : Failure} {after : World σ} (hlinked : ¬ w.ReachesCache d) (hown : e.isOwn = true)
      (h : after.prospect d = w.prospect d) : Resolves l w (.error e) after
  /-- The cache answers. -/
  | recalled {found : Except Failure Json} {after : World σ} (hlinked : w.ReachesCache d)
      (hfound : w.recalled d l.keyText = some found) (h : after.prospect d = w.prospect d) :
      Resolves l w (found >>= l.ofRemembered) after
  /-- A search is made. -/
  | materialized {r : Except Failure Materialized} {after : World σ} (hlinked : w.ReachesCache d)
      (hnew : w.recalled d l.keyText = none) (h : L.Materializes l w r after) : Resolves l w r after

/-- Nothing else becomes of a lookup. -/
theorem meets_resolve (l : Lookup) (hw : L.steady w.engine) : (l.resolve d).Meets w fun r after =>
    L.Leads w after ∧ L.Resolves l w r after := by
  unfold Meets
  by_cases hlinked : w.ReachesCache d
  · obtain ⟨looked, hprospect, hresolve⟩ := l.outcome_resolve hlinked
    rw [hresolve]
    cases hfound : w.recalled d l.keyText with
    | some found => exact ⟨.of_prospect hw hprospect, .recalled hlinked hfound hprospect⟩
    | none =>
        have hsame := World.recalled_of_prospect hprospect
        have hlooked := Line.Leads.of_prospect hw hprospect
        obtain ⟨hlater, h⟩ := L.meets_materialize (l := l) hlooked.steady
          ((World.reachesCache_of_prospect hprospect).mpr hlinked) (by rw [hsame, hfound])
        refine ⟨hlooked.trans hlater, .materialized hlinked hfound ?_⟩
        exact h.of_same (by rw [show looked.engine = w.engine from congrArg World.Prospect.engine hprospect])
          hsame (congrArg World.Prospect.now hprospect)
  · obtain ⟨e, looked, hprospect, hown, hresolve⟩ := l.outcome_resolve_of_not_reachesCache hlinked
    rw [hresolve]
    exact ⟨.of_prospect hw hprospect, .unlinked hlinked hown hprospect⟩

/-- A request is lost and the engine is unavailable, or whatever fails does so by itself. -/
def IsHonest (u : World σ) (r : Except Failure α) (v : World σ) : Prop :=
  (L.lost v.engine = L.lost u.engine ∧ Failure.Own r) ∨
    (L.lost u.engine < L.lost v.engine ∧ ∃ text, r = .error (.unavailable text))

variable {L} {r : Except Failure Materialized} {after : World σ}

theorem Materializes.isHonest (h : L.Materializes l w r after) : L.IsHonest w r after := by
  cases h with
  | lost text h hrecalled => exact .inr ⟨h, text, rfl⟩
  | failed h hown hrecalled hcause => exact .inl ⟨h, .error hown⟩
  | refused h hfound herrors hrecalled => exact .inl ⟨h, .ok _⟩
  | kept h hfound herrors haccepts hothers hrecalled => exact .inl ⟨h, .ok _⟩

theorem Resolves.isHonest (h : L.Resolves l w r after) : L.IsHonest w r after := by
  cases h with
  | unlinked hlinked hown h =>
      exact .inl ⟨congrArg (fun o => L.lost o.engine) h, .error hown⟩
  | recalled hlinked hfound h =>
      exact .inl ⟨congrArg (fun o => L.lost o.engine) h,
        (World.own_recalled hfound).bind l.own_ofRemembered⟩
  | materialized hlinked hnew h => exact h.isHonest

/-- A lookup of which a request is lost has looked into the cache and leaves nothing behind there. -/
theorem Resolves.of_lost (h : L.Resolves l w r after) (hlost : L.lost w.engine < L.lost after.engine) :
    w.ReachesCache d ∧ after.recalled d = w.recalled d := by
  have hsame : ∀ {v : World σ}, v.prospect d = w.prospect d → ¬ L.lost w.engine < L.lost v.engine := by
    intro v h
    rw [show v.engine = w.engine from congrArg World.Prospect.engine h]
    exact Nat.lt_irrefl _
  cases h with
  | unlinked _ _ h => exact absurd hlost (hsame h)
  | recalled _ _ h => exact absurd hlost (hsame h)
  | materialized hlinked _ h =>
      cases h with
      | lost _ _ hrecalled => exact ⟨hlinked, hrecalled⟩
      | failed h | refused h | kept h => omega

/-! ## The same without losses -/

/-- What is done on an engine on which requests may be lost is the same as on one that is up, until a
request is lost. -/
def Echoes (L : Line d) (x : Action σ α) : Prop :=
  ∀ (w : World σ) (s : σ), L.steady s →
    L.lost s ≤ L.lost (x.outcome { w with engine := s }).2.engine ∧
    L.steady (x.outcome { w with engine := s }).2.engine ∧ (L.IsUp w.engine →
      (L.IsUp (x.outcome w).2.engine ∧ L.lost (x.outcome w).2.engine = L.lost w.engine) ∧
        (L.lost (x.outcome { w with engine := s }).2.engine = L.lost s →
          x.outcome { w with engine := s } = ((x.outcome w).1,
            { (x.outcome w).2 with engine := (x.outcome { w with engine := s }).2.engine })))

namespace Echoes

variable {x : Action σ α} {f : α → Action σ β}

/-- Where nothing is lost, the engine stays up. -/
theorem isUp (hx : Echoes L x) (hup : L.IsUp w.engine) :
    L.IsUp (x.outcome w).2.engine ∧ L.lost (x.outcome w).2.engine = L.lost w.engine :=
  ((hx w w.engine hup.1).2.2 hup).1

/-- What does not look at the engine is the same on every engine. -/
theorem of_same (h : ∀ w : World σ, (x.outcome w).2.engine = w.engine ∧ ∀ s,
    x.outcome { w with engine := s } = ((x.outcome w).1, { (x.outcome w).2 with engine := s })) :
    Echoes L x := by
  intro w s hs
  rw [(h w).2 s]
  exact ⟨Nat.le_refl _, hs, fun hup => ⟨by rw [(h w).1]; exact ⟨hup, rfl⟩, fun _ => rfl⟩⟩

theorem pure (a : α) : Echoes L (Pure.pure a : Action σ α) := of_same fun _ => ⟨rfl, fun _ => rfl⟩

theorem ofExcept (r : Except Failure α) : Echoes L (Effect.ofExcept r : Action σ α) :=
  of_same fun w => by simp

theorem throw (e : Failure) : Echoes L (MonadExcept.throw e : Action σ α) :=
  of_same fun _ => ⟨rfl, fun _ => rfl⟩

theorem onCache (x : Effect Cache.Site α) : Echoes L (FactIndex.onCache x : Action σ α) :=
  of_same fun _ => ⟨rfl, fun _ => rfl⟩

theorem attempt_onCache (x : Effect Cache.Site α) :
    Echoes L (Effect.attempt (FactIndex.onCache x) : Action σ (Except Failure α)) :=
  of_same fun _ => ⟨rfl, fun _ => rfl⟩

theorem ask {r : Request} (hr : d.Asks r) : Echoes L (FactIndex.ask d r) := by
  intro w s hs
  refine ⟨L.lost_le hr hs, L.steady_send hr hs, fun hup => ⟨⟨hup.sent hr, hup.lost_eq hr⟩, fun hlost => ?_⟩⟩
  have hf : (d.client.send r s).1 = L.reply r := by
    rcases L.send hr hs with ⟨-, h⟩ | ⟨h, -⟩
    · exact h
    · exact absurd hlost (Nat.ne_of_gt h)
  rw [outcome_ask, outcome_ask]
  dsimp only
  rw [hup.answer_eq hr, hf]
  rfl

theorem bind (hx : Echoes L x) (hf : ∀ a, Echoes L (f a)) : Echoes L (x >>= f) := by
  intro w s hs
  obtain ⟨hle, hsteady, hecho⟩ := hx w s hs
  rcases hr : x.outcome { w with engine := s } with ⟨e | a, v⟩ <;> rw [hr] at hle hsteady hecho
  · rw [outcome_bind_of_error hr]
    refine ⟨hle, hsteady, fun hup => ?_⟩
    obtain ⟨hup', hsame⟩ := hecho hup
    refine ⟨?_, fun hlost => ?_⟩
    · rw [outcome_bind]
      rcases hu : x.outcome w with ⟨e' | a', u⟩ <;> rw [hu] at hup'
      · exact hup'
      · obtain ⟨hup'', hlost⟩ := (hf a').isUp hup'.1
        exact ⟨hup'', hlost.trans hup'.2⟩
    · have h := hsame hlost
      rcases hu : x.outcome w with ⟨e' | a', u⟩ <;> rw [hu] at h
      · cases (Prod.mk.inj h).1
        rw [outcome_bind_of_error hu]
        exact congrArg (Prod.mk _) (Prod.mk.inj h).2
      · cases (Prod.mk.inj h).1
  · rw [outcome_bind_of_ok hr]
    obtain ⟨hle', hsteady', -⟩ := hf a v v.engine hsteady
    refine ⟨Nat.le_trans hle hle', hsteady', fun hup => ?_⟩
    obtain ⟨hup', hsame⟩ := hecho hup
    rcases hu : x.outcome w with ⟨e' | a', u⟩ <;> rw [hu] at hup' hsame
    · rw [outcome_bind_of_error hu]
      refine ⟨hup', fun hlost => ?_⟩
      have h := hsame (Nat.le_antisymm (hlost ▸ hle') hle)
      cases (Prod.mk.inj h).1
    · rw [outcome_bind_of_ok hu]
      obtain ⟨hup'', hlost'⟩ := (hf a').isUp hup'.1
      refine ⟨⟨hup'', hlost'.trans hup'.2⟩, fun hlost => ?_⟩
      have h := hsame (Nat.le_antisymm (hlost ▸ hle') hle)
      obtain ⟨ha, hv⟩ := Prod.mk.inj h
      cases ha
      have hv' : v = { u with engine := v.engine } := hv
      have hrest := ((hf a u v.engine hsteady).2.2 hup'.1).2
      rw [← hv'] at hrest
      exact hrest (hlost.trans (Nat.le_antisymm hle (hlost ▸ hle')))

theorem map (g : α → β) (hx : Echoes L x) : Echoes L (g <$> x) := by
  rw [map_eq_pure_bind]
  exact hx.bind fun a => .pure _

end Echoes

/-! ## Lookups on an engine that is up -/

theorem echoes_cached (key : Json) : Echoes L (d.cached? key) := by
  refine (Echoes.attempt_onCache _).bind fun r => ?_
  split
  · exact .pure _
  · exact .pure _
  · exact .throw _

theorem echoes_demand {r : Request} (hr : d.Asks r) : Echoes L (d.demand r) := by
  refine (Echoes.ask hr).bind fun answer => ?_
  split
  · exact .pure _
  · exact .throw _

theorem echoes_storeList (id : String) (ids : List Json) : Echoes L (Lookup.storeList d id ids) :=
  ((echoes_demand (.store _ _)).bind fun _ => .pure _).bind fun _ =>
    ((echoes_demand .refresh).bind fun _ => .pure _).bind fun _ => .pure _

theorem echoes_keep (l : Lookup) (found : Found) : Echoes L (l.keep d found) := by
  unfold Lookup.keep
  dsimp only
  split
  · exact (echoes_storeList _ _).bind fun _ => (Echoes.onCache _).bind fun _ => .pure _
  · split
    · exact (Echoes.onCache _).bind fun _ => .pure _
    · exact .pure _

theorem echoes_resolve (l : Lookup) : Echoes L (l.resolve d) := by
  have hmaterialize : Echoes L (l.materialize d) := by
    refine Echoes.bind ?_ fun found => echoes_keep l found
    rw [l.find_eq]
    exact (Echoes.ask (.search _)).bind fun _ => .ofExcept _
  unfold Lookup.resolve
  refine (echoes_cached _).bind fun r => ?_
  split
  · split
    · exact hmaterialize
    · exact .ofExcept _
  · exact hmaterialize

/-! ## What a line carries -/

namespace IsHonest

variable {u v w : World σ} {r : Except Failure β}

theorem trans {a : α} (h : L.IsHonest u (.ok a) v) (h' : L.IsHonest v r w) : L.IsHonest u r w := by
  rcases h with ⟨hlost, -⟩ | ⟨-, text, h⟩
  · unfold IsHonest at h' ⊢
    rwa [hlost] at h'
  · cases h

theorem of_error {e : Failure} (h : L.IsHonest u (.error e : Except Failure α) v) :
    L.IsHonest u (.error e : Except Failure β) v := by
  rcases h with ⟨hlost, hown⟩ | ⟨hlost, text, h⟩
  · exact .inl ⟨hlost, .error (hown e rfl)⟩
  · cases h
    exact .inr ⟨hlost, text, rfl⟩

end IsHonest

variable (L) in
/-- What comes of anything that is done on a line: the world is later, only losses make the engine
unavailable, and there are none if it is up. -/
structure Passes (u : World σ) (r : Except Failure α) (v : World σ) : Prop where
  leads : L.Leads u v
  isHonest : L.IsHonest u r v
  isUp : L.IsUp u.engine → L.IsUp v.engine ∧ L.lost v.engine = L.lost u.engine

namespace Passes

variable {u v w : World σ}

theorem refl {r : Except Failure α} (hw : L.steady w.engine) (h : Failure.Own r) : L.Passes w r w :=
  ⟨.refl hw, .inl ⟨rfl, h⟩, fun hup => ⟨hup, rfl⟩⟩

theorem trans {a : α} {r : Except Failure β} (h : L.Passes u (.ok a) v) (h' : L.Passes v r w) :
    L.Passes u r w where
  leads := h.leads.trans h'.leads
  isHonest := h.isHonest.trans h'.isHonest
  isUp hup := by
    obtain ⟨hv, hlost⟩ := h.isUp hup
    obtain ⟨hw, hlost'⟩ := h'.isUp hv
    exact ⟨hw, hlost'.trans hlost⟩

theorem of_error {e : Failure} (h : L.Passes u (.error e : Except Failure α) v) :
    L.Passes u (.error e : Except Failure β) v := ⟨h.leads, h.isHonest.of_error, h.isUp⟩

theorem lost_le {r : Except Failure α} (h : L.Passes u r v) : L.lost u.engine ≤ L.lost v.engine := by
  rcases h.isHonest with ⟨h, -⟩ | ⟨h, -⟩ <;> omega

/-- A request of which something is made. -/
theorem inquiry {q : Request} {read : Except ClientError Json → Except Failure α} (hread : Reading read)
    (hping : q ≠ .ping) (hq : d.Asks q) (hw : L.steady w.engine) :
    L.Passes w (read (d.client.send q w.engine).1) (w.asked d q) := by
  refine ⟨.asked hq hw, ?_, fun hup => ⟨hup.sent hq, hup.lost_eq hq⟩⟩
  rcases L.send hq hw with ⟨hsame, hanswer⟩ | ⟨hgrown, hanswer⟩
  · rw [hanswer]
    exact .inl ⟨hsame, hread.own (L.through q)⟩
  · exact .inr ⟨hgrown, hread.of_isLost hping hanswer⟩

end Passes

variable (L) in
/-- Nothing else comes of it. -/
def Carries (x : Action σ α) : Prop := ∀ w : World σ, L.steady w.engine → x.Meets w (L.Passes w)

namespace Carries

variable {x : Action σ α} {f : α → Action σ β}

theorem ofExcept {r : Except Failure α} (h : Failure.Own r) : L.Carries (Effect.ofExcept r : Action σ α) :=
  fun _ hw => Meets.ofExcept (.refl hw h)

theorem pure (a : α) : L.Carries (Pure.pure a : Action σ α) := fun _ hw => Meets.pure (.refl hw (.ok a))

theorem bind (hx : L.Carries x) (hf : ∀ a, L.Carries (f a)) : L.Carries (x >>= f) := fun w hw =>
  (hx w hw).bind (fun a v hv => (hf a v hv.leads.steady).mono fun _ _ hu => hv.trans hu)
    fun _ _ hv => hv.of_error

end Carries

theorem carries_resolve (l : Lookup) : L.Carries (l.resolve d) := fun _ hw =>
  have h := L.meets_resolve l hw
  ⟨h.1, h.2.isHonest, (echoes_resolve l).isUp⟩

end Line

end FactIndex
