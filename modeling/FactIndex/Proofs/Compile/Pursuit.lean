import FactIndex.Proofs.Compile.Steps
import FactIndex.Proofs.Store.Line
/-!
# One compilation after another

The same description may be compiled twice, in worlds that are not the same. If each step of the second
compilation does what that of the first one did, then so does the whole, until it stops because the search
engine is unavailable.

A compilation on an engine on which requests are lost does the same as one on an engine that is up, until
the first loss stops it. Repeated later on, it goes the same way again: what it has remembered is recalled,
and what it has not is searched for as before. It does so unless the first compilation had a lookup that was
refused. That one is not remembered, and the repeated compilation may recall what the same concept came to
at another place.

## Main definitions

* `Compiling.IsBuilt.later`, `Compiling.IsBuilt.isHonest`: what a compilation leaves behind in any case.
* `Compiling.Pursuit`: what two worlds have in common while one compilation follows the other.
* `Compiling.IsBuilt.follows`: the second compilation follows the first one.
* `Compiling.interruption`: a compilation that may be broken off.
* `Compiling.repetition`: a compilation that is repeated.
-/

namespace FactIndex

open FactIndex.Effect

variable {σ α β : Type} {d : Deployment σ}

/-! ## Calls -/

/-- The seconds for which the results of lookups are remembered. -/
def Deployment.IsLifetime (d : Deployment σ) (seconds : Float) : Prop :=
  seconds = d.settings.subquery.lifetimeSeconds ∨ seconds = d.settings.subquery.conceptLifetimeSeconds

theorem LookupCall.isLifetime_of_lookup? {call : LookupCall} {l : Lookup} (h : call.lookup? d = some l) :
    d.IsLifetime l.lifetime := by
  cases call with
  | plain key field params =>
      cases h
      exact .inl rfl
  | chain property text field params =>
      cases h
      exact .inl rfl
  | concept c number description params =>
      simp only [lookup?, Option.map_eq_some_iff] at h
      obtain ⟨-, -, rfl⟩ := h
      exact .inr rfl
  | inverse key field params =>
      simp only [lookup?] at h
      split at h
      · cases h
      · cases h
        exact .inl rfl

/-- A call fails or answers by itself, or it resolves a lookup and reports on that. -/
theorem LookupCall.run_cases (call : LookupCall) (d : Deployment σ) :
    (∃ r : Except Failure Resolved, Failure.Own r ∧ call.run d = Effect.ofExcept r) ∨
      ∃ (l : Lookup) (field : String) (header : Members), d.IsLifetime l.lifetime ∧
        Table.get? header "errors" = none ∧ call.run d = (do
          let m ← l.resolve d
          return ⟨d.hasNumber field m.numbers, header ++ m.record⟩) := by
  cases hlookup : call.lookup? d with
  | none => exact .inl (own_of_lookup? hlookup)
  | some l =>
      obtain ⟨header, hheader, hrun⟩ := run_of_lookup? hlookup
      exact .inr ⟨l, call.target, header, isLifetime_of_lookup? hlookup, hheader "errors" (by simp), hrun⟩

namespace Compiling

variable (L : Line d) {x : Compiling σ α}

/-! ## One run -/

/-- What a compilation leaves behind in any case, as far as the world goes. The records are those from
before and more. -/
structure Advances (s : World σ × Progress) (r : Except Failure α) (t : World σ × Progress) : Prop where
  passes : L.Passes s.1 r t.1
  records : s.2.records <+: t.2.records

namespace Advances

variable {L} {s t u : World σ × Progress}

theorem refl {r : Except Failure α} (hs : L.steady s.1.engine) (h : Failure.Own r) : Advances L s r s :=
  ⟨.refl hs h, List.prefix_rfl⟩

theorem trans {a : α} {r : Except Failure β} (h : Advances L s (.ok a) t) (h' : Advances L t r u) :
    Advances L s r u :=
  ⟨h.passes.trans h'.passes, h.records.trans h'.records⟩

theorem of_error {e : Failure} (h : Advances L s (.error e : Except Failure α) t) :
    Advances L s (.error e : Except Failure β) t := ⟨h.passes.of_error, h.records⟩

end Advances

/-- Numbers and labels only add to the catalog. -/
theorem advances_setCatalog {c : Catalog} {r : Except Failure α} {s : World σ × Progress}
    (hs : L.steady s.1.engine) (hc : s.1.catalog.Reaches c) (hr : Failure.Own r) :
    Advances L s r ({ s.1 with catalog := c }, s.2) :=
  ⟨⟨⟨⟨⟨hc, fun _ _ => id, id⟩, List.suffix_rfl, rfl⟩, hs⟩, .inl ⟨rfl, hr⟩, fun hup => ⟨hup, rfl⟩⟩,
    List.prefix_rfl⟩

theorem carries_call (call : LookupCall) : L.Carries (call.run d) := by
  rcases call.run_cases d with ⟨r, hown, hrun⟩ | ⟨l, field, header, -, -, hrun⟩ <;> rw [hrun]
  · exact .ofExcept hown
  · exact (Line.carries_resolve l).bind fun _ => .pure _

/-- A lookup is recorded if it has a result. -/
theorem advances_lookUp (call : LookupCall) {s : World σ × Progress} (hs : L.steady s.1.engine) :
    (lookUp (call.run d)).Meets s fun r t => Advances L s r t := by
  have hcall := carries_call L call s.1 hs
  unfold Meets
  rcases hr : (call.run d).outcome s.1 with ⟨e | r, v⟩ <;> replace hcall := hcall.of_outcome hr
  · rw [outcome_lookUp_of_error hr]
    exact ⟨hcall.of_error, List.prefix_rfl⟩
  · rw [outcome_lookUp_of_ok hr]
    exact ⟨hcall.trans (.refl hcall.leads.steady (.ok _)), List.prefix_append _ _⟩

/-- Every compilation advances: by induction on the steps that it is made of. -/
theorem IsBuilt.advances (hx : IsBuilt d x) {s : World σ × Progress} (hs : L.steady s.1.engine) :
    x.Meets s fun r t => Advances L s r t := by
  induction hx generalizing s with
  | pure a => exact .refl hs (.ok a)
  | ofExcept h => exact Meets.ofExcept (.refl hs h)
  | numberOf item => exact advances_setCatalog L hs (s.1.catalog.reaches_number item) (.ok _)
  | sortProperty label => exact advances_setCatalog L hs (s.1.catalog.reaches_number _) (.ok _)
  | onCatalog _ _ ih => exact ih s.1.catalog hs
  | onProgress _ _ ih => exact ih s.2 hs
  | @note g h =>
      have hsame : g s.2 = { g s.2 with records := s.2.records } := h s.2 s.2.records
      have hrecords : (g s.2).records = s.2.records := by rw [hsame]
      exact ⟨.refl hs (.ok _), hrecords ▸ List.prefix_rfl⟩
  | lookUp call => exact advances_lookUp L call hs
  | bind _ _ ihx ihf =>
      exact (ihx hs).bind (fun a t ht => (ihf a ht.passes.leads.steady).mono fun r u hu => ht.trans hu)
        fun e t ht => ht.of_error
  | expandingOf hash _ ih =>
      have h := ih (s := (s.1, { s.2 with expanding := s.2.expanding ++ [hash] })) hs
      unfold Meets
      rw [outcome_expandingOf]
      exact ⟨h.passes, h.records⟩

/-! ## Two runs -/

/-- What has come to light is the same but for the records of lookups. -/
def Akin (p q : Progress) : Prop := ({ p with records := [] } : Progress) = { q with records := [] }

theorem Akin.map {p q : Progress} {g : Progress → Progress}
    (hg : ∀ p records, g { p with records } = { g p with records }) (h : Akin p q) : Akin (g p) (g q) :=
  (hg p []).symm.trans ((congrArg g h).trans (hg q []))

theorem outcome_sortProperty (label : String) (s : World σ × Progress) :
    let p := s.1.catalog.findProperty label
    (act (Sorting.property label)).outcome s = (.ok (p, (s.1.catalog.number (.property p)).1),
      ({ s.1 with catalog := (s.1.catalog.number (.property p)).2 }, s.2)) := rfl

/-- What two worlds have in common while the second compilation follows the first one, and what is known of
them once the second one has stopped. -/
structure Pursuit (L : Line d) where
  base : World σ → World σ → Prop
  steady : ∀ {u v : World σ}, base u v → L.steady u.engine
  /-- What is asked of the first compilation. If it holds at the end, then it held all the time. -/
  fine : World σ → List Members → Prop
  /-- The second compilation has stopped, and the first one is at the same place or further on. -/
  passed : World σ → World σ → Prop
  fine_of_later : ∀ {u u' : World σ} {records records' : List Members}, u.Later d u' →
    records <+: records' → fine u' records' → fine u records
  passed_of_later : ∀ {u u' v : World σ}, passed u v → u.Later d u' → passed u' v
  number : ∀ {u v : World σ} {records : List Members} (item : Numbered), base u v →
    fine { u with catalog := (u.catalog.number item).2 } records →
    (v.catalog.number item).1 = (u.catalog.number item).1 ∧
      base { u with catalog := (u.catalog.number item).2 } { v with catalog := (v.catalog.number item).2 }
  label : ∀ {u v : World σ} {records : List Members} (label : String), base u v →
    fine { u with catalog := (u.catalog.number (.property (u.catalog.findProperty label))).2 } records →
    v.catalog.findProperty label = u.catalog.findProperty label
  catalog : ∀ {u v : World σ}, base u v →
    v.catalog.hierarchy = u.catalog.hierarchy ∧ v.catalog.concepts = u.catalog.concepts
  lookUp : ∀ {u v u' : World σ} {records : List Members} {r : Resolved} (call : LookupCall), base u v →
    (call.run d).outcome u = (.ok r, u') → fine u' (records ++ [r.record]) →
    (∃ r' v', (call.run d).outcome v = (.ok r', v') ∧ r'.clause = r.clause ∧ base u' v') ∨
      ∃ text v', (call.run d).outcome v = (.error (.unavailable text), v') ∧ passed u' v'

variable {L}

/-- The second compilation follows the first one, or it has stopped. -/
def Pursuit.Follows (P : Pursuit L) (x : Compiling σ α) (a : α) (s t : World σ × Progress) : Prop :=
  (∃ t', x.outcome t = (.ok a, t') ∧ P.base s.1 t'.1 ∧ Akin s.2 t'.2) ∨
    ∃ text t', x.outcome t = (.error (.unavailable text), t') ∧ P.passed s.1 t'.1

/-- The second compilation follows the first one: by induction on the steps that they are made of. -/
theorem IsBuilt.follows (P : Pursuit L) (hx : IsBuilt d x) {s t s' : World σ × Progress} {a : α}
    (hbase : P.base s.1 t.1) (hakin : Akin s.2 t.2) (h : x.outcome s = (.ok a, s'))
    (hfine : P.fine s'.1 s'.2.records) : P.Follows x a s' t := by
  induction hx generalizing s t s' with
  | pure a =>
      cases h
      exact .inl ⟨t, rfl, hbase, hakin⟩
  | @ofExcept _ r hr =>
      rw [outcome_ofExcept] at h
      cases h
      exact .inl ⟨t, outcome_ofExcept _ _, hbase, hakin⟩
  | numberOf item =>
      cases h
      obtain ⟨hn, hbase'⟩ := P.number item hbase hfine
      refine .inl ⟨({ t.1 with catalog := (t.1.catalog.number item).2 }, t.2), ?_, hbase', hakin⟩
      exact congrArg (fun n => (Except.ok n, ({ t.1 with catalog := (t.1.catalog.number item).2 }, t.2))) hn
  | sortProperty label =>
      rw [outcome_sortProperty] at h
      cases h
      have hlabel := P.label label hbase hfine
      obtain ⟨hn, hbase'⟩ := P.number (.property (s.1.catalog.findProperty label)) hbase hfine
      have ht := outcome_sortProperty label t
      dsimp only at ht
      rw [hlabel, hn] at ht
      exact .inl ⟨_, ht, hbase', hakin⟩
  | onCatalog hsame _ ih =>
      obtain ⟨hhierarchy, hconcepts⟩ := P.catalog hbase
      have hrest := ih s.1.catalog hbase hakin h hfine
      rw [← hsame _ _ hhierarchy hconcepts] at hrest
      exact hrest
  | @onProgress _ f hsame _ ih =>
      have hf : f t.2 = f s.2 := (hsame t.2 []).symm.trans ((congrArg f hakin).symm.trans (hsame s.2 []))
      have hrest := ih s.2 hbase hakin h hfine
      rw [← hf] at hrest
      exact hrest
  | @note g hsame =>
      cases h
      exact .inl ⟨(t.1, g t.2), rfl, hbase, hakin.map hsame⟩
  | lookUp call =>
      rcases hu : (call.run d).outcome s.1 with ⟨e | r, u'⟩
      · rw [outcome_lookUp_of_error hu] at h
        cases h
      · rw [outcome_lookUp_of_ok hu] at h
        cases h
        rcases P.lookUp call hbase hu hfine with ⟨r', v', hv, hclause, hbase'⟩ | ⟨text, v', hv, hpassed⟩
        · have ht := outcome_lookUp_of_ok hv
          rw [hclause] at ht
          exact .inl ⟨_, ht, hbase', hakin⟩
        · exact .inr ⟨text, _, outcome_lookUp_of_error hv, hpassed⟩
  | bind hx hf ihx ihf =>
      obtain ⟨a, mid, hxs, hfs⟩ := exists_of_bind_ok h
      have hmid := (hx.advances L (P.steady hbase)).of_outcome hxs
      have hadvances := ((hf a).advances L hmid.passes.leads.steady).of_outcome hfs
      have hlater := hadvances.passes.leads.toLater
      rcases ihx hbase hakin hxs (P.fine_of_later hlater hadvances.records hfine) with
        ⟨mid', hxt, hbase', hakin'⟩ | ⟨text, mid', hxt, hpassed⟩
      · have hrest := ihf a hbase' hakin' hfs hfine
        unfold Pursuit.Follows at hrest ⊢
        rwa [outcome_bind_of_ok hxt]
      · exact .inr ⟨text, mid', outcome_bind_of_error hxt _, P.passed_of_later hpassed hlater⟩
  | @expandingOf _ hash x _ ih =>
      let push (p : Progress) : Progress := { p with expanding := p.expanding ++ [hash] }
      let pop (p : Progress) : Progress := { p with expanding := p.expanding.dropLast }
      have hrun : ∀ s : World σ × Progress, (Compiling.expandingOf hash x).outcome s =
          ((x.outcome (s.1, push s.2)).1, ((x.outcome (s.1, push s.2)).2.1,
            pop (x.outcome (s.1, push s.2)).2.2)) := outcome_expandingOf hash x
      rw [hrun] at h
      rcases hs : x.outcome (s.1, push s.2) with ⟨r, u, p⟩
      rw [hs] at h
      cases h
      have hfollows := ih (s := (s.1, push s.2)) (t := (t.1, push t.2)) hbase
        (hakin.map (g := push) fun _ _ => rfl) hs hfine
      unfold Pursuit.Follows at hfollows ⊢
      rw [hrun]
      rcases hfollows with ⟨⟨v, q⟩, ht, hbase', hakin'⟩ | ⟨text, ⟨v, q⟩, ht, hpassed⟩ <;> rw [ht]
      · exact .inl ⟨_, rfl, hbase', hakin'.map (g := pop) fun _ _ => rfl⟩
      · exact .inr ⟨text, _, rfl, hpassed⟩

end Compiling

namespace Compiling

variable (L : Line d)

/-! ## Broken off -/

theorem echoes_call (call : LookupCall) : L.Echoes (call.run d) := by
  rcases call.run_cases d with ⟨r, -, hrun⟩ | ⟨l, field, header, -, -, hrun⟩ <;> rw [hrun]
  · exact .ofExcept r
  · exact (Line.echoes_resolve l).bind fun _ => .pure _

/-- A lookup of which a request is lost leaves nothing behind. -/
theorem behind_of_lost (call : LookupCall) {u v : World σ} {r : Except Failure Resolved}
    (hu : L.steady u.engine) (h : (call.run d).outcome u = (r, v)) (hlost : L.lost u.engine < L.lost v.engine) :
    u.ReachesCache d ∧ v.catalog = u.catalog ∧ v.recalled d = u.recalled d := by
  rcases call.run_cases d with ⟨r, -, hrun⟩ | ⟨l, field, header, -, -, hrun⟩ <;> rw [hrun] at h
  · rw [outcome_ofExcept] at h
    cases h
    omega
  · have hv : v = ((l.resolve d).outcome u).2 := by
      rw [outcome_bind] at h
      rcases hl : (l.resolve d).outcome u with ⟨e | m, v'⟩ <;> rw [hl] at h <;> cases h <;> rfl
    rw [hv] at hlost ⊢
    obtain ⟨hlinked, hrecalled⟩ := (L.meets_resolve l hu).2.of_lost hlost
    exact ⟨hlinked, d.keepsCatalog_resolve l u, hrecalled⟩

/-- A compilation on an engine on which requests may be lost goes the way of one on an engine that is up,
until a loss stops it. -/
def interruption : Pursuit L where
  base u v := L.IsUp u.engine ∧ L.steady v.engine ∧ v = { u with engine := v.engine }
  steady hbase := hbase.1.1
  fine _ _ := True
  passed u v := v.Behind d u
  fine_of_later _ _ _ := trivial
  passed_of_later hpassed hlater := hpassed.trans hlater.toBehind
  number := by
    rintro u v records item ⟨hup, hsteady, hv⟩ -
    refine ⟨by rw [hv], hup, hsteady, ?_⟩
    rw [hv]
  label := by
    rintro u v records label ⟨-, -, hv⟩ -
    rw [hv]
  catalog := by
    rintro u v ⟨-, -, hv⟩
    rw [hv]
    exact ⟨rfl, rfl⟩
  lookUp := by
    rintro u v u' records r call ⟨hup, hsteady, hv⟩ hu -
    obtain ⟨hle, hsteady', hecho⟩ := echoes_call L call u v.engine hsteady
    obtain ⟨⟨hup', -⟩, hsame⟩ := hecho hup
    rw [← hv] at hle hsteady' hsame
    rw [hu] at hup' hsame
    rcases hr : (call.run d).outcome v with ⟨r', v'⟩
    rw [hr] at hle hsteady' hsame
    rcases Nat.lt_or_ge (L.lost v.engine) (L.lost v'.engine) with hlost | hge
    · obtain ⟨hlinked, hcatalog, hrecalled⟩ := behind_of_lost L call hsteady hr hlost
      have hbehind : v'.Behind d u := by
        rw [hv] at hcatalog hrecalled hlinked
        exact ⟨hcatalog ▸ .refl, fun key found hfound => by rwa [hrecalled] at hfound, fun _ => hlinked⟩
      have hlater := ((carries_call L call u hup.1).of_outcome hu).leads.toLater
      rcases ((carries_call L call v hsteady).of_outcome hr).isHonest with ⟨heq, -⟩ | ⟨-, text, htext⟩
      · exact absurd heq (Nat.ne_of_gt hlost)
      · cases htext
        exact .inr ⟨text, v', rfl, hbehind.trans hlater.toBehind⟩
    · obtain ⟨hr', hv'⟩ := Prod.mk.inj (hsame (Nat.le_antisymm hge hle))
      exact .inl ⟨r, v', by rw [hr'], rfl, hup', hsteady', hv'⟩

/-! ## Repeated -/

variable {L}

/-- A lookup that has had a result has the same one again: it is recalled, or searched for as before. -/
theorem resolve_again {l : Lookup} {u v u' : World σ} {m : Materialized}
    (hu : L.steady u.engine) (hv : L.IsUp v.engine) (hbehind : u.Behind d v)
    (hlasts : d.Lasts u.host.network.now l.lifetime) (hlasts' : d.Lasts v.host.network.now l.lifetime)
    (h : (l.resolve d).outcome u = (.ok m, u')) (herrors : Table.get? m.record "errors" = none)
    (hagree : ∀ key found found', v.recalled d key = some found → u'.recalled d key = some found' →
      found = found') :
    ∃ m' v', (l.resolve d).outcome v = (.ok m', v') ∧ m'.numbers = m.numbers ∧ u'.Behind d v' ∧
      ∀ e, v.Behind d e → u'.Behind d e → v'.Behind d e := by
  have hcatalog := d.keepsCatalog_resolve l u
  have hresolves := (L.meets_resolve l hu).2
  rw [h] at hcatalog hresolves
  have hcatalog' : ∀ {r v'}, (l.resolve d).outcome v = (r, v') → u'.catalog.Reaches v'.catalog := by
    intro r v' hv'
    have hkeeps := d.keepsCatalog_resolve l v
    rw [hv'] at hkeeps
    dsimp only at hkeeps hcatalog
    rw [hkeeps, hcatalog]
    exact hbehind.catalog
  generalize hr : Except.ok m = r at hresolves
  cases hresolves with
  | unlinked => cases hr
  | @recalled found after hlinked hfound hprospect =>
      obtain ⟨looked, hlooked, hresolve⟩ := l.outcome_resolve (hbehind.reachesCache hlinked)
      rw [hbehind.recalled _ _ hfound] at hresolve
      dsimp only at hresolve
      rw [show found >>= l.ofRemembered = .ok m from hr.symm] at hresolve
      have hsame := World.recalled_of_prospect hlooked
      refine ⟨m, looked, hresolve, rfl, ⟨hcatalog' hresolve, fun key value hvalue => ?_, fun _ => ?_⟩,
        fun e h _ => (World.Later.of_prospect hlooked.symm).toBehind.trans h⟩
      · rw [World.recalled_of_prospect hprospect] at hvalue
        rw [hsame]
        exact hbehind.recalled key value hvalue
      · exact (World.reachesCache_of_prospect hlooked).mpr (hbehind.reachesCache hlinked)
  | materialized hlinked hnew hmaterializes =>
      have hlinked' := hbehind.reachesCache hlinked
      cases hmaterializes with
      | lost | failed => cases hr
      | @refused found after hlost hfound herrors' =>
          cases hr
          simp [Lookup.materializedOf, herrors', Table.get?] at herrors
      | @kept found after hlost hfound hnone haccepts hothers hself =>
          cases hr
          have hself := hself hlasts
          -- what the first lookup has remembered, the second one recalls or remembers as well
          have hbehind' : ∀ w : World σ, (∀ key value, v.recalled d key = some value →
              w.recalled d key = some value) → w.recalled d l.keyText = some (.ok (l.valueOf d found)) →
                ∀ key value, u'.recalled d key = some value → w.recalled d key = some value := by
            intro w hw hvalue key value hkey
            by_cases hsame : key = l.keyText
            · rw [hsame] at hkey ⊢
              rw [hvalue, ← hself, hkey]
            · exact hw key value (hbehind.recalled key value (by rwa [← hothers key hsame]))
          cases hrecalled : v.recalled d l.keyText with
          | some other =>
              cases hagree _ _ _ hrecalled hself
              obtain ⟨looked, hlooked, hresolve⟩ := l.outcome_resolve hlinked'
              rw [hrecalled] at hresolve
              have hsame := World.recalled_of_prospect hlooked
              refine ⟨_, looked, hresolve.trans (congrArg (·, looked) Lookup.ofRemembered_valueOf), rfl,
                ⟨hcatalog' hresolve, hbehind' looked ?_ ?_, fun _ => ?_⟩,
                fun e h _ => (World.Later.of_prospect hlooked.symm).toBehind.trans h⟩
              · exact fun key value hvalue => by rwa [hsame]
              · rw [hsame, hrecalled]
              · exact (World.reachesCache_of_prospect hlooked).mpr hlinked'
          | none =>
              have hlater := (L.meets_resolve l hv.1).1.toLater
              have hresolves := (L.meets_resolve l hv.1).2
              have hup := ((Line.echoes_resolve l).isUp hv).2
              rcases hresolve : (l.resolve d).outcome v with ⟨r, v'⟩
              rw [hresolve] at hlater hresolves hup
              cases hresolves with
              | unlinked hlost => exact absurd hlinked' hlost
              | recalled _ hfound' =>
                  rw [hrecalled] at hfound'
                  cases hfound'
              | materialized _ _ hmaterializes =>
                  cases hmaterializes with
                  | lost text hlost => exact absurd hup (Nat.ne_of_gt hlost)
                  | failed _ _ _ hcause =>
                      rcases hcause with hcause | hcause
                      · rw [hfound] at hcause
                        cases hcause
                      · exact absurd haccepts hcause
                  | @refused found' _ _ hfound' herrors' =>
                      rw [hfound] at hfound'
                      cases hfound'
                      exact absurd hnone herrors'
                  | @kept found' _ _ hfound' _ _ hothers' hself' =>
                      rw [hfound] at hfound'
                      cases hfound'
                      refine ⟨_, v', rfl, rfl, ⟨hcatalog' hresolve, hbehind' v' hlater.recalled
                        (hself' hlasts'), fun _ => hlater.reachesCache hlinked'⟩,
                        fun e hve hue => ⟨?_, fun key value hvalue => ?_, fun _ => hve.reachesCache hlinked'⟩⟩
                      · have hkeeps := d.keepsCatalog_resolve l v
                        rw [hresolve] at hkeeps
                        exact hkeeps ▸ hve.catalog
                      · by_cases hsame : key = l.keyText
                        · rw [hsame] at hvalue ⊢
                          exact hue.recalled _ _ (by rw [hself, ← hself' hlasts', hvalue])
                        · exact hve.recalled key value (by rwa [← hothers' key hsame])

/-- No lookup that is recorded was refused. -/
def AllAccepted (records : List Members) : Prop := ∀ record ∈ records, Table.get? record "errors" = none

theorem AllAccepted.of_front {records records' : List Members} (h : AllAccepted records')
    (hfront : records <+: records') : AllAccepted records :=
  fun record hrecord => h record (hfront.subset hrecord)

/-- The times for which lookups are remembered last at least for a moment. -/
def LastsAt (d : Deployment σ) (now : Float) : Prop :=
  ∀ seconds, d.IsLifetime seconds → d.Lasts now seconds

/-- What a call has come to, it comes to again. -/
theorem call_again (call : LookupCall) {u v u' : World σ} {r : Resolved} (hu : L.steady u.engine)
    (hv : L.IsUp v.engine) (hbehind : u.Behind d v) (hlasts : LastsAt d u.host.network.now)
    (hlasts' : LastsAt d v.host.network.now) (h : (call.run d).outcome u = (.ok r, u'))
    (herrors : Table.get? r.record "errors" = none)
    (hagree : ∀ key found found', v.recalled d key = some found → u'.recalled d key = some found' →
      found = found') :
    ∃ r' v', (call.run d).outcome v = (.ok r', v') ∧ r'.clause = r.clause ∧ u'.Behind d v' ∧
      ∀ e, v.Behind d e → u'.Behind d e → v'.Behind d e := by
  rcases call.run_cases d with ⟨result, -, hrun⟩ | ⟨l, field, header, hlifetime, hheader, hrun⟩ <;>
    rw [hrun] at h ⊢
  · rw [outcome_ofExcept] at h
    cases h
    exact ⟨r, v, outcome_ofExcept _ _, rfl, hbehind, fun _ h _ => h⟩
  · obtain ⟨m, mid, hresolve, hanswer⟩ := exists_of_bind_ok h
    cases hanswer
    have hnone : Table.get? m.record "errors" = none := by rwa [Table.get?_append hheader] at herrors
    obtain ⟨m', v', hresolve', hnumbers, hrest⟩ := resolve_again hu hv hbehind (hlasts _ hlifetime)
      (hlasts' _ hlifetime) hresolve hnone hagree
    exact ⟨_, v', outcome_bind_of_ok hresolve' _, by rw [hnumbers], hrest⟩

variable (L) in
/-- A compilation that is repeated on an engine that is up, in a world that lies between the beginning and
the end of the first compilation. -/
def repetition (e : World σ) {now now' : Float} (hlasts : LastsAt d now) (hlasts' : LastsAt d now') :
    Pursuit L where
  base u v := L.steady u.engine ∧ L.IsUp v.engine ∧ u.Behind d v ∧ v.Behind d e ∧ u.catalog.IsFiled ∧
    u.host.network.now = now ∧ v.host.network.now = now'
  steady hbase := hbase.1
  fine u records := u.Behind d e ∧ AllAccepted records
  passed _ _ := False
  fine_of_later hlater hfront hfine := ⟨hlater.toBehind.trans hfine.1, hfine.2.of_front hfront⟩
  passed_of_later hpassed _ := hpassed
  number := by
    rintro u v records item ⟨hsteady, hup, huv, hve, hfiled, hu, hv⟩ ⟨hue, -⟩
    obtain ⟨hn, huv', hve'⟩ := Catalog.number_of_reaches huv.catalog hve.catalog hue.catalog
    exact ⟨hn, hsteady, hup, ⟨huv', huv.recalled, huv.reachesCache⟩, ⟨hve', hve.recalled, hve.reachesCache⟩,
      hfiled.reaches (u.catalog.reaches_number item), hu, hv⟩
  label := by
    rintro u v records label ⟨-, -, huv, hve, hfiled, -⟩ ⟨hue, -⟩
    exact Catalog.findProperty_of_reaches hfiled huv.catalog hve.catalog label hue.catalog
  catalog := by
    rintro u v ⟨-, -, huv, -⟩
    exact ⟨huv.catalog.grows.hierarchy, huv.catalog.grows.concepts⟩
  lookUp := by
    rintro u v u' records r call ⟨hsteady, hup, huv, hve, hfiled, rfl, rfl⟩ h ⟨hue, haccepted⟩
    have hleads := ((carries_call L call u hsteady).of_outcome h).leads
    have herrors : Table.get? r.record "errors" = none := haccepted _ (by simp)
    have hagree : ∀ key found found', v.recalled d key = some found → u'.recalled d key = some found' →
        found = found' := fun key found found' hfound hfound' =>
      Option.some.inj ((hve.recalled _ _ hfound).symm.trans (hue.recalled _ _ hfound'))
    obtain ⟨r', v', hagain, hclause, huv', hve'⟩ :=
      call_again call hsteady hup huv hlasts hlasts' h herrors hagree
    have hagain' := (carries_call L call v hup.1).of_outcome hagain
    exact .inl ⟨r', v', hagain, hclause, hleads.steady, (hagain'.isUp hup).1, huv', hve' e hve hue,
      hfiled.reaches hleads.catalog, hleads.now, hagain'.leads.now⟩

end Compiling

end FactIndex
