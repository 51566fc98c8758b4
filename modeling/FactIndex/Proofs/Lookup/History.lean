import FactIndex.Description.Json
import FactIndex.Proofs.Cache.Content
import FactIndex.Proofs.Store.Request
import FactIndex.Store.Lookup

/-!
# What lookups have written

A lookup that is not answered from the cache searches, stores a long list as a document and remembers
what it found. In any order of lookups, and however time passes, the cache holds what was remembered last
under each key, and a stored list stays until one is stored under the same id.

## Main definitions

* `ListIndex`: what is known of the search engine that holds the lists.
* `Written`: a search by a lookup, and what it found.
* `LookupCall`, `LookupStep`: the four kinds of lookups, and the steps of a run.
* `Faithful`: cache and documents are those that a history has left.
* `LookupStep.faithful_run`: every run leaves them so.
-/

namespace FactIndex

open FactIndex.Digest FactIndex.Effect

variable {σ : Type}

/-! ## The engine and the history -/

/-- What is known of a search engine as the keeper of lists: it has a document where one was stored, a
store changes no other document, and neither searching nor refreshing changes any. A store that
fails may have been done all the same. -/
structure ListIndex (client : SearchClient σ) (index : String) where
  /-- The document under an id. -/
  document? : σ → String → Option Json
  stored : ∀ s id document answer t, client.send (.store index id document) s = (.ok answer, t) →
    document? t id = some document
  store_other : ∀ s id document other, id ≠ other →
    document? (client.send (.store index id document) s).2 other = document? s other
  search : ∀ s name options, document? (client.send (.search name options) s).2 = document? s
  refresh : ∀ s name, document? (client.send (.refresh name) s).2 = document? s

/-- What the id of a lookup document is made of: the mark in front, and the text of which the digest is
taken. -/
structure Subject where
  mark : String
  text : String
deriving DecidableEq

/-- A search by a lookup: what it was for, what it found, and whether the lookup came to an end. -/
structure Written where
  subject : Subject
  lookup : Lookup
  found : Found
  isComplete : Bool
deriving DecidableEq

namespace Written

/-- Whether the list is stored as a document. -/
def isStored (r : Written) : Bool := r.lookup.isStored r.found

/-- Whether the result is remembered. -/
def isRemembered (r : Written) : Bool :=
  r.isComplete && (r.isStored || r.found.errors.isEmpty)

/-- What is remembered was kept to the end. -/
theorem isComplete_of_isRemembered {r : Written} (h : r.isRemembered = true) : r.isComplete = true :=
  (Bool.and_eq_true_iff.mp h).1

/-- The document with the list. -/
def document (r : Written) : Json := .single "id" (.arr r.found.ids)

/-- The value that is remembered: the list itself, or a reference to the document. -/
def value (d : Deployment σ) (r : Written) : Json :=
  .obj [("count", .int r.found.count),
    if r.isStored then
      ("ref", Clause.reference (d.indexName IndexType.lookup) r.lookup.id "id")
    else ("ids", .arr r.found.ids)]

end Written

/-- What a lookup writes: nothing if it is answered from the cache, or if its search fails. -/
def Lookup.written? (d : Deployment σ) (subject : Subject) (l : Lookup) (w : World σ) :
    Option Written :=
  match (d.cached? l.key).outcome w with
  | (.ok remembered, w) =>
    if remembered.getD .null = .null then
      match (l.find d).outcome w with
      | (.ok found, w) => some ⟨subject, l, found, ((l.keep d found).outcome w).1.isOk⟩
      | (.error _, _) => none
    else none
  | (.error _, _) => none

/-! ## Runs -/

/-- A lookup of one of the four kinds. -/
inductive LookupCall where
  | plain (key field : String) (params : Json)
  | chain (property : Property) (text field : String) (params : Json)
  | concept (concept : Entity) (number : Json) (description : Description) (params : Json)
  | inverse (key field : String) (params : Json)

namespace LookupCall

/-- Makes the lookup. -/
def run (d : Deployment σ) : LookupCall → Action σ Resolved
  | .plain key field params => d.lookup key field params
  | .chain property text field params => d.lookupChain property text field params
  | .concept c number description params => d.lookupConcept c number description params
  | .inverse key field params => d.lookupInverse key field params

/-- What the lookup resolves, if there is anything to be resolved. -/
def lookup? (d : Deployment σ) : LookupCall → Option Lookup
  | .plain key _ params => some (d.plainLookup key params)
  | .chain _ _ _ params => some (d.chainLookup params)
  | .concept _ number description params =>
    description.queryText.toOption.map fun _ =>
      d.conceptLookup number description.fingerprint params
  | .inverse key field params =>
    if Deployment.isNothing params then none else some (d.inverseLookup key field params)

/-- What the id of the lookup document is made of: the body of the search, the number of a concept, or
the objects from which a property is followed. -/
def subject (d : Deployment σ) : LookupCall → Subject
  | .plain key _ params => ⟨"pre:", structuralText (.obj (d.plainLookup key params).body)⟩
  | .chain _ _ _ params => ⟨"", structuralText (.obj (d.chainLookup params).body)⟩
  | .concept _ number _ _ => ⟨"", number.plainText⟩
  | .inverse _ _ params => ⟨"in:", structuralText params⟩

end LookupCall

/-- The store with other settings for intermediate results. -/
def Deployment.withSubquery (d : Deployment σ) (s : SubquerySettings) : Deployment σ :=
  { d with settings := { d.settings with subquery := s } }

/-- A step of a run: a lookup with its settings, or time that passes. -/
inductive LookupStep where
  | call (settings : SubquerySettings) (call : LookupCall)
  | wait (seconds : Float)

namespace LookupStep

/-- The world after a step. -/
def after (d : Deployment σ) (w : World σ) : LookupStep → World σ
  | .call s c => ((c.run (d.withSubquery s)).outcome w).2
  | .wait seconds => { w with host := { w.host with network := w.host.network.advance seconds } }

/-- What a step writes. -/
def written? (d : Deployment σ) (w : World σ) : LookupStep → Option Written
  | .call s c =>
    let d := d.withSubquery s
    (c.lookup? d).bind fun l => l.written? d (c.subject d) w
  | .wait _ => none

/-- The world after several steps, and all that was written, the last at the end. -/
def run (d : Deployment σ) (w : World σ) : List LookupStep → World σ × List Written
  | [] => (w, [])
  | step :: steps =>
    let (last, history) := run d (step.after d w) steps
    (last, (step.written? d w).toList ++ history)

end LookupStep

/-! ## The invariant -/

variable {d : Deployment σ} {E : ListIndex d.client (d.indexName IndexType.lookup)}

/-- What a world keeps under a full key of the cache. -/
def World.kept (d : Deployment σ) (w : World σ) (full : String) : Option Json :=
  d.cache.kept (w.cache, w.host) full

/-- The cache and the lookup documents are those that a history has left: under each key the cache keeps
what was remembered last, and a list is there until one is stored under the same id. -/
structure Faithful (d : Deployment σ) (E : ListIndex d.client (d.indexName IndexType.lookup))
    (w : World σ) (history : List Written) : Prop where
  kept : ∀ full content, w.kept d full = some content →
    ∃ earlier r later, history = earlier ++ r :: later ∧ r.isRemembered = true ∧
      d.cache.fullKey r.lookup.key = .ok full ∧ content = d.cache.form (r.value d) ∧
      ∀ s ∈ later, s.isRemembered = true → s.lookup.key ≠ r.lookup.key
  stored : ∀ earlier r later, history = earlier ++ r :: later → r.isStored = true →
    r.isComplete = true → (∀ s ∈ later, s.isStored = true → s.lookup.id ≠ r.lookup.id) →
    E.document? w.engine r.lookup.id = some r.document

namespace Faithful

variable {w w' : World σ} {history : List Written}

/-- With an empty cache nothing has been written so far. -/
theorem of_empty (h : ∀ full, w.kept d full = none) : Faithful d E w [] where
  kept full content hcontent := by
    rw [h] at hcontent
    cases hcontent
  stored earlier r later heq := by simp at heq

/-- Nothing is forgotten that the cache keeps, and no document changes. -/
theorem mono (h : Faithful d E w history)
    (hkept : ∀ full content, w'.kept d full = some content → w.kept d full = some content)
    (hstored : E.document? w'.engine = E.document? w.engine) : Faithful d E w' history where
  kept full content hcontent := h.kept full content (hkept full content hcontent)
  stored earlier r later heq hlong hcomplete hlater := by
    rw [hstored]
    exact h.stored earlier r later heq hlong hcomplete hlater

/-- What one search writes is added to the history. -/
theorem append (h : Faithful d E w history) (r : Written)
    (hkept : if r.isRemembered then
        ∃ full, d.cache.fullKey r.lookup.key = .ok full ∧
          w'.kept d full = some (d.cache.form (r.value d)) ∧
          ∀ other, full ≠ other → w'.kept d other = w.kept d other
      else w'.kept d = w.kept d)
    (hself : r.isStored = true → r.isComplete = true →
      E.document? w'.engine r.lookup.id = some r.document)
    (hothers : ∀ id, (r.isStored = true → r.lookup.id ≠ id) →
      E.document? w'.engine id = E.document? w.engine id) :
    Faithful d E w' (history ++ [r]) where
  kept := by
    intro full content hcontent
    have hold : w.kept d full = some content →
        (r.isRemembered = true → d.cache.fullKey r.lookup.key ≠ .ok full) →
        ∃ earlier r' later, history ++ [r] = earlier ++ r' :: later ∧ r'.isRemembered = true ∧
          d.cache.fullKey r'.lookup.key = .ok full ∧ content = d.cache.form (r'.value d) ∧
          ∀ s ∈ later, s.isRemembered = true → s.lookup.key ≠ r'.lookup.key := by
      intro hwas hother
      rcases h.kept full content hwas with ⟨earlier, r', later, rfl, hr', hkey, hvalue, hlater⟩
      refine ⟨earlier, r', later ++ [r], by simp, hr', hkey, hvalue, fun s hs hsr heq => ?_⟩
      rcases List.mem_append.mp hs with hmem | hmem
      · exact hlater s hmem hsr heq
      · obtain rfl : s = r := by simpa using hmem
        exact hother hsr (heq ▸ hkey)
    by_cases hr : r.isRemembered = true
    · rw [if_pos hr] at hkept
      rcases hkept with ⟨own, hown, hvalue, hrest⟩
      by_cases hfull : own = full
      · subst hfull
        rw [hvalue] at hcontent
        exact ⟨history, r, [], rfl, hr, hown, (Option.some.inj hcontent).symm, by simp⟩
      · refine hold (by rwa [← hrest full hfull]) fun _ heq => hfull ?_
        exact Except.ok.inj (hown.symm.trans heq)
    · rw [if_neg hr] at hkept
      exact hold (by rwa [← hkept]) fun h => absurd h hr
  stored := by
    intro earlier r' later heq hlong hcomplete hlater
    rcases List.eq_nil_or_concat later with rfl | ⟨between, last, rfl⟩
    · rcases List.append_inj' heq rfl with ⟨_, hlast⟩
      cases hlast
      exact hself hlong hcomplete
    · have heq' : history ++ [r] = (earlier ++ r' :: between) ++ [last] := by simpa using heq
      obtain ⟨rfl, hlast⟩ := List.append_inj' heq' rfl
      cases hlast
      rw [hothers r'.lookup.id fun hstored heq => hlater r (by simp) hstored heq]
      exact h.stored earlier r' between rfl hlong hcomplete fun s hs =>
        hlater s (by simp [hs])

end Faithful

/-! ## One lookup -/

theorem kept_congr {w w' : World σ} (hcache : w'.cache = w.cache)
    (hserver : w'.host.server = w.host.server) : w'.kept d = w.kept d := by
  funext full
  unfold World.kept Cache.kept
  rw [hcache, hserver]

/-- Looking into the cache forgets nothing but what has expired, and asks the engine nothing. -/
theorem meets_cached (w : World σ) (key : Json) : (d.cached? key).Meets w fun _ after =>
    (∀ full content, after.kept d full = some content → w.kept d full = some content) ∧
      after.engine = w.engine := by
  have hget := @Cache.kept_get d.cache (w.cache, w.host) .waiting key
  have hattempt : (Effect.attempt (onCache (d.cache.get .waiting key) : Action σ Json)).Meets w
      fun _ after =>
        (∀ full content, after.kept d full = some content → w.kept d full = some content) ∧
          after.engine = w.engine := ⟨hget, rfl⟩
  refine hattempt.bind ?_ fun e after hafter => hafter
  intro r after hafter
  split
  · exact hafter
  · exact hafter
  · exact hafter

/-- What the cache keeps, and the lists. -/
def listView (E : ListIndex d.client (d.indexName IndexType.lookup)) (w : World σ) :
    (String → Option Json) × (String → Option Json) :=
  (w.kept d, E.document? w.engine)

theorem leaves_ask {r : Request}
    (h : ∀ s, E.document? (d.client.send r s).2 = E.document? s) : Leaves (listView E) (ask d r) := by
  intro w
  exact Prod.ext (kept_congr rfl rfl) (h w.engine)

/-- Searching leaves the cache and the lists alone. -/
theorem leaves_find (l : Lookup) : Leaves (listView E) (l.find d) := by
  have hsearch : Leaves (listView E) (d.search (d.indexName IndexType.data) l.body) := by
    refine (leaves_ask fun s => E.search s _ _).bind fun answer => ?_
    split
    · exact (Leaves.ofExcept _).bind fun _ => Leaves.pure _
    · exact Leaves.pure _
    · exact Leaves.throw _
  exact hsearch.bind fun _ => (Leaves.ofExcept _).bind fun _ => Leaves.pure _

/-- Storing a list leaves what requests leave. -/
theorem leaves_storeList {α : Type} {view : World σ → α} (h : ∀ r, Leaves view (ask d r)) (id : String)
    (ids : List Json) : Leaves view (Lookup.storeList d id ids) :=
  ((leaves_demand (h _)).bind fun _ => Leaves.pure _).bind fun _ =>
    ((leaves_demand (h _)).bind fun _ => Leaves.pure _).bind fun _ => Leaves.pure _

theorem leaves_kept_ask (r : Request) : Leaves (World.kept d) (ask d r) := fun _ => kept_congr rfl rfl

/-- Storing a list touches the document under its id and nothing else. The document is there if storing
succeeds. -/
theorem meets_storeList (E : ListIndex d.client (d.indexName IndexType.lookup)) (w : World σ)
    (id : String) (ids : List Json) : (Lookup.storeList d id ids).Meets w fun r after =>
      after.kept d = w.kept d ∧
      (∀ other, id ≠ other → E.document? after.engine other = E.document? w.engine other) ∧
      ∀ reference, r = .ok reference →
        reference = Clause.reference (d.indexName IndexType.lookup) id "id" ∧
        E.document? after.engine id = some (.single "id" (.arr ids)) := by
  let index := d.indexName IndexType.lookup
  let store := Request.store index id (.single "id" (.arr ids))
  have hstore : (d.storeDocument index id (.single "id" (.arr ids))).outcome w =
      (((d.client.send store w.engine).1.mapError Deployment.asFailure).map fun _ => (),
        w.asked d store) := d.outcome_demand_unit _ _
  have hrefresh : (d.refresh index).Meets (w.asked d store) fun _ after =>
      after.kept d = w.kept d ∧ E.document? after.engine = E.document? (w.asked d store).engine := by
    unfold Meets Deployment.refresh
    rw [d.outcome_demand_unit]
    exact ⟨kept_congr rfl rfl, E.refresh _ _⟩
  have hother : ∀ other, id ≠ other → E.document? (w.asked d store).engine other =
      E.document? w.engine other := fun other h => E.store_other _ _ _ _ h
  unfold Lookup.storeList
  cases hsend : (d.client.send store w.engine).1 with
  | error e =>
      rw [hsend] at hstore
      exact Meets.bind_of_error hstore ⟨kept_congr rfl rfl, hother, fun _ h => nomatch h⟩
  | ok answer =>
      rw [hsend] at hstore
      have hself : E.document? (w.asked d store).engine id = some (.single "id" (.arr ids)) :=
        E.stored w.engine id _ answer _ (Prod.ext hsend rfl)
      refine Meets.bind_of_ok hstore (hrefresh.bind ?_ ?_)
      · rintro _ after ⟨hkept, hlists⟩
        refine Meets.pure ⟨hkept, fun other h => by rw [hlists, hother other h], ?_⟩
        rintro _ ⟨⟩
        exact ⟨rfl, by rw [hlists, hself]⟩
      · rintro e after ⟨hkept, hlists⟩
        exact ⟨hkept, fun other h => by rw [hlists, hother other h], fun _ h => nomatch h⟩

/-- Remembering a result sets it under the key of the lookup, and nothing if it fails. -/
theorem meets_remember (E : ListIndex d.client (d.indexName IndexType.lookup)) (w : World σ)
    (l : Lookup) (count : Int) (name : String) (numbers : Json) :
    (l.remember d count name numbers).Meets w fun r after =>
      E.document? after.engine = E.document? w.engine ∧
      match r with
      | .ok _ => ∃ full, d.cache.fullKey l.key = .ok full ∧
          after.kept d full = some (d.cache.form (.obj [("count", .int count), (name, numbers)])) ∧
          ∀ other, full ≠ other → after.kept d other = w.kept d other
      | .error _ => after.kept d = w.kept d :=
  ⟨rfl, @Cache.meets_put d.cache (w.cache, w.host) .waiting l.key _ _⟩

/-- What a lookup keeps is added to the history. -/
theorem meets_keep {w : World σ} {history : List Written} (h : Faithful d E w history)
    (subject : Subject) (l : Lookup) (found : Found) : (l.keep d found).Meets w fun r after =>
      Faithful d E after (history ++ [⟨subject, l, found, r.isOk⟩]) := by
  unfold Lookup.keep
  dsimp only
  split
  · rename_i hstored
    have hfailed : ∀ {after : World σ}, after.kept d = w.kept d →
        (∀ other, l.id ≠ other → E.document? after.engine other = E.document? w.engine other) →
        Faithful d E after (history ++ [⟨subject, l, found, false⟩]) := by
      intro after hkept hother
      exact h.append _ (by simpa [Written.isRemembered] using hkept) (fun _ h => nomatch h)
        fun id hid => hother id (hid hstored)
    refine (meets_storeList E w l.id found.ids).bind ?_ ?_
    · rintro reference stored ⟨hkept, hother, href⟩
      rcases href reference rfl with ⟨rfl, hself⟩
      refine (meets_remember E stored l found.count "ref" _).bind ?_ ?_
      · rintro _ after ⟨hlists, full, hfull, hvalue, hrest⟩
        refine Meets.pure (h.append ⟨subject, l, found, true⟩ ?_
          (fun _ _ => by rw [hlists]; exact hself)
          fun id hid => by rw [hlists]; exact hother id (hid hstored))
        rw [if_pos (by simp [Written.isRemembered, Written.isStored, hstored])]
        refine ⟨full, hfull, ?_, fun other hne => by rw [hrest other hne, hkept]⟩
        simpa [Written.value, Written.isStored, hstored] using hvalue
      · rintro e after ⟨hlists, hafter⟩
        exact hfailed (hafter.trans hkept) fun other hne => by rw [hlists, hother other hne]
    · rintro e after ⟨hkept, hother, _⟩
      exact hfailed hkept hother
  · rename_i hstored
    have hlong : l.isStored found = false := by simpa using hstored
    split
    · rename_i herrors
      refine (meets_remember E w l found.count "ids" _).bind ?_ ?_
      · rintro _ after ⟨hlists, full, hfull, hvalue, hrest⟩
        refine Meets.pure (h.append ⟨subject, l, found, true⟩ ?_ (fun hs _ => ?_)
          fun id _ => by rw [hlists])
        · rw [if_pos (by simp [Written.isRemembered, herrors])]
          refine ⟨full, hfull, ?_, hrest⟩
          simpa [Written.value, Written.isStored, hlong] using hvalue
        · rw [Written.isStored, hlong] at hs
          cases hs
      · rintro e after ⟨hlists, hkept⟩
        refine h.append ⟨subject, l, found, false⟩ ?_ (fun _ hs => nomatch hs) fun id _ => by
          rw [hlists]
        simpa [Written.isRemembered] using hkept
    · rename_i herrors
      refine Meets.pure (h.append ⟨subject, l, found, true⟩ ?_ (fun hs _ => ?_) fun _ _ => rfl)
      · rw [if_neg (by simp [Written.isRemembered, Written.isStored, hlong, herrors])]
      · rw [Written.isStored, hlong] at hs
        cases hs

/-- What a lookup writes where it is not answered from the cache. -/
private theorem faithful_materialize {w : World σ} {history : List Written}
    (h : Faithful d E w history) (subject : Subject) (l : Lookup) :
    Faithful d E ((l.materialize d).outcome w).2 (history ++
      (match (l.find d).outcome w with
        | (.ok found, w) => some (⟨subject, l, found, ((l.keep d found).outcome w).1.isOk⟩ : Written)
        | (.error _, _) => none).toList) := by
  have hsearched : Faithful d E ((l.find d).outcome w).2 history := by
    have hview := leaves_find (E := E) l w
    have hkept : World.kept d ((l.find d).outcome w).2 = w.kept d := congrArg Prod.fst hview
    exact h.mono (fun full content => by rw [hkept]; exact id) (congrArg Prod.snd hview)
  unfold Lookup.materialize
  rcases hr : (l.find d).outcome w with ⟨e | found, searched⟩
  · rw [hr] at hsearched
    rw [outcome_bind_of_error hr, Option.toList_none, List.append_nil]
    exact hsearched
  · rw [hr] at hsearched
    rw [outcome_bind_of_ok hr]
    exact meets_keep hsearched subject l found

/-- A lookup adds to the history what it writes. -/
theorem faithful_resolve {w : World σ} {history : List Written} (h : Faithful d E w history)
    (subject : Subject) (l : Lookup) :
    Faithful d E ((l.resolve d).outcome w).2 (history ++ (l.written? d subject w).toList) := by
  have hcached := meets_cached (d := d) w l.key
  unfold Lookup.resolve Lookup.written?
  rcases hr : (d.cached? l.key).outcome w with ⟨e | remembered, looked⟩
  · rw [outcome_bind_of_error hr, Option.toList_none, List.append_nil]
    obtain ⟨hcache, hengine⟩ := hcached.of_outcome hr
    exact h.mono hcache (by rw [hengine])
  · rw [outcome_bind_of_ok hr]
    obtain ⟨hcache, hengine⟩ := hcached.of_outcome hr
    have hlooked : Faithful d E looked history := h.mono hcache (by rw [hengine])
    rcases remembered with _ | value
    · exact faithful_materialize hlooked subject l
    · by_cases hnull : value = .null
      · subst hnull
        exact faithful_materialize hlooked subject l
      · have hgiven : ¬ ((some value).getD Json.null = Json.null) := hnull
        simp only [if_neg hnull, if_neg hgiven, Option.toList_none, List.append_nil,
          outcome_ofExcept]
        exact hlooked

/-! ## Runs -/

/-- A call resolves its lookup, or leaves the world as it is. -/
theorem LookupCall.outcome_run (call : LookupCall) (w : World σ) :
    ((call.run d).outcome w).2 =
      match call.lookup? d with
      | some l => ((l.resolve d).outcome w).2
      | none => w := by
  have hresolved : ∀ (l : Lookup) (field name title : String),
      ((d.resolved l field name title).outcome w).2 = ((l.resolve d).outcome w).2 := by
    intro l field name title
    unfold Deployment.resolved
    rw [outcome_bind]
    rcases (l.resolve d).outcome w with ⟨_ | _, _⟩ <;> rfl
  cases call with
  | plain key field params => exact hresolved _ _ _ _
  | chain property text field params => exact hresolved _ _ _ _
  | concept c number description params =>
      simp only [LookupCall.run, LookupCall.lookup?, Deployment.lookupConcept]
      rw [outcome_bind, outcome_ofExcept]
      cases description.queryText with
      | error e => rfl
      | ok text => exact hresolved _ _ _ _
  | inverse key field params =>
      simp only [LookupCall.run, LookupCall.lookup?, Deployment.lookupInverse]
      cases Deployment.isNothing params with
      | true => rfl
      | false => exact hresolved _ _ _ _

namespace LookupStep

/-- A step adds to the history what it writes. -/
theorem faithful_after {w : World σ} {history : List Written} (h : Faithful d E w history)
    (step : LookupStep) :
    Faithful d E (step.after d w) (history ++ (step.written? d w).toList) := by
  cases step with
  | call s c =>
      unfold LookupStep.after LookupStep.written?
      dsimp only
      rw [LookupCall.outcome_run]
      cases hl : c.lookup? (d.withSubquery s) with
      | none => simpa using h
      | some l =>
          have hother : Faithful (d := d.withSubquery s) E w history := ⟨h.kept, h.stored⟩
          have hnext := faithful_resolve hother (c.subject (d.withSubquery s)) l
          exact ⟨hnext.kept, hnext.stored⟩
  | wait seconds =>
      have hsame : Faithful d E (LookupStep.after d w (.wait seconds)) history :=
        h.mono (fun _ _ => id) rfl
      simpa [LookupStep.written?] using hsame

/-- By induction on the steps: a run adds to the history what its steps write, one after the other. -/
theorem faithful_run {w : World σ} {history : List Written} (h : Faithful d E w history)
    (steps : List LookupStep) : Faithful d E (run d w steps).1 (history ++ (run d w steps).2) := by
  induction steps generalizing w history with
  | nil => simpa [run] using h
  | cons step steps ih =>
      have hnext := ih (faithful_after h step)
      rw [run, ← List.append_assoc]
      exact hnext

end LookupStep

end FactIndex
