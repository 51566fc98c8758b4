import FactIndex.Proofs.Search.Grammar
import FactIndex.Proofs.Update.Replication
import FactIndex.Store.Lookup

/-!
# The searches of lookups

A lookup searches at most once, for what the clauses that it is given select. The query of the search is
one of the grammar, and so is the condition that the lookup amounts to, whatever the search engine and the
cache answer.

## Main definitions

* `World.SearchesOn`: only searches by queries of the grammar are sent.
* `SearchesWell`: an action that sends no others.
* `Deployment.searchesWell_resolved`: lookups are such actions.
* `Deployment.isQuery_hasNumber`: what a lookup amounts to is a query.
-/

namespace FactIndex

open FactIndex.Effect FactIndex.KeyValue

variable {σ α β : Type}

/-! ## The searches that are sent -/

/-- The record of a request with a query of the grammar. -/
def Call.HasQuery (call : Call) : Prop :=
  ∃ query, call.arguments.get? "query" = some query ∧ Clause.IsQuery query

namespace World

/-- The searches that have been sent, the last one first. -/
def searches (w : World σ) : List Call := w.host.network.calls.filter fun call => call.name = "search"

/-- From one world to another only searches by queries of the grammar are sent. -/
def SearchesOn (w w' : World σ) : Prop :=
  ∃ sent, w'.searches = sent ++ w.searches ∧ ∀ call ∈ sent, call.HasQuery

namespace SearchesOn

variable {w w' w'' : World σ}

theorem of_eq (h : w'.searches = w.searches) : w.SearchesOn w' := ⟨[], h, by simp⟩

theorem trans (h : w.SearchesOn w') (h' : w'.SearchesOn w'') : w.SearchesOn w'' := by
  obtain ⟨sent, heq, hsent⟩ := h
  obtain ⟨sent', heq', hsent'⟩ := h'
  refine ⟨sent' ++ sent, by rw [heq', heq, List.append_assoc], fun call hcall => ?_⟩
  exact (List.mem_append.mp hcall).elim (hsent' call) (hsent call)

end SearchesOn

end World

/-- Commands to the key-value server are no searches. -/
theorem KeyValue.Host.IsQuiet.searches :
    Host.IsQuiet (fun h : Host => h.network.calls.filter fun call => call.name = "search") := by
  intro h name arguments
  have hne : "redis." ++ name ≠ "search" := by
    intro heq
    have hhead : ("redis." ++ name).toList.head? = "search".toList.head? := by rw [heq]
    simp at hhead
  simp [Network.record, hne]

/-- An action sends only searches by queries of the grammar, whatever it answers. -/
def SearchesWell (x : Action σ α) : Prop := ∀ w : World σ, w.SearchesOn (x.outcome w).2

namespace SearchesWell

theorem of_leaves {x : Action σ α} (h : Leaves World.searches x) : SearchesWell x :=
  fun w => .of_eq (h w)

theorem bind {x : Action σ α} {f : α → Action σ β} (hx : SearchesWell x)
    (hf : ∀ a, SearchesWell (f a)) : SearchesWell (x >>= f) := by
  intro w
  have h := hx w
  rw [outcome_bind]
  rcases hr : x.outcome w with ⟨e | a, w'⟩
  · rwa [hr] at h
  · rw [hr] at h
    exact h.trans (hf a w')

end SearchesWell

namespace Deployment

variable (d : Deployment σ)

theorem leaves_searches_onCache {x : Effect Cache.Site α}
    (h : Leaves (fun site : Cache.Site => site.2.network.calls.filter fun call => call.name = "search") x) :
    Leaves World.searches (onCache x : Action σ α) :=
  fun w => h (w.cache, w.host)

theorem leaves_searches_cached (key : Json) : Leaves World.searches (d.cached? key) :=
  leaves_cached (leaves_searches_onCache (Cache.leaves_host_get Host.IsQuiet.searches key))

theorem leaves_searches_remember (l : Lookup) (count : Int) (name : String) (numbers : Json) :
    Leaves World.searches (Lookup.remember d l count name numbers) :=
  leaves_searches_onCache (Cache.leaves_host_put Host.IsQuiet.searches (fun _ _ => rfl) _ _ _)

/-- A request that is no search. -/
theorem leaves_searches_demand {r : Request} (h : r.name ≠ "search") :
    Leaves World.searches (d.demand r) := by
  intro w
  rw [outcome_demand]
  have hname : ¬ r.call.name = "search" := h
  simp [World.searches, World.asked, Network.record, hname]

theorem leaves_searches_storeList (id : String) (ids : List Json) :
    Leaves World.searches (Lookup.storeList d id ids) := by
  have hstore := d.leaves_searches_demand
    (r := .store (d.indexName IndexType.lookup) id (.single "id" (.arr ids))) (by simp [Request.name])
  have hrefresh := d.leaves_searches_demand
    (r := .refresh (d.indexName IndexType.lookup)) (by simp [Request.name])
  exact (hstore.bind fun _ => Leaves.pure _).bind fun _ =>
    (hrefresh.bind fun _ => Leaves.pure _).bind fun _ => Leaves.pure _

/-- A lookup sends the search with its query, or none. -/
theorem searchesWell_find {l : Lookup} {query source : Json}
    (hbody : l.body = d.lookupBody query source) (hquery : Clause.IsQuery query) :
    SearchesWell (l.find d) := by
  have hask : SearchesWell (ask d (.search (d.indexName IndexType.data)
      (l.body.map fun m => (optionName m.1, m.2)))) := by
    intro w
    refine ⟨[(Request.search (d.indexName IndexType.data)
      (l.body.map fun m => (optionName m.1, m.2))).call], ?_, fun call hcall => ?_⟩
    · simp [outcome_ask, World.searches, World.asked, Network.record, Request.call, Request.name]
    · rw [List.mem_singleton.mp hcall, hbody]
      exact ⟨query, rfl, hquery⟩
  refine SearchesWell.bind (hask.bind fun r => ?_) fun _ => .of_leaves
    ((Leaves.ofExcept _).bind fun _ => Leaves.pure _)
  split
  · exact .of_leaves ((Leaves.ofExcept _).bind fun _ => Leaves.pure _)
  · exact .of_leaves (Leaves.pure _)
  · exact .of_leaves (Leaves.throw _)

theorem leaves_searches_keep (l : Lookup) (found : Found) :
    Leaves World.searches (l.keep d found) := by
  unfold Lookup.keep
  dsimp only
  split
  · exact (d.leaves_searches_storeList _ _).bind fun _ =>
      (d.leaves_searches_remember _ _ _ _).bind fun _ => Leaves.pure _
  · split
    · exact (d.leaves_searches_remember _ _ _ _).bind fun _ => Leaves.pure _
    · exact Leaves.pure _

theorem searchesWell_resolved {l : Lookup} {query source : Json}
    (hbody : l.body = d.lookupBody query source) (hquery : Clause.IsQuery query)
    (field name title : String) : SearchesWell (d.resolved l field name title) := by
  have hfound : SearchesWell (l.materialize d) :=
    (d.searchesWell_find hbody hquery).bind fun _ => .of_leaves (d.leaves_searches_keep l _)
  refine SearchesWell.bind (.bind (.of_leaves (d.leaves_searches_cached _)) fun r => ?_)
    fun _ => .of_leaves (Leaves.pure _)
  split
  · split
    · exact hfound
    · exact .of_leaves (Leaves.ofExcept _)
  · exact hfound

theorem searchesWell_lookup (key field : String) {params : Json}
    (h : Clause.IsQuery (Clause.compoundAt "must" params)) : SearchesWell (d.lookup key field params) :=
  have hquery : Clause.IsQuery (wrapped params true) := .constantScore h
  d.searchesWell_resolved rfl hquery _ _ _

/-- The query of a lookup may be one without a score. -/
theorem isQuery_wrapped {clause : Json} (h : Clause.IsQuery clause) (constantScore : Bool) :
    Clause.IsQuery (wrapped clause constantScore) := by
  have hquery : Clause.IsQuery (Clause.compoundAt "must" clause) := by
    unfold Clause.compoundAt
    rw [h.listed_eq]
    exact h.alone .must
  unfold wrapped
  cases constantScore with
  | false => exact hquery
  | true => exact .constantScore hquery

theorem searchesWell_lookupChain (p : Property) (text field : String) {clause : Json}
    (h : Clause.IsQuery clause) : SearchesWell (d.lookupChain p text field clause) :=
  d.searchesWell_resolved rfl (isQuery_wrapped h _) _ _ _

theorem searchesWell_lookupConcept (concept : Entity) (number : Json) (description : Description)
    {clause : Json} (h : Clause.IsQuery clause) :
    SearchesWell (d.lookupConcept concept number description clause) :=
  SearchesWell.bind (.of_leaves (Leaves.ofExcept _)) fun _ =>
    d.searchesWell_resolved rfl (isQuery_wrapped h _) _ _ _

/-- Whatever a property is followed from, the search for it is in the grammar. -/
theorem searchesWell_lookupInverse (key field : String) (params : Json) :
    SearchesWell (d.lookupInverse key field params) := by
  unfold lookupInverse
  split
  · exact .of_leaves (Leaves.pure _)
  · have hquery : Clause.IsQuery (Clause.compound .must [Clause.terms "_id" params]) :=
      .alone .must (.leaf (Clause.isLeaf_terms _ _))
    exact d.searchesWell_resolved rfl (.constantScore hquery) _ _ _

/-- What a lookup amounts to is a query, whatever numbers it has found. -/
theorem isQuery_hasNumber (field : String) (numbers : Json) :
    Clause.IsQuery (d.hasNumber field numbers) := by
  have hterms : Clause.IsQuery (Clause.terms field numbers) := .leaf (Clause.isLeaf_terms _ _)
  unfold hasNumber
  dsimp only
  split
  · exact .constantScore hterms
  · exact hterms

end Deployment

end FactIndex
