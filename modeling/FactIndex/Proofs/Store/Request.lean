import FactIndex.Proofs.Effect
import FactIndex.Search.Cluster
import FactIndex.Store.Connection

/-!
# Requests to the search engine

A request changes the state of the engine and is recorded. Everything else in the world stays as it is. In
the engine in memory searching, counting and asking change no document, and a store sets one, unless it
fails.

## Main definitions

* `World.asked`: the world after a request.
* `outcome_ask`, `Deployment.outcome_demand`: what comes of a request.
* `Cluster.document?`: the document under an id.
* `Cluster.document?_answer_store`, `Cluster.document?_answer_of_not_isWrite`: what becomes of it.
-/

namespace FactIndex

open FactIndex.Effect

variable {σ : Type}

/-- The world after a request. -/
def World.asked (d : Deployment σ) (r : Request) (w : World σ) : World σ :=
  { w with
    engine := (d.client.send r w.engine).2
    host := { w.host with network := w.host.network.record r.call } }

variable (d : Deployment σ) (r : Request) (w : World σ)

@[simp] theorem World.asked_engine : (w.asked d r).engine = (d.client.send r w.engine).2 := rfl
@[simp] theorem World.asked_cache : (w.asked d r).cache = w.cache := rfl
@[simp] theorem World.asked_queue : (w.asked d r).queue = w.queue := rfl
@[simp] theorem World.asked_catalog : (w.asked d r).catalog = w.catalog := rfl
@[simp] theorem World.asked_server : (w.asked d r).host.server = w.host.server := rfl
@[simp] theorem World.asked_now : (w.asked d r).host.network.now = w.host.network.now := rfl

theorem outcome_ask : (ask d r).outcome w = (.ok (d.client.send r w.engine).1, w.asked d r) := rfl

/-- The answer to a request, if there is one, and otherwise the failure that its error amounts to. -/
theorem Deployment.outcome_demand : (d.demand r).outcome w =
    ((d.client.send r w.engine).1.mapError Deployment.asFailure, w.asked d r) := by
  unfold Deployment.demand
  rw [outcome_bind_of_ok (outcome_ask d r w)]
  cases (d.client.send r w.engine).1 <;> rfl

/-- A request whose answer does not matter unless it is an error. -/
theorem Deployment.outcome_demand_unit :
    (d.demand r >>= fun _ => (pure () : Action σ Unit)).outcome w =
      (((d.client.send r w.engine).1.mapError Deployment.asFailure).map fun _ => (),
        w.asked d r) := by
  rw [outcome_bind, Deployment.outcome_demand]
  cases (d.client.send r w.engine).1 <;> rfl

/-! ## What requests leave -/

section Leaving

variable {d} {α : Type} {view : World σ → α}

theorem leaves_demand {r : Request} (h : Leaves view (ask d r)) : Leaves view (d.demand r) := by
  refine h.bind fun answer => ?_
  split
  · exact Leaves.pure _
  · exact Leaves.throw _

/-- Several writes leave what requests leave. -/
theorem leaves_bulk (h : ∀ r, Leaves view (ask d r)) (operations : List Json) :
    Leaves view (d.bulk operations) := by
  unfold Deployment.bulk
  split
  · exact Leaves.pure _
  · exact (leaves_demand (h _)).bind fun _ => Leaves.ofExcept _

end Leaving

end FactIndex

namespace FactIndex.Cluster

/-! ## Documents in memory -/

variable (c : Cluster) (index id other : String) (document : Json)

/-- The document under an id. -/
def document? (c : Cluster) (index id : String) : Option Json := (c.documents index).get? id

/-- A name that is no alias stands for itself. -/
theorem resolve_of_get?_eq_none {c : Cluster} {name : String} (h : c.aliases.get? name = none) :
    c.resolve name = name := by
  unfold resolve targets
  rw [h, Option.getD_none, List.mergeSort_nil]
  rfl

/-! ## Setting the documents of an index -/

@[simp] theorem resolve_setDocuments (docs : Documents) (name : String) :
    (c.setDocuments index docs).resolve name = c.resolve name := rfl

@[simp] theorem documents_setDocuments_self (docs : Documents) :
    (c.setDocuments index docs).documents index = docs := by
  unfold documents setDocuments
  show ((Table.put c.indices (c.resolve index) docs).get? (c.resolve index)).getD [] = docs
  rw [Table.get?_put_self, Option.getD_some]

theorem document?_store_self : (c.store index id document).document? index id = some document := by
  unfold document? store
  rw [documents_setDocuments_self, Table.get?_put_self]

theorem document?_store_of_ne (h : id ≠ other) :
    (c.store index id document).document? index other = c.document? index other := by
  unfold document? store
  rw [documents_setDocuments_self, Table.get?_put_of_ne _ _ h]

/-! ## What requests do to documents -/

/-- A document is there once a store has been answered. -/
theorem document?_answer_store {answer : Json} {after : Cluster}
    (h : c.answer (.store index id document) = (.ok answer, after)) :
    after.document? index id = some document := by
  unfold Cluster.answer at h
  split at h
  · cases h
  · split at h
    · cases h
      exact c.document?_store_self index id document
    · cases h

/-- A store leaves every other document as it is. -/
theorem document?_answer_store_of_ne (h : id ≠ other) :
    (c.answer (.store index id document)).2.document? index other = c.document? index other := by
  unfold Cluster.answer
  split
  · rfl
  · split
    · exact c.document?_store_of_ne index id other document h
    · rfl

theorem search_documents (name : String) (options : Members) :
    (c.search name options).2.indices = c.indices ∧ (c.search name options).2.aliases = c.aliases := by
  unfold search
  split
  · exact ⟨rfl, rfl⟩
  · exact ⟨rfl, rfl⟩

theorem document?_congr {a b : Cluster} (hindices : a.indices = b.indices)
    (haliases : a.aliases = b.aliases) : a.document? = b.document? := by
  funext index id
  unfold document? documents resolve targets
  rw [hindices, haliases]

/-- A request that is no write changes no document. -/
theorem document?_answer_of_not_isWrite {r : Request} (h : r.isWrite = false) :
    (c.answer r).2.document? = c.document? := by
  unfold Cluster.answer
  split
  · rfl
  · split
    · cases r with
      | search name options =>
          have hsame := c.search_documents name options
          exact document?_congr hsame.1 hsame.2
      | store | bulk | createIndex | deleteIndex | updateAliases => cases h
      | ping | count | validate | refresh | hasIndex | hasAlias | aliasTargets | close => rfl
    · rfl

end FactIndex.Cluster
