import FactIndex.Proofs.Generation.Pair
import FactIndex.Update.Generation

/-!
# Requests about indices

An engine in memory answers a request about indices, or it answers with an error and does nothing. So what
comes of such a request is known, up to errors.

## Main definitions

* `Cluster.InOrder`: aliases and generations are in order, and the engine does not claim what is not so.
* `Cluster.withIndex`, `Cluster.withoutIndex`: what making and removing an index come to.
* `Deployment.brings_indexExists`, `Deployment.brings_createIndex` and so on: one rule for each request.
-/

namespace FactIndex

open FactIndex.Effect

variable {α : Type} {d : Deployment Cluster} {c c' c'' : Cluster} {name type version : String}

/-! ## Engines -/

namespace Cluster

/-- The engine may refuse to make an index, or to remove one. But it does not say that an index is there
which is not, or that one is gone which is not. -/
structure IsCandid (c : Cluster) : Prop where
  create : ∀ e, c.errors.get? "create" = some e →
    Deployment.isKind e "resource_already_exists_exception" = false
  delete : ∀ e, c.errors.get? "delete_index" = some e →
    Deployment.isKind e "index_not_found_exception" = false

theorem IsCandid.of_errors (h : c.IsCandid) (heq : c'.errors = c.errors) : c'.IsCandid :=
  ⟨heq ▸ h.create, heq ▸ h.delete⟩

/-- Aliases and generations are in order, and the engine is candid. -/
structure InOrder (d : Deployment Cluster) (c : Cluster) : Prop where
  paired : c.IsPaired d
  candid : c.IsCandid

/-- The engine after an index is made that may be there. -/
def withIndex (c : Cluster) (name : String) : Cluster :=
  if c.indices.has name then c else { c with indices := c.indices.put name [] }

/-- The engine after an index is removed that may be gone. -/
def withoutIndex (c : Cluster) (name : String) : Cluster :=
  if c.indices.has name then c.removeIndex name else c

/-- The engine knows a name that is no alias if there is an index of the name. -/
theorem hasName_of_targets (h : c.targets name = []) : c.hasName name = c.indices.has name := by
  unfold hasName
  rw [h, List.isEmpty_nil, Bool.not_true, Bool.or_false]

theorem has_withIndex {other : String} :
    (c.withIndex name).indices.has other = true ↔ other = name ∨ c.indices.has other = true := by
  unfold withIndex
  split
  · rename_i hthere
    exact ⟨.inr, fun h => h.elim (fun heq => heq ▸ hthere) id⟩
  · exact Table.has_put_iff

theorem get?_withIndex_of_ne {other : String} (h : other ≠ name) :
    (c.withIndex name).indices.get? other = c.indices.get? other := by
  unfold withIndex
  split
  · rfl
  · exact Table.get?_put_of_ne _ _ h.symm

theorem targets_withIndex (c : Cluster) (name other : String) :
    (c.withIndex name).targets other = c.targets other := by
  unfold withIndex
  split <;> rfl

theorem has_withoutIndex {other : String} :
    (c.withoutIndex name).indices.has other = true ↔ c.indices.has other = true ∧ other ≠ name := by
  unfold withoutIndex
  split
  · exact Table.has_erase_iff
  · rename_i hgone
    refine ⟨fun h => ⟨h, ?_⟩, And.left⟩
    rintro rfl
    exact hgone h

theorem get?_withoutIndex_of_ne {other : String} (h : other ≠ name) :
    (c.withoutIndex name).indices.get? other = c.indices.get? other := by
  unfold withoutIndex
  split
  · exact Table.get?_erase_of_ne _ h.symm
  · rfl

theorem targets_withoutIndex_of_notMem {other : String} (h : name ∉ c.targets other) :
    (c.withoutIndex name).targets other = c.targets other := by
  unfold withoutIndex
  split
  · exact targets_removeIndex_of_notMem h
  · rfl

namespace InOrder

theorem wrote (h : c.InOrder d) (hwrote : c.Wrote c') : c'.InOrder d :=
  ⟨h.paired.wrote hwrote, h.candid.of_errors hwrote.errors⟩

theorem withIndex (h : c.InOrder d) (hname : c.targets name = []) : (c.withIndex name).InOrder d := by
  unfold Cluster.withIndex
  split
  · exact h
  · exact ⟨h.paired.withIndex hname, h.candid.of_errors rfl⟩

theorem withoutIndex (h : c.InOrder d) (name : String) : (c.withoutIndex name).InOrder d := by
  unfold Cluster.withoutIndex
  split
  · exact ⟨h.paired.removeIndex name, h.candid.of_errors rfl⟩
  · exact h

end InOrder

/-- An engine in memory answers a request, or it answers with an error and does nothing. -/
theorem answer_cases (c : Cluster) (r : Request) :
    (∃ e, c.answer r = (.error e, c) ∧ (c.errors.get? r.name = some e ∨ e = .connection)) ∨
      c.answer r = c.perform r := by
  unfold answer
  split
  · rename_i e he
    exact .inl ⟨e, rfl, .inl he⟩
  · split
    · exact .inr rfl
    · exact .inl ⟨_, rfl, .inr rfl⟩

end Cluster

namespace Deployment

/-- Requests about documents leave aliases and generations in order. -/
theorem keptByDocuments_inOrder (hclient : d.client = Cluster.client) :
    d.KeptByDocuments (Cluster.InOrder d) := by
  intro r c hr hc
  rw [hclient]
  exact hc.wrote (Cluster.Wrote.answer hr c)

/-! ## Requests about indices -/

section Requests

variable {post : Except Failure α → Cluster → Prop}

/-- A request is answered, or there is an error and nothing is done. -/
theorem brings_ask (hclient : d.client = Cluster.client) {r : Request}
    {f : Except ClientError Json → Action Cluster α} (next : Brings (f (c.perform r).1) (c.perform r).2 post)
    (stop : ∀ e, (c.errors.get? r.name = some e ∨ e = .connection) → Brings (f (.error e)) c post) :
    Brings (ask d r >>= f) c post := by
  rintro w rfl
  have hasked : ((ask d r).outcome w).1 = .ok (w.engine.answer r).1 := by
    show Except.ok (d.client.send r w.engine).1 = _
    rw [hclient]
    rfl
  have hengine : ((ask d r).outcome w).2.engine = (w.engine.answer r).2 := by
    show (d.client.send r w.engine).2 = _
    rw [hclient]
    rfl
  refine Meets.bind_of_answer hasked ?_
  rcases w.engine.answer_cases r with ⟨e, he, hwhy⟩ | hanswer
  · rw [he] at hengine ⊢
    exact stop e hwhy _ hengine
  · rw [hanswer] at hengine ⊢
    exact next _ hengine

/-- A request that cannot be refused. -/
theorem brings_demandRaw (hclient : d.client = Cluster.client) {r : Request} {j : Json}
    (hr : c.perform r = (.ok j, c')) {f : Json → Action Cluster α} (next : Brings (f j) c' post)
    (stop : ∀ e, post (.error e) c) : Brings (d.demandRaw r >>= f) c post := by
  unfold demandRaw
  rw [bind_assoc]
  refine brings_ask hclient ?_ fun e _ => ?_
  · rw [hr]
    exact next
  · exact Brings.throw (stop _)

theorem brings_indexExists (hclient : d.client = Cluster.client) {f : Bool → Action Cluster α}
    (next : Brings (f (c.hasName name)) c post) (stop : ∀ e, post (.error e) c) :
    Brings (d.indexExists name >>= f) c post := by
  unfold indexExists
  rw [bind_map_left]
  exact brings_demandRaw hclient (j := .bool (c.hasName name)) rfl next stop

theorem brings_aliasExists (hclient : d.client = Cluster.client) {f : Bool → Action Cluster α}
    (next : Brings (f !(c.targets name).isEmpty) c post) (stop : ∀ e, post (.error e) c) :
    Brings (d.aliasExists name >>= f) c post := by
  unfold aliasExists
  rw [bind_map_left]
  exact brings_demandRaw hclient (j := .bool !(c.targets name).isEmpty) rfl next stop

/-- Looking up what an alias stands for. -/
theorem brings_aliasTargets (hclient : d.client = Cluster.client) {f : List String → Action Cluster α}
    (next : ∀ targets, (∀ index, index ∈ targets ↔ index ∈ c.targets name) → Brings (f targets) c post)
    (stop : ∀ e, post (.error e) c) : Brings (d.aliasTargets name >>= f) c post := by
  unfold aliasTargets
  rw [bind_assoc]
  refine brings_aliasExists hclient ?_ stop
  cases hnone : (c.targets name).isEmpty with
  | true => exact next [] fun index => by rw [List.isEmpty_iff.mp hnone]
  | false =>
      rw [Bool.not_false, Bool.not_true, if_neg Bool.false_ne_true, bind_assoc]
      have hkeys : Table.keys ((c.targets name).map fun t => (t, Json.obj [])) = c.targets name := by
        rw [Table.keys, List.map_map]
        exact List.map_id _
      refine brings_demandRaw hclient (j := .obj ((c.targets name).map fun t => (t, .obj []))) rfl
        (next ((Table.keys ((c.targets name).map fun t => (t, Json.obj []))).mergeSort (· ≤ ·))
          fun index => ?_) stop
      rw [List.mem_mergeSort, hkeys]

/-- Making an index, which may be there. -/
theorem brings_createIndex (hclient : d.client = Cluster.client) (hcandid : c.IsCandid)
    {f : Bool → Action Cluster α} (next : ∀ b, Brings (f b) (c.withIndex name) post)
    (stop : ∀ e, post (.error e) c) : Brings (d.createIndex name type >>= f) c post := by
  unfold createIndex tryIndex
  rw [bind_assoc]
  refine brings_ask hclient ?_ fun e he => ?_
  · cases hthere : c.indices.has name with
    | true =>
        have hsame : c.withIndex name = c := if_pos hthere
        have hperform : c.perform (.createIndex name (d.indexBody type)) =
            (.error (.refused 400 (.str "resource_already_exists_exception") none), c) := if_pos hthere
        rw [hperform]
        exact hsame ▸ next false
    | false =>
        have hmade : c.withIndex name = { c with indices := c.indices.put name [] } :=
          if_neg (Bool.eq_false_iff.mp hthere)
        have hperform : c.perform (.createIndex name (d.indexBody type)) =
            (.ok (.obj []), { c with indices := c.indices.put name [] }) :=
          if_neg (Bool.eq_false_iff.mp hthere)
        rw [hperform, ← hmade]
        exact next true
  · have hkind : isKind e "resource_already_exists_exception" = false := by
      rcases he with he | rfl
      · exact hcandid.create e he
      · rfl
    dsimp only
    rw [hkind]
    exact Brings.throw (stop _)

/-- Removing an index, which may be gone. -/
theorem brings_deleteIndex (hclient : d.client = Cluster.client) (hcandid : c.IsCandid)
    {f : Bool → Action Cluster α} (next : ∀ b, Brings (f b) (c.withoutIndex name) post)
    (stop : ∀ e, post (.error e) c) : Brings (d.deleteIndex name >>= f) c post := by
  unfold deleteIndex tryIndex
  rw [bind_assoc]
  refine brings_ask hclient ?_ fun e he => ?_
  · cases hthere : c.indices.has name with
    | true =>
        have hgone : c.withoutIndex name = c.removeIndex name := if_pos hthere
        have hperform : c.perform (.deleteIndex name) = (.ok (.obj []), c.removeIndex name) :=
          if_pos hthere
        rw [hperform, ← hgone]
        exact next true
    | false =>
        have hsame : c.withoutIndex name = c := if_neg (Bool.eq_false_iff.mp hthere)
        have hperform : c.perform (.deleteIndex name) =
            (.error (.refused 404 (.str "index_not_found_exception") none), c) :=
          if_neg (Bool.eq_false_iff.mp hthere)
        rw [hperform]
        exact hsame ▸ next false
  · have hkind : isKind e "index_not_found_exception" = false := by
      rcases he with he | rfl
      · exact hcandid.delete e he
      · rfl
    dsimp only
    rw [hkind]
    exact Brings.throw (stop _)

/-- Making an index that is no alias, if it is not there. -/
theorem brings_ensureIndex (hclient : d.client = Cluster.client) (hcandid : c.IsCandid)
    (hname : c.targets name = []) {x : Action Cluster α} (next : Brings x (c.withIndex name) post)
    (stop : ∀ e, post (.error e) c) : Brings (d.indexExists name >>= fun isThere =>
      if (!isThere) = true then d.createIndex name type >>= fun _ => x else x) c post := by
  refine brings_indexExists hclient ?_ stop
  rw [Cluster.hasName_of_targets hname]
  cases hthere : c.indices.has name with
  | true =>
      have hsame : c.withIndex name = c := if_pos hthere
      rw [hsame] at next
      exact next
  | false => exact brings_createIndex hclient hcandid (fun _ => next) stop

/-- Removing an index that is no alias, if it is there. -/
theorem brings_removeIndex (hclient : d.client = Cluster.client) (hcandid : c.IsCandid)
    (hname : c.targets name = []) {f : Unit → Action Cluster α}
    (next : Brings (f ()) (c.withoutIndex name) post) (stop : ∀ e, post (.error e) c) :
    Brings (d.removeIndex name >>= f) c post := by
  unfold removeIndex
  rw [bind_assoc]
  refine brings_indexExists hclient ?_ stop
  rw [Cluster.hasName_of_targets hname]
  cases hgone : c.indices.has name with
  | true =>
      rw [if_pos rfl, bind_assoc]
      exact brings_deleteIndex hclient hcandid (fun _ => next) stop
  | false =>
      have hsame : c.withoutIndex name = c := if_neg (Bool.eq_false_iff.mp hgone)
      rw [hsame] at next
      exact next

theorem brings_updateAliases (hclient : d.client = Cluster.client) {actions : List Json}
    {f : Unit → Action Cluster α} (next : Brings (f ()) (c.changeAliases actions) post)
    (stop : ∀ e, post (.error e) c) : Brings (d.updateAliases actions >>= f) c post := by
  unfold updateAliases
  rw [bind_assoc]
  exact brings_demandRaw hclient rfl next stop

end Requests

/-- The lock is no business of the engine. -/
theorem leaves_engine_releaseLock (d : Deployment Cluster) (type : String) :
    Leaves World.engine (d.releaseLock type) := by
  refine Leaves.bind (fun _ => rfl) fun r => ?_
  split
  · exact Leaves.pure _
  · exact Leaves.pure _
  · exact Leaves.throw _

end Deployment

end FactIndex
