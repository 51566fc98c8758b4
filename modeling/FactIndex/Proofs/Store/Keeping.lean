import FactIndex.Proofs.Compile.Traversal
import FactIndex.Proofs.Store.Request
import FactIndex.Proofs.Update.Sight
import FactIndex.Store.Operations

/-!
# What the store leaves true of the search engine

The store changes the search engine by requests and in no other way. Most operations of the store send
requests about documents only, so that they leave true of the engine whatever such requests leave true.
This does not depend on the rest of the world: on the cache, on the queue, or on the catalog.

## Main definitions

* `Brings`: what comes of an action where the engine is in a state.
* `Keeps`: an action that leaves something true of the engine.
* `Deployment.KeptByDocuments`: what requests about documents leave true.
* `Deployment.KeptByDocuments.compile`, `Deployment.KeptByDocuments.answer`,
  `Deployment.KeptByDocuments.runJobs` and so on: the operations leave it true as well.
-/

namespace FactIndex

open FactIndex.Effect FactIndex.Text

variable {σ α β : Type}

/-! ## What comes of an action -/

/-- Where the search engine is in a state, an action comes to an answer and a state of the engine that
satisfy a condition, whatever else is in the world. -/
def Brings (x : Action σ α) (c : σ) (post : Except Failure α → σ → Prop) : Prop :=
  ∀ w : World σ, w.engine = c → x.Meets w fun r w' => post r w'.engine

namespace Brings

variable {c : σ} {post : Except Failure α → σ → Prop}

theorem pure {a : α} (h : post (.ok a) c) : Brings (Pure.pure a) c post := by
  rintro w rfl
  exact h

theorem throw {e : Failure} (h : post (.error e) c) :
    Brings (MonadExcept.throw e : Action σ α) c post := by
  rintro w rfl
  exact h

theorem ofExcept {r : Except Failure α} (h : post r c) : Brings (Effect.ofExcept r) c post := by
  rintro w rfl
  exact Meets.ofExcept h

theorem mono {post' : Except Failure α → σ → Prop} {x : Action σ α} (h : Brings x c post)
    (imp : ∀ r c', post r c' → post' r c') : Brings x c post' :=
  fun w hw => (h w hw).mono fun r w' => imp r w'.engine

theorem bind {mid : Except Failure α → σ → Prop} {post : Except Failure β → σ → Prop}
    {x : Action σ α} {f : α → Action σ β} (h : Brings x c mid)
    (next : ∀ a c', mid (.ok a) c' → Brings (f a) c' post)
    (stop : ∀ e c', mid (.error e) c' → post (.error e) c') : Brings (x >>= f) c post :=
  fun w hw => (h w hw).bind (fun a w' ha => next a w'.engine ha w' rfl)
    fun e w' he => stop e w'.engine he

/-- A first part that is a result already. -/
theorem ofExcept_bind {post : Except Failure β → σ → Prop} {r : Except Failure α} {f : α → Action σ β}
    (next : ∀ a, Brings (f a) c post) (stop : ∀ e, post (.error e) c) :
    Brings (Effect.ofExcept r >>= f) c post := by
  cases r with
  | ok a => exact next a
  | error e => exact throw (stop e)

/-- A request changes the engine as the engine answers it. -/
theorem ask {d : Deployment σ} {r : Request} {post : Except Failure (Except ClientError Json) → σ → Prop}
    (h : post (.ok (d.client.send r c).1) (d.client.send r c).2) : Brings (FactIndex.ask d r) c post := by
  rintro w rfl
  exact h

/-- What does not touch the engine leaves it in its state. -/
theorem of_leaves {x : Action σ α} (hx : Leaves World.engine x) :
    Brings x c fun _ c' => c' = c := by
  rintro w rfl
  exact hx w

end Brings

/-- What is true of the search engine is true of it after an action, whatever the answer. -/
def Keeps (P : σ → Prop) (x : Action σ α) : Prop := ∀ c, P c → Brings x c fun _ c' => P c'

namespace Keeps

variable {P : σ → Prop}

theorem of_leaves {x : Action σ α} (hx : Leaves World.engine x) : Keeps P x :=
  fun _ hc => (Brings.of_leaves hx).mono fun _ _ heq => heq ▸ hc

theorem pure (a : α) : Keeps P (Pure.pure a) := of_leaves (Leaves.pure a)

theorem throw (e : Failure) : Keeps P (MonadExcept.throw e : Action σ α) := of_leaves (Leaves.throw e)

theorem ofExcept (r : Except Failure α) : Keeps P (Effect.ofExcept r) := of_leaves (Leaves.ofExcept r)

theorem bind {x : Action σ α} {f : α → Action σ β} (hx : Keeps P x) (hf : ∀ a, Keeps P (f a)) :
    Keeps P (x >>= f) :=
  fun c hc => (hx c hc).bind (fun a c' => hf a c') fun _ _ => id

theorem map {x : Action σ α} (f : α → β) (hx : Keeps P x) : Keeps P (f <$> x) := by
  rw [map_eq_pure_bind]
  exact hx.bind fun _ => pure _

theorem attempt {x : Action σ α} (hx : Keeps P x) : Keeps P (Effect.attempt x) := hx

theorem onCache (x : Effect Cache.Site α) : Keeps P (FactIndex.onCache x) := of_leaves fun _ => rfl

theorem onQueue (x : Effect Queue.Site α) : Keeps P (FactIndex.onQueue x) := of_leaves fun _ => rfl

theorem numberOf (item : Numbered) : Keeps P (FactIndex.numberOf item) := of_leaves fun _ => rfl

theorem catalog : Keeps P FactIndex.catalog := of_leaves fun _ => rfl

theorem forIn {f : α → PUnit → Action σ (ForInStep PUnit)} (h : ∀ a, Keeps P (f a ⟨⟩)) (as : List α) :
    Keeps P (ForIn.forIn as PUnit.unit f) := by
  induction as with
  | nil => exact pure _
  | cons a rest ih =>
      rw [List.forIn_cons]
      refine (h a).bind fun step => ?_
      cases step with
      | done _ => exact pure _
      | yield _ => exact ih

/-- It is true at the end of a run if it is true at its beginning. -/
theorem of_outcome {x : Action σ α} (h : Keeps P x) {w : World σ} (hw : P w.engine) :
    P (x.outcome w).2.engine :=
  h w.engine hw w rfl

end Keeps

/-! ## Requests about documents -/

/-- Whether a request makes or removes indices, or changes aliases. -/
def Request.managesIndices : Request → Bool
  | .createIndex _ _ | .deleteIndex _ | .updateAliases _ => true
  | _ => false

namespace Deployment

/-- What is true of the search engine is true of it after a request about documents. -/
def KeptByDocuments (d : Deployment σ) (P : σ → Prop) : Prop :=
  ∀ r c, r.managesIndices = false → P c → P (d.client.send r c).2

namespace KeptByDocuments

variable {d : Deployment σ} {P : σ → Prop}

theorem ask (h : d.KeptByDocuments P) {r : Request} (hr : r.managesIndices = false) :
    Keeps P (FactIndex.ask d r) :=
  fun c hc => Brings.ask (h r c hr hc)

theorem demand (h : d.KeptByDocuments P) {r : Request} (hr : r.managesIndices = false) :
    Keeps P (d.demand r) := by
  refine (h.ask hr).bind fun answer => ?_
  split
  · exact Keeps.pure _
  · exact Keeps.throw _

theorem demandRaw (h : d.KeptByDocuments P) {r : Request} (hr : r.managesIndices = false) :
    Keeps P (d.demandRaw r) := by
  refine (h.ask hr).bind fun answer => ?_
  split
  · exact Keeps.pure _
  · exact Keeps.throw _

theorem ping (h : d.KeptByDocuments P) : Keeps P d.ping := by
  refine (h.ask rfl).bind fun answer => ?_
  split
  · exact Keeps.pure _
  · exact Keeps.throw _
  · exact Keeps.pure _

theorem search (h : d.KeptByDocuments P) (index : String) (body : Members) :
    Keeps P (d.search index body) := by
  refine (h.ask rfl).bind fun answer => ?_
  split
  · exact (Keeps.ofExcept _).bind fun _ => Keeps.pure _
  · exact Keeps.pure _
  · exact Keeps.throw _

theorem count (h : d.KeptByDocuments P) (index : String) (query : Json) :
    Keeps P (d.count index query) := by
  refine (h.ask rfl).bind fun answer => ?_
  split
  · exact (Keeps.ofExcept _).bind fun _ => (Keeps.ofExcept _).bind fun _ => Keeps.pure _
  · exact Keeps.pure _
  · exact Keeps.throw _

theorem validate (h : d.KeptByDocuments P) (index : String) (query : Json) :
    Keeps P (d.validate index query) := by
  refine (h.ask rfl).bind fun answer => ?_
  split
  · exact Keeps.ofExcept _
  · exact Keeps.pure _
  · exact Keeps.throw _

theorem storeDocument (h : d.KeptByDocuments P) (index id : String) (document : Json) :
    Keeps P (d.storeDocument index id document) :=
  (h.demand rfl).bind fun _ => Keeps.pure _

theorem refresh (h : d.KeptByDocuments P) (index : String) : Keeps P (d.refresh index) :=
  (h.demand rfl).bind fun _ => Keeps.pure _

theorem bulk (h : d.KeptByDocuments P) (operations : List Json) : Keeps P (d.bulk operations) := by
  unfold Deployment.bulk
  split
  · exact Keeps.pure _
  · exact (h.demand rfl).bind fun _ => Keeps.ofExcept _

/-! ## Queries -/

theorem cached (key : Json) : Keeps P (d.cached? key) :=
  Keeps.of_leaves (leaves_cached fun _ => rfl)

theorem materialize (h : d.KeptByDocuments P) (l : Lookup) : Keeps P (l.materialize d) := by
  refine Keeps.bind ((h.search _ _).bind fun _ => (Keeps.ofExcept _).bind fun _ => Keeps.pure _)
    fun found => ?_
  unfold Lookup.keep
  dsimp only
  split
  · have hstored : Keeps P (Lookup.storeList d l.id found.ids) :=
      (h.storeDocument _ _ _).bind fun _ => (h.refresh _).bind fun _ => Keeps.pure _
    exact hstored.bind fun _ => (Keeps.onCache _).bind fun _ => Keeps.pure _
  · split
    · exact (Keeps.onCache _).bind fun _ => Keeps.pure _
    · exact Keeps.pure _

theorem resolved (h : d.KeptByDocuments P) (l : Lookup) (field name title : String) :
    Keeps P (d.resolved l field name title) := by
  refine Keeps.bind ((cached _).bind fun remembered => ?_) fun _ => Keeps.pure _
  split
  · split
    · exact h.materialize l
    · exact Keeps.ofExcept _
  · exact h.materialize l

/-- A lookup of any of the four kinds. -/
theorem lookup (h : d.KeptByDocuments P) (call : LookupCall) : Keeps P (call.run d) := by
  cases call with
  | plain key field params => exact h.resolved _ _ _ _
  | chain property text field params => exact h.resolved _ _ _ _
  | concept c number description params =>
      exact (Keeps.ofExcept _).bind fun _ => h.resolved _ _ _ _
  | inverse key field params =>
      show Keeps P (d.lookupInverse key field params)
      unfold lookupInverse
      split
      · exact Keeps.pure _
      · exact h.resolved _ _ _ _

/-- What lookups leave true of the engine is asked of a single run: if it is wrong at the end, then it was
wrong all the time. Nothing is compared with another run. -/
private def wrongTie (P : σ → Prop) : Compiling.Tie σ where
  base _ _ := False
  fine s := ¬ P s.1.engine

private theorem isKept_wrongTie (h : d.KeptByDocuments P) : (wrongTie P).IsKept d where
  catalog hbase := hbase.elim
  setCatalog hbase := hbase.elim
  fine_setCatalog _ hwrong := hwrong
  call _ _ _ hbase := hbase.elim
  fine_call call s hwrong hs := by
    refine hwrong ?_
    have hafter : P ((call.run d).outcome s.1).2.engine := (h.lookup call).of_outcome hs
    rcases hr : (call.run d).outcome s.1 with ⟨e | r, w⟩
    · rw [hr] at hafter
      rwa [Compiling.outcome_lookUp_of_error hr]
    · rw [hr] at hafter
      rwa [Compiling.outcome_lookUp_of_ok hr]

/-- A compilation asks nothing of the engine but lookups. -/
theorem compile (h : d.KeptByDocuments P) (isMember : Bool) (description : Description) :
    Keeps P (d.compile isMember description) := by
  rintro c hc w rfl
  have hcatalog : (Compiling.act (FactIndex.catalog : Action σ Catalog)).outcome (w, {}) =
      (.ok w.catalog, (w, {})) := rfl
  have htame := (agree_node h.isKept_wrongTie (agree_expandConcept h.isKept_wrongTie
    (w.catalog.concepts.length + 1)) isMember [] [] description).left.fine (w, {})
  unfold Deployment.compile compileTree Meets
  rw [Compiling.outcome_start, outcome_bind_of_ok hcatalog]
  by_contra hwrong
  exact htame hwrong hc

theorem sorting (keys : Table String String) (relevance : Option String) :
    Keeps P (d.sorting keys relevance) := by
  have hchain : ∀ order labels last (s : Sorting), Keeps P (Sorting.addChain (σ := σ) order labels last s) := by
    intro order labels
    induction labels with
    | nil =>
        intro last s
        cases last <;> exact Keeps.pure _
    | cons label labels ih =>
        intro last s
        rw [Sorting.addChain]
        split
        · exact ih _ _
        · exact Keeps.catalog.bind fun _ => (Keeps.numberOf _).bind fun _ => ih _ _
  have hkey : ∀ s key, Keeps P (Sorting.addKey (σ := σ) d.settings.query.scoreKey s key) := by
    intro s key
    have hlabel : ∀ (label : String) (s : Sorting), Keeps P
        (if label = "" ∨ label = "#" then return s.addOwn (lowercase key.2)
          else Sorting.addChain (σ := σ) (lowercase key.2) (cut '.' label) none s) := by
      intro label s
      split
      · exact Keeps.pure _
      · exact hchain _ _ _ _
    exact hlabel _ _
  unfold Deployment.sorting
  split
  · exact Keeps.pure _
  · generalize ({} : Sorting) = s
    induction keys generalizing s with
    | nil => exact Keeps.pure s
    | cons key keys ih =>
        rw [List.foldlM_cons]
        exact (hkey s key).bind fun s' => ih s'

theorem prepare (h : d.KeptByDocuments P) (q : Query) : Keeps P (d.prepare q) :=
  (sorting _ _).bind fun _ => Keeps.bind ((h.compile _ _).bind fun _ => Keeps.pure _) fun _ =>
    (Keeps.ofExcept _).bind fun _ => Keeps.pure _

theorem execute (h : d.KeptByDocuments P) (q : Query) : Keeps P (d.execute q) := by
  unfold Deployment.execute
  split
  · exact Keeps.pure _
  · split
    · exact Keeps.pure _
    · refine (h.prepare q).bind fun s => ?_
      split
      · exact (h.validate _ _).bind fun _ => Keeps.pure _
      · exact (h.count _ _).bind fun _ => Keeps.pure _
      · exact (h.search _ _).bind fun _ => Keeps.catalog.bind fun _ => (Keeps.ofExcept _).bind fun _ =>
          Keeps.pure _
      · exact (h.search _ _).bind fun _ => Keeps.catalog.bind fun _ => (Keeps.ofExcept _).bind fun _ =>
          Keeps.pure _

/-- A query, answered by another store if need be. -/
theorem answer (h : d.KeptByDocuments P) (query : Argument) : Keeps P (d.answer query) := by
  have hhere : Keeps P (d.answerHere query) := (Keeps.ofExcept _).bind fun q => h.execute q
  have helsewhere : ∀ result, Keeps P (answerElsewhere (σ := σ) result query) := fun result =>
    Keeps.of_leaves fun _ => rfl
  unfold Deployment.answer
  split
  · refine h.ping.bind fun reachable => ?_
    split
    · exact helsewhere _
    · refine hhere.attempt.bind fun r => ?_
      split
      · exact helsewhere _
      · exact Keeps.ofExcept _
  · exact hhere

/-! ## Writes -/

theorem indexEntity (h : d.KeptByDocuments P) (e : Entity) : Keeps P (d.indexEntity e) :=
  (Keeps.numberOf _).bind fun _ => h.storeDocument _ _ _

theorem deleteDocuments (h : d.KeptByDocuments P) (ids : List Json) (isConcept : Bool) :
    Keeps P (d.deleteDocuments ids isConcept) :=
  (h.bulk _).bind fun _ => Keeps.pure _

theorem replicate (h : d.KeptByDocuments P) (change : Change) : Keeps P (d.replicate change) :=
  Keeps.bind (Keeps.of_leaves (leaves_writeIndex fun _ => rfl)) fun _ =>
    Keeps.bind (Keeps.catalog.bind fun _ => Keeps.pure _) fun _ => h.bulk _

theorem defer (job : Job) : Keeps P (d.defer job) := by
  unfold Deployment.defer
  split
  · exact (Keeps.onQueue _).bind fun _ => Keeps.pure _
  · exact Keeps.pure _

theorem writeOrDefer (h : d.KeptByDocuments P) (job : Job) {write : Action σ Unit}
    (hwrite : Keeps P write) : Keeps P (d.writeOrDefer job write) := by
  have hsafe : Keeps P (d.isSafe job) := by
    have hrest : ∀ reachable : Bool, Keeps P (do
        if !reachable then d.defer job
        return reachable) := by
      intro reachable
      cases reachable with
      | true => exact Keeps.pure _
      | false => exact (defer job).bind fun _ => Keeps.pure _
    refine (Keeps.onCache _).bind fun locked => ?_
    cases locked with
    | true => exact hrest false
    | false => exact h.ping.bind hrest
  refine hsafe.bind fun safe => ?_
  split
  · exact Keeps.pure _
  · refine hwrite.attempt.bind fun r => ?_
    split
    · exact Keeps.pure _
    · exact (defer job).bind fun _ => Keeps.pure _
    · exact Keeps.throw _

theorem create (h : d.KeptByDocuments P) (e : Entity) : Keeps P (d.create e) :=
  h.writeOrDefer _ (h.indexEntity e)

theorem delete (h : d.KeptByDocuments P) (ids isConcept : Json) : Keeps P (d.delete ids isConcept) :=
  (Keeps.ofExcept _).bind fun _ => (Keeps.ofExcept _).bind fun _ =>
    h.writeOrDefer _ (h.deleteDocuments _ _)

theorem safeReplicate (h : d.KeptByDocuments P) (change : Change) : Keeps P (d.safeReplicate change) := by
  refine (h.writeOrDefer _ ((h.replicate change).bind fun _ => Keeps.pure _)).bind fun isDone => ?_
  split
  · exact (Keeps.onCache _).bind fun _ => Keeps.pure _
  · exact Keeps.pure _

/-! ## Jobs -/

theorem replay (h : d.KeptByDocuments P) (job : Job) : Keeps P (d.replay job) := by
  have hdeletion : Keeps P (d.replayDeletion job) := by
    unfold replayDeletion
    split
    · exact h.deleteDocuments _ _
    · exact Keeps.pure _
  have hcreation : Keeps P (d.replayCreation job) := by
    unfold replayCreation
    split
    · exact (Keeps.ofExcept _).bind fun e => h.indexEntity e
    · exact Keeps.pure _
  have hchange : Keeps P (d.replayChange job) := by
    unfold replayChange
    split
    · refine (Keeps.ofExcept _).bind fun e => Keeps.bind
        (Keeps.of_leaves (leaves_fetchChange fun _ => rfl)) fun change => ?_
      split
      · exact (h.replicate _).bind fun _ => Keeps.pure _
      · exact Keeps.pure _
    · exact Keeps.pure _
  rw [replay_eq]
  exact hdeletion.bind fun _ => hcreation.bind fun _ => hchange

theorem requeue (job : Job) : Keeps P (d.requeue job) := by
  unfold Deployment.requeue
  split
  · exact Keeps.pure _
  · exact Keeps.bind (Keeps.of_leaves fun _ => rfl) fun _ => (Keeps.onQueue _).bind fun _ => Keeps.pure _

theorem work (h : d.KeptByDocuments P) (job : Job) (locked : Bool) : Keeps P (d.work job locked) := by
  cases locked with
  | true => exact requeue job
  | false =>
      refine h.ping.bind fun reachable => ?_
      cases reachable with
      | false => exact requeue job
      | true =>
          refine (h.replay job).attempt.bind fun r => ?_
          split
          · exact Keeps.pure _
          · exact requeue job
          · exact Keeps.throw _

theorem runMessage (h : d.KeptByDocuments P) (m : Message) : Keeps P (d.runMessage m) := by
  have hacknowledge : Keeps P (d.acknowledge m) := Keeps.onQueue _
  have hjob : ∀ job, Keeps P (d.runJob job) := by
    intro job
    refine (Keeps.onCache _).attempt.bind fun r => ?_
    split
    · exact Keeps.pure _
    · exact (h.work _ _).attempt.bind fun _ => Keeps.pure _
  unfold Deployment.runMessage
  split
  · exact hacknowledge.bind fun _ => Keeps.pure _
  · exact Keeps.throw _
  · refine (hjob _).bind fun run => hacknowledge.bind fun _ => ?_
    split
    · exact Keeps.pure _
    · exact Keeps.pure _
    · exact Keeps.throw _

/-- By induction on the messages that are handed out. -/
theorem runJobs (h : d.KeptByDocuments P) (count : Json) : Keeps P (d.runJobs count) := by
  have hmessages : ∀ ms, Keeps P (d.runMessages ms) := by
    intro ms
    induction ms with
    | nil => exact Keeps.pure _
    | cons m ms ih => exact (h.runMessage m).bind fun _ => ih.bind fun _ => Keeps.pure _
  exact (Keeps.ofExcept _).bind fun _ => (Keeps.onQueue _).bind fun ms => hmessages ms

theorem close (h : d.KeptByDocuments P) : Keeps P d.close :=
  (h.demandRaw rfl).bind fun _ => Keeps.of_leaves fun _ => rfl

end KeptByDocuments

end Deployment

end FactIndex
