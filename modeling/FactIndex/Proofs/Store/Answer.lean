import FactIndex.Proofs.Compile.Pursuit
import FactIndex.Store.Operations

/-!
# How a query is answered

A query is answered by a compilation and one request to the search engine, which is the last one. What is
made of the answer to that depends on the search that was compiled and on the catalog, and on nothing else.

## Main definitions

* `Deployment.preparing`: the compilation of a query with its sort keys.
* `Deployment.finalRequest`, `Deployment.ofAnswer`: the last request, and what is made of its answer.
* `Deployment.execute_eq`: the answer to a query in these terms.
* `Deployment.pinged`: the world in which a query is compiled.
-/

namespace FactIndex

open FactIndex.Effect

variable {σ : Type}

/-! ## Preparing -/

namespace Deployment

open Compiling

/-- The sort keys, the clause and the text of a query. -/
def preparing (d : Deployment σ) (q : Query) : Compiling σ (Sorting × Option Json × String) := do
  let s ← .act (d.sorting q.sortKeys q.relevance)
  let clause ← d.compileTree false q.description
  let text ← .ofExcept q.description.queryText
  return (s, clause, text)

/-- The search that they amount to. -/
def searchOf (d : Deployment σ) (q : Query) (found : (Sorting × Option Json × String) × Progress) : Search :=
  let (s, clause, text) := found.1
  let clause := d.searchClause s.constantScore s.required clause
  let query := if s.isRandom then Clause.shuffled clause else clause
  let body := d.searchBody q s query
  let index := d.indexName IndexType.data
  { index, body, query
    errors := q.errors.map errorText ++ found.2.defects.map Defect.toMembers
    records := found.2.records.map Json.obj ++
      [.obj [("index", .str index), ("body", .obj body)]]
    summary := [("query", .str text), ("sort", Query.textTable q.sortKeys),
      ("metrics", .obj [("query_size", .int q.description.size),
        ("query_depth", .int q.description.depth)])]
    nodes := found.2.nodes }

theorem isBuilt_preparing (d : Deployment σ) (q : Query) : IsBuilt d (d.preparing q) :=
  (d.isBuilt_sorting _ _).bind fun _ => (d.isBuilt_compileTree _ _).bind fun _ =>
    (IsBuilt.ofExcept q.description.own_queryText).bind fun _ => .pure _

theorem prepare_eq (d : Deployment σ) (q : Query) :
    d.prepare q = d.searchOf q <$> Compiling.start (d.preparing q) := by
  refine Effect.ext fun w => ?_
  have hact : (act (d.sorting q.sortKeys q.relevance)).outcome (w, {}) =
      (((d.sorting q.sortKeys q.relevance).outcome w).1,
        ((d.sorting q.sortKeys q.relevance).outcome w).2, {}) := rfl
  rw [outcome_map, outcome_start]
  unfold prepare preparing
  rcases hs : (d.sorting q.sortKeys q.relevance).outcome w with ⟨e | s, v⟩ <;> rw [hs] at hact
  · rw [outcome_bind_of_error hs, outcome_bind_of_error hact]
    rfl
  · rw [outcome_bind_of_ok hs, outcome_bind_of_ok hact]
    unfold searchFor compile
    have hstart := outcome_start (d.compileTree false q.description) v
    rcases hc : (d.compileTree false q.description).outcome (v, {}) with ⟨e | clause, u, p⟩ <;>
      rw [hc] at hstart
    · rw [outcome_bind_of_error (outcome_bind_of_error hstart _), outcome_bind_of_error hc]
      rfl
    · rw [outcome_bind_of_ok (outcome_bind_of_ok hstart _), outcome_bind_of_ok hc]
      cases q.description.queryText <;> rfl

end Deployment

/-! ## The last request -/

namespace ClientError

/-- The answer to a count, read as the count does. -/
def ofCount : Except ClientError Json → Except Failure (Int × List String)
  | .ok answer => do
    let ms ← answer.paired
    return (← ((Table.get? ms "count").getD (.int 0)).toWhole, [])
  | .error (.refused status error reason) =>
    .ok (0, [(ClientError.refused status error reason).message])
  | .error e => .error (Deployment.asFailure e)

/-- The answer to a validation, read as the validation does. -/
def ofValidation : Except ClientError Json → Except Failure Members
  | .ok answer => answer.paired
  | .error (.refused status error reason) =>
    .ok [("valid", .bool false), ("error", .str (ClientError.refused status error reason).message)]
  | .error e => .error (Deployment.asFailure e)

end ClientError

/-- The answer to a query for which nothing is asked, if it is one. -/
def Query.idleAnswer (q : Query) : Option QueryResult :=
  if Deployment.isThing q.description ∧ q.mode ≠ .debug ∧ q.errors ≠ [] then
    some { errors := q.errors.map errorText }
  else if q.mode = .none ∨ q.limit < 1 then some { hasFurther := true } else none

namespace Deployment

/-- The last request of a query. -/
def finalRequest (q : Query) (s : Search) : Request :=
  match q.mode with
  | .debug => .validate s.index s.query
  | .count => .count s.index s.query
  | .instances | .none => .search s.index (s.body.map fun m => (optionName m.1, m.2))

/-- What is made of its answer. -/
def ofAnswer (q : Query) (s : Search) (c : Catalog) (answer : Except ClientError Json) :
    Except Failure QueryResult :=
  match q.mode with
  | .debug => do
    let verdict ← ClientError.ofValidation answer
    let log := if s.nodes.isEmpty then [] else [("description_log", .arr (s.nodes.map Json.obj))]
    let report := s.report log [.obj verdict] []
    return { errors := s.errors, trace := some report, info := report }
  | .count => do
    let (count, errors) ← ClientError.ofCount answer
    return { count := some count, errors := s.errors ++ errors.map errorText
             info := s.report [] [] [("count", .int count)] }
  | .instances | .none => do
    let (answer, errors) ← ClientError.ofSearch answer
    let found ← Hits.convert c answer q.limit
    return { results := found.results, hasFurther := found.hasFurther
             errors := s.errors ++ errors.map errorText, info := s.report [] [] found.info }

/-- Sends the last request, and makes something of its answer. -/
def finish (d : Deployment σ) (q : Query) (s : Search) : Action σ QueryResult := do
  let answer ← ask d (finalRequest q s)
  let c ← catalog
  .ofExcept (ofAnswer q s c answer)

variable (d : Deployment σ)

theorem outcome_finish (q : Query) (s : Search) (w : World σ) : (d.finish q s).outcome w =
    (ofAnswer q s w.catalog (d.client.send (finalRequest q s) w.engine).1, w.asked d (finalRequest q s)) := by
  have hcatalog : (catalog : Action σ Catalog).outcome (w.asked d (finalRequest q s)) =
      (.ok w.catalog, w.asked d (finalRequest q s)) := rfl
  unfold finish
  rw [outcome_bind_of_ok (outcome_ask d _ w), outcome_bind_of_ok hcatalog]
  exact outcome_ofExcept _ _

theorem validate_eq (index : String) (query : Json) : d.validate index query =
    ask d (.validate index query) >>= fun answer => Effect.ofExcept (ClientError.ofValidation answer) := by
  refine Effect.ext fun w => ?_
  unfold validate
  rw [outcome_bind_of_ok (outcome_ask d _ w), outcome_bind_of_ok (outcome_ask d _ w)]
  rcases (d.client.send _ w.engine).1 with e | answer
  · cases e <;> rfl
  · rfl

theorem count_eq (index : String) (query : Json) : d.count index query =
    ask d (.count index query) >>= fun answer => Effect.ofExcept (ClientError.ofCount answer) := by
  refine Effect.ext fun w => ?_
  unfold count
  rw [outcome_bind_of_ok (outcome_ask d _ w), outcome_bind_of_ok (outcome_ask d _ w)]
  rcases (d.client.send _ w.engine).1 with e | answer
  · cases e <;> rfl
  · dsimp only [ClientError.ofCount]
    rcases answer.paired with e | ms
    · rfl
    · show (Effect.ofExcept ((Table.get? ms "count").getD (.int 0)).toWhole >>= fun n =>
          pure (n, [])).outcome _ = (Effect.ofExcept
            (((Table.get? ms "count").getD (.int 0)).toWhole >>= fun n => pure (n, []))).outcome _
      cases ((Table.get? ms "count").getD (.int 0)).toWhole <;> rfl

theorem trace_eq {q : Query} (h : q.mode = .debug) (s : Search) : d.trace s = d.finish q s := by
  refine Effect.ext fun w => ?_
  rw [outcome_finish]
  unfold trace finalRequest ofAnswer
  rw [h, validate_eq, bind_assoc, outcome_bind_of_ok (outcome_ask d _ w), outcome_bind, outcome_ofExcept]
  dsimp only
  cases ClientError.ofValidation _ <;> rfl

theorem countResults_eq {q : Query} (h : q.mode = .count) (s : Search) : d.countResults s = d.finish q s := by
  refine Effect.ext fun w => ?_
  rw [outcome_finish]
  unfold countResults finalRequest ofAnswer
  rw [h, count_eq, bind_assoc, outcome_bind_of_ok (outcome_ask d _ w), outcome_bind, outcome_ofExcept]
  dsimp only
  cases ClientError.ofCount _ <;> rfl

theorem fetchResults_eq {q : Query} (h : q.mode = .instances) (s : Search) :
    d.fetchResults q s = d.finish q s := by
  refine Effect.ext fun w => ?_
  rw [outcome_finish]
  unfold fetchResults finalRequest ofAnswer
  rw [h, d.search_eq, bind_assoc, outcome_bind_of_ok (outcome_ask d _ w), outcome_bind, outcome_ofExcept]
  dsimp only
  rcases ClientError.ofSearch _ with e | ⟨ms, errors⟩
  · rfl
  · have hcatalog : (catalog : Action σ Catalog).outcome (w.asked d (.search s.index
        (s.body.map fun m => (optionName m.1, m.2)))) = (.ok w.catalog, _) := rfl
    dsimp only
    rw [outcome_bind_of_ok hcatalog, outcome_bind, outcome_ofExcept]
    cases hfound : Hits.convert w.catalog ms q.limit with
    | error e =>
      dsimp only [Bind.bind, Except.bind]
      rw [hfound]
    | ok found =>
      dsimp only [Bind.bind, Except.bind]
      rw [hfound]
      rfl

/-- The answer to a query: it is known, or there is a search whose answer decides. -/
theorem execute_eq (q : Query) : d.execute q =
    match q.idleAnswer with
    | some result => pure result
    | none => d.prepare q >>= d.finish q := by
  have hidle : d.execute q = (if isThing q.description ∧ q.mode ≠ .debug ∧ q.errors ≠ [] then
      pure { errors := q.errors.map errorText }
    else if q.mode = .none ∨ q.limit < 1 then pure { hasFurther := true }
    else d.prepare q >>= fun s => match q.mode with
      | .debug => d.trace s
      | .count => d.countResults s
      | .instances | .none => d.fetchResults q s) := rfl
  rw [hidle]
  unfold Query.idleAnswer
  by_cases hthing : isThing q.description ∧ q.mode ≠ .debug ∧ q.errors ≠ []
  · rw [if_pos hthing, if_pos hthing]
  · rw [if_neg hthing, if_neg hthing]
    by_cases hmode : q.mode = .none ∨ q.limit < 1
    · rw [if_pos hmode, if_pos hmode]
    · rw [if_neg hmode, if_neg hmode]
      refine bind_congr fun s => ?_
      cases hq : q.mode with
      | debug => exact d.trace_eq hq s
      | count => exact d.countResults_eq hq s
      | instances => exact d.fetchResults_eq hq s
      | none => exact absurd (.inl hq) hmode

/-! ## Another store -/

/-- What another store answers, if there is one and it may be used. -/
def spare (d : Deployment σ) : Option QueryResult := if d.settings.query.otherStore then d.fallback else none

/-- The answer to a ping, read as the ping does. -/
def ofPing : Except ClientError Json → Except Failure Bool
  | .ok answer => .ok answer.isGiven
  | .error (.refused status error reason) => .error (.client (.refused status error reason))
  | .error _ => .ok false

theorem outcome_ping_ask (w : World σ) :
    d.ping.outcome w = (ofPing (d.client.send .ping w.engine).1, w.asked d .ping) := by
  unfold ping
  rw [outcome_bind_of_ok (outcome_ask d .ping w)]
  rcases (d.client.send .ping w.engine).1 with e | answer
  · cases e <;> rfl
  · rfl

/-- The world in which a query is compiled. The engine is pinged if another store can answer. -/
def pinged (d : Deployment σ) (w : World σ) : World σ :=
  if d.spare.isSome then w.asked d .ping else w

end Deployment

/-- The world in which another store has answered. -/
def World.elsewhere (w : World σ) (query : Argument) : World σ :=
  { w with host.network := w.host.network.record ⟨"fallback.query", .single "type" (.str query.typeName)⟩ }

namespace Deployment

variable (d : Deployment σ) {query : Argument} {result : QueryResult} {w : World σ}

/-- Without another store the query is answered here. -/
theorem answer_of_spare_none (h : d.spare = none) : d.answer query = d.answerHere query := by
  unfold spare at h
  unfold answer
  cases hother : d.settings.query.otherStore with
  | false => cases d.fallback <;> rfl
  | true =>
      rw [hother, if_pos rfl] at h
      rw [h]

theorem answer_of_spare (h : d.spare = some result) : d.answer query = (do
    if !(← d.ping) then return ← answerElsewhere result query
    match ← Effect.attempt (d.answerHere query) with
    | .error (.unavailable _) => answerElsewhere result query
    | result => .ofExcept result) := by
  unfold spare at h
  split at h
  · rename_i hother
    unfold answer
    split
    · rename_i other hfallback _
      cases h.symm.trans hfallback
      rfl
    · rename_i hnone
      exact absurd hother (hnone result h)
  · cases h

/-- Another store answers where a ping is not answered. -/
theorem outcome_answer_of_ping_false (h : d.spare = some result)
    (hping : d.ping.outcome w = (.ok false, w.asked d .ping)) :
    (d.answer query).outcome w = (.ok result, (w.asked d .ping).elsewhere query) := by
  rw [d.answer_of_spare h, outcome_bind_of_ok hping]
  rfl

/-- The query is answered here where a ping is answered, unless the engine becomes unavailable. -/
theorem outcome_answer_of_ping_true (h : d.spare = some result)
    (hping : d.ping.outcome w = (.ok true, w.asked d .ping)) :
    (d.answer query).outcome w = match (d.answerHere query).outcome (w.asked d .ping) with
      | (.error (.unavailable _), v) => (.ok result, v.elsewhere query)
      | (r, v) => (r, v) := by
  rw [d.answer_of_spare h, outcome_bind_of_ok hping]
  show (Effect.attempt (d.answerHere query) >>= _).outcome (w.asked d .ping) = _
  rw [outcome_bind_of_ok (outcome_attempt _ _)]
  rcases (d.answerHere query).outcome (w.asked d .ping) with ⟨e | r, v⟩
  · cases e <;> rfl
  · rfl

end Deployment

end FactIndex
