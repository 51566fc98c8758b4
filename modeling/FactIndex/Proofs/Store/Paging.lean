import FactIndex.Proofs.Lookup.Exact
import FactIndex.Proofs.Store.Answer

/-!
# Going through results page by page

A query for entities shows a part of what is found, and whether there is more. Where the engine answers each
search with the part of one list that is asked for, a page is the part of that list from the offset on, as
long as the limit says, and there is more if and only if the list goes on. Going from page to page as long as
there is more shows each hit of the list once, in order.

## Main definitions

* `Hits.entityOf`: the entity that a hit stands for.
* `Serves`: an engine that answers a query with the parts of a list.
* `Deployment.walk`: the pages of a query from an offset on.
* `Serves.execute`, `Serves.walk`: one page, and all of them.
-/

namespace FactIndex

open FactIndex.Effect

/-! ## Parts of an answer -/

namespace Hits

/-- The entity that a hit stands for. -/
def entityOf (c : Catalog) (hit : Json) : Except Failure Entity := do entity c (← nameOf hit)

/-- A hit has the name of a document. -/
def IsNamed (hit : Json) : Prop := ∃ name, hit.get? "_id" = some (.str name)

/-- An answer has the hits. -/
def Has (answer : Members) (hits : List Json) : Prop :=
  ∃ ms, Table.get? answer "hits" = some (.obj ms) ∧ Table.get? ms "hits" = some (.arr hits)

/-- Results are what the hits stand for, one by one. -/
abbrev Are (c : Catalog) : List Json → List Entity → Prop := List.Forall₂ fun hit e => entityOf c hit = .ok e

theorem memberOf_obj (ms : Members) (key : String) (default : Json) :
    memberOf (.obj ms) key default = .ok ((Table.get? ms key).getD default) := rfl

theorem nameOf_of_get? {hit name : Json} (h : hit.get? "_id" = some name) : nameOf hit = .ok name := by
  obtain ⟨ms, rfl, hname⟩ := exists_members h
  simp [nameOf, hname]

/-- A text always stands for an entity, if only for one that is not known. -/
theorem exists_entity (c : Catalog) (name : String) : ∃ e, entity c (.str name) = .ok e := by
  unfold entity numberOf Json.toWhole
  dsimp only
  cases Decimal.argumentInt? name with
  | none => exact ⟨_, rfl⟩
  | some n => exact ⟨_, rfl⟩

theorem exists_entityOf {hit : Json} (c : Catalog) (h : IsNamed hit) : ∃ e, entityOf c hit = .ok e := by
  obtain ⟨name, hname⟩ := h
  unfold entityOf
  rw [nameOf_of_get? hname]
  exact exists_entity c name

theorem exists_are (c : Catalog) {hits : List Json} (h : ∀ hit ∈ hits, IsNamed hit) :
    ∃ es, hits.mapM (entityOf c) = .ok es ∧ Are c hits es := by
  induction hits with
  | nil => exact ⟨[], rfl, .nil⟩
  | cons hit rest ih =>
      obtain ⟨e, he⟩ := exists_entityOf c (h hit List.mem_cons_self)
      obtain ⟨es, hes, hare⟩ := ih fun hit hmem => h hit (List.mem_cons_of_mem _ hmem)
      refine ⟨e :: es, ?_, .cons he hare⟩
      rw [List.mapM_cons, he]
      show (rest.mapM (entityOf c) >>= fun es => pure (e :: es)) = _
      rw [hes]
      rfl

/-- An answer stands for the first of its hits, and there are more if it has more than the limit. -/
theorem exists_convert (c : Catalog) {answer : Members} {hits : List Json} (hhas : Has answer hits)
    (hnamed : ∀ hit ∈ hits, IsNamed hit) (limit : Nat) :
    ∃ found, convert c answer limit = .ok found ∧ Are c (hits.take limit) found.results ∧
      found.hasFurther = decide (limit < hits.length) := by
  obtain ⟨ms, hof, hhits⟩ := hhas
  obtain ⟨es, hes, hare⟩ := exists_are c fun hit hmem => hnamed hit (List.mem_of_mem_take (i := limit) hmem)
  have htotal : ∃ total, totalShown (.obj ms) = .ok total := by
    unfold totalShown
    rw [memberOf_obj]
    dsimp only [Bind.bind, Except.bind]
    split <;> exact ⟨_, rfl⟩
  obtain ⟨total, htotal⟩ := htotal
  have hlist : list (.obj ms) = .ok (.arr hits) := by
    unfold list
    rw [memberOf_obj, hhits, Option.getD_some]
  have hfront : (front hits limit).mapM (entityOf c) = .ok es := by
    rw [front_ofNat]
    exact hes
  have hconvert : convert c answer limit = (front hits limit).mapM (entityOf c) >>= fun results => .ok {
      results
      info := [("took", (Table.get? answer "took").getD .null), ("total", total),
        ("max_score", (Table.get? ms "max_score").getD .null)]
      hasFurther := decide ((hits.length : Int) > limit) } := by
    unfold convert of
    rw [hof]
    show (list (.obj ms) >>= _) = _
    rw [hlist]
    show (totalShown (.obj ms) >>= _) = _
    rw [htotal]
    rfl
  rw [hfront] at hconvert
  exact ⟨_, hconvert, hare, by simp⟩

end Hits

/-! ## Pages -/

variable {σ : Type} {d : Deployment σ} {q : Query} {hits : List Json} {stands : World σ → Prop}

theorem Deployment.reaches_prepare {w : World σ} (q : Query) :
    w.catalog.Reaches ((d.prepare q).outcome w).2.catalog := by
  have h := (d.isBuilt_preparing q).reaches (w, {})
  rw [prepare_eq, outcome_map, Compiling.outcome_start]
  unfold Meets at h
  rcases hr : (d.preparing q).outcome (w, {}) with ⟨e | found, t⟩ <;> rw [hr] at h <;> exact h

/-- In each world of a kind, which answering the query does not leave, the engine answers the search of the
query, from whatever offset on, with the part of the list that the search asks for. -/
structure Serves (d : Deployment σ) (q : Query) (hits : List Json) (stands : World σ → Prop) : Prop where
  isNamed : ∀ hit ∈ hits, Hits.IsNamed hit
  answer : ∀ {w v : World σ} {s : Search} (offset : Int), stands w →
    (d.prepare { q with offset }).outcome w = (.ok s, v) → ∀ index options,
    Deployment.finalRequest { q with offset } s = .search index options → ∀ first size : Nat,
    Table.get? options "from_" = some (.int first) → Table.get? options "size" = some (.int size) →
    ∃ answer, (d.client.send (.search index options) v.engine).1 = .ok (.obj answer) ∧
      Hits.Has answer ((hits.drop first).take size)
  remains : ∀ {w : World σ} (offset : Int), stands w → stands ((d.execute { q with offset }).outcome w).2

namespace Deployment

/-- The search of a query asks for one result more than the limit, from the offset on. -/
theorem exists_finalRequest {w v : World σ} {s : Search} (hmode : q.mode = .instances)
    (h : (d.prepare q).outcome w = (.ok s, v)) : ∃ index options, finalRequest q s = .search index options ∧
      Table.get? options "from_" = some (.int q.offset) ∧
      Table.get? options "size" = some (.int (q.limit + 1)) := by
  rw [prepare_eq, outcome_map] at h
  obtain ⟨found, -, rfl⟩ := exists_of_map_ok (Prod.mk.inj h).1
  unfold finalRequest
  rw [hmode]
  exact ⟨_, _, rfl, rfl, rfl⟩

/-- What is made of an answer that stands for entities. -/
theorem ofAnswer_of_convert {s : Search} {c : Catalog} {answer : Members} {found : Hits.Converted}
    (hmode : q.mode = .instances) (h : Hits.convert c answer q.limit = .ok found) :
    ∃ page, ofAnswer q s c (.ok (.obj answer)) = .ok page ∧ page.results = found.results ∧
      page.hasFurther = found.hasFurther := by
  unfold ofAnswer
  rw [hmode]
  show ∃ page, (Hits.convert c answer q.limit >>= _) = _ ∧ _
  rw [h]
  exact ⟨_, rfl, rfl, rfl⟩

theorem execute_of_instances (herrors : q.errors = []) (hmode : q.mode = .instances) (hlimit : 1 ≤ q.limit) :
    d.execute q = d.prepare q >>= d.finish q := by
  have hidle : q.idleAnswer = none := by
    unfold Query.idleAnswer
    rw [if_neg (by simp [herrors]), if_neg (by simp [hmode]; omega)]
  rw [d.execute_eq, hidle]

/-- The pages of a query from an offset on, so many of them at most. Each starts where the one before it
ends, and there is a next one as long as there are further results. -/
def walk (d : Deployment σ) (q : Query) : Nat → Int → Action σ (List QueryResult)
  | 0, _ => return []
  | n + 1, offset => do
    let page ← d.execute { q with offset }
    if page.hasFurther then return page :: (← d.walk q n (offset + q.limit)) else return [page]

/-- How many pages there are of so many hits. -/
def pageCount (hits limit : Nat) : Nat := max 1 ((hits + limit - 1) / limit)

theorem pageCount_of_le {n limit : Nat} (h : n ≤ limit) : pageCount n limit = 1 := by
  unfold pageCount
  rcases Nat.eq_zero_or_pos limit with rfl | hpos
  · simp
  · have hlt : (n + limit - 1) / limit < 2 := (Nat.div_lt_iff_lt_mul hpos).mpr (by omega)
    omega

theorem pageCount_of_lt {n limit : Nat} (hpos : 0 < limit) (h : limit < n) :
    pageCount n limit = pageCount (n - limit) limit + 1 := by
  unfold pageCount
  have hstep : (n + limit - 1) / limit = (n - limit + limit - 1) / limit + 1 := by
    rw [← Nat.add_div_right _ hpos]
    congr 1
    omega
  have hone : 1 ≤ (n - limit + limit - 1) / limit := (Nat.le_div_iff_mul_le hpos).mpr (by omega)
  omega

end Deployment

namespace Serves

/-- The preparation of some page of a query fails in one of the worlds. -/
def Fails (d : Deployment σ) (q : Query) (stands : World σ → Prop) (e : Failure) : Prop :=
  ∃ w offset, stands w ∧ ((d.prepare { q with offset }).outcome w).1 = .error e

variable {w : World σ} {limit : Nat}

/-- A page from an offset on is the part of the list that starts there and is as long as the limit says. -/
theorem exists_execute (hserves : Serves d q hits stands) (hw : stands w) (herrors : q.errors = [])
    (hmode : q.mode = .instances) (hlimit : q.limit = limit) (hpos : 0 < limit) (offset : Nat) {s : Search}
    {v : World σ} (hprepare : (d.prepare { q with offset }).outcome w = (.ok s, v)) :
    ∃ page after, (d.execute { q with offset }).outcome w = (.ok page, after) ∧ after.catalog = v.catalog ∧
      Hits.Are v.catalog ((hits.drop offset).take limit) page.results ∧
      page.hasFurther = decide (offset + limit < hits.length) := by
  obtain ⟨index, options, hrequest, hfirst, hsize⟩ := Deployment.exists_finalRequest
    (q := { q with offset }) hmode hprepare
  have hsize' : Table.get? options "size" = some (.int (limit + 1 : Nat)) := by
    rw [hsize]
    show some (Json.int (q.limit + 1)) = _
    rw [hlimit]
    rfl
  obtain ⟨answer, hanswer, hhas⟩ := hserves.answer offset hw hprepare index options hrequest offset
    (limit + 1) hfirst hsize'
  have hnamed : ∀ hit ∈ (hits.drop offset).take (limit + 1), Hits.IsNamed hit := fun hit hmem =>
    hserves.isNamed hit (List.mem_of_mem_drop (List.mem_of_mem_take hmem))
  obtain ⟨found, hconvert, hare, hfurther⟩ := Hits.exists_convert v.catalog hhas hnamed limit
  rw [← hlimit] at hconvert
  obtain ⟨page, hpage, hresults, hmore⟩ := Deployment.ofAnswer_of_convert (q := { q with offset }) (s := s)
    hmode hconvert
  have hexecute : (d.execute { q with offset }).outcome w =
      (.ok page, v.asked d (Deployment.finalRequest { q with offset } s)) := by
    rw [Deployment.execute_of_instances (q := { q with offset }) herrors hmode (by show 1 ≤ q.limit; omega),
      outcome_bind_of_ok hprepare, d.outcome_finish, hrequest, hanswer, hpage]
  refine ⟨page, _, hexecute, rfl, ?_, ?_⟩
  · rwa [List.take_take, Nat.min_eq_left (Nat.le_succ limit), ← hresults] at hare
  · rw [hmore, hfurther, List.length_take, List.length_drop]
    exact decide_eq_decide.mpr (by omega)

/-- A page that cannot be prepared is not there. -/
theorem execute_of_error (herrors : q.errors = []) (hmode : q.mode = .instances) (hlimit : 1 ≤ q.limit)
    {offset : Int} {e : Failure} (hprepare : ((d.prepare { q with offset }).outcome w).1 = .error e) :
    ((d.execute { q with offset }).outcome w).1 = .error e := by
  rw [Deployment.execute_of_instances (q := { q with offset }) herrors hmode hlimit]
  exact fst_bind_of_error hprepare _

/-- What the pages from an offset on are, if each of them can be prepared: there are as many as the rest of
the list needs, there are further results after each but the last, and together they are the rest of the list,
each part of it as the catalog has it then. -/
structure Shows (hits : List Json) (limit : Nat) (pages : List QueryResult) (first last : Catalog) : Prop where
  length : pages.length = Deployment.pageCount hits.length limit
  further : pages.map (·.hasFurther) = List.replicate (pages.length - 1) true ++ [false]
  reaches : first.Reaches last
  results : List.Forall₂ (fun hit e => ∃ c, first.Reaches c ∧ c.Reaches last ∧ Hits.entityOf c hit = .ok e)
    hits (pages.flatMap (·.results))

/-- One step of the walk: the rest of the list is the part that the page shows and the rest after it. -/
theorem Shows.cons {pages : List QueryResult} {page : QueryResult} {first c last : Catalog} (hpos : 0 < limit)
    (hlong : limit < hits.length) (hreaches : first.Reaches c) (hare : Hits.Are c (hits.take limit) page.results)
    (hfurther : page.hasFurther = true) (hrest : Shows (hits.drop limit) limit pages c last) :
    Shows hits limit (page :: pages) first last := by
  have hcount := hrest.length
  rw [List.length_drop] at hcount
  have hpositive : 0 < pages.length := by
    rw [hcount]
    exact Nat.lt_of_lt_of_le Nat.zero_lt_one (Nat.le_max_left _ _)
  refine ⟨?_, ?_, hreaches.trans hrest.reaches, ?_⟩
  · rw [List.length_cons, hcount, Deployment.pageCount_of_lt hpos hlong]
  · rw [List.map_cons, hrest.further, hfurther, List.length_cons, Nat.add_sub_cancel,
      ← List.cons_append, ← List.replicate_succ, Nat.sub_add_cancel hpositive]
  · rw [List.flatMap_cons]
    conv_lhs => rw [← List.take_append_drop limit hits]
    refine List.rel_append (hare.imp fun _ _ he => ⟨c, hreaches, hrest.reaches, he⟩)
      (hrest.results.imp fun _ _ => ?_)
    rintro ⟨c', hc, hlast, he⟩
    exact ⟨c', hreaches.trans hc, hlast, he⟩

/-- The last page shows all that is left. -/
theorem Shows.single {page : QueryResult} {first c : Catalog} (hshort : hits.length ≤ limit)
    (hreaches : first.Reaches c) (hare : Hits.Are c (hits.take limit) page.results)
    (hfurther : page.hasFurther = false) : Shows hits limit [page] first c := by
  rw [List.take_of_length_le hshort] at hare
  refine ⟨(Deployment.pageCount_of_le hshort).symm, by simp [hfurther], hreaches, ?_⟩
  rw [List.flatMap_singleton]
  exact hare.imp fun _ _ he => ⟨c, hreaches, .refl, he⟩

/-- The walk from an offset on: by induction on the number of pages that it may show. -/
theorem meets_walk (hserves : Serves d q hits stands) (herrors : q.errors = [])
    (hmode : q.mode = .instances) (hlimit : q.limit = limit) (hpos : 0 < limit) (n offset : Nat)
    (hw : stands w) (hn : Deployment.pageCount (hits.length - offset) limit ≤ n) :
    (d.walk q n offset).Meets w fun r after => match r with
      | .error e => Fails d q stands e
      | .ok pages => Shows (hits.drop offset) limit pages w.catalog after.catalog := by
  induction n generalizing w offset with
  | zero => exact absurd (Nat.le_trans (Nat.le_max_left _ _) hn) (by decide)
  | succ n ih =>
      have hreaches := d.reaches_prepare (w := w) { q with offset }
      have hstands := hserves.remains offset hw
      rcases hprepare : (d.prepare { q with offset }).outcome w with ⟨e | s, v⟩
      · have hexecute := execute_of_error herrors hmode (by omega) (congrArg Prod.fst hprepare)
        unfold Meets Deployment.walk
        rw [fst_bind_of_error hexecute]
        exact ⟨w, offset, hw, congrArg Prod.fst hprepare⟩
      · rw [hprepare] at hreaches
        obtain ⟨page, after, hexecute, hcatalog, hare, hfurther⟩ := hserves.exists_execute hw herrors hmode hlimit
          hpos offset hprepare
        rw [hexecute] at hstands
        rw [← hcatalog] at hare hreaches
        unfold Deployment.walk
        refine Meets.bind_of_ok hexecute ?_
        rw [hfurther, hlimit]
        by_cases hmore : offset + limit < hits.length
        · rw [decide_eq_true hmore] at hfurther ⊢
          have hlong : limit < (hits.drop offset).length := by
            rw [List.length_drop]
            omega
          have hcount := Deployment.pageCount_of_lt (n := hits.length - offset) hpos (by omega)
          rw [Nat.sub_sub] at hcount
          refine (ih (offset + limit) hstands (by omega)).bind ?_ fun e _ he => he
          intro pages last hrest
          rw [← List.drop_drop] at hrest
          exact .cons hpos hlong hreaches hare hfurther hrest
        · rw [decide_eq_false hmore] at hfurther ⊢
          exact .single (by rw [List.length_drop]; omega) hreaches hare hfurther

/-- A page from an offset on is what the part of the list there stands for, and there is more exactly if the
list goes on. The walk from page to page comes to an end, and shows what each hit of the list stands for once,
in order. A page is missing only if it cannot be prepared. -/
theorem pages_exact (hserves : Serves d q hits stands) (hw : stands w) (herrors : q.errors = [])
    (hmode : q.mode = .instances) (hlimit : q.limit = limit) (hpos : 0 < limit) :
    (∀ offset : Nat, match (d.prepare { q with offset }).outcome w with
      | (.error e, _) => ((d.execute { q with offset }).outcome w).1 = .error e
      | (.ok _, v) => ∃ page after, (d.execute { q with offset }).outcome w = (.ok page, after) ∧
          after.catalog = v.catalog ∧ Hits.Are v.catalog ((hits.drop offset).take limit) page.results ∧
          page.hasFurther = decide (offset + limit < hits.length)) ∧
      ∀ n, Deployment.pageCount hits.length limit ≤ n → match (d.walk q n 0).outcome w with
        | (.error e, _) => Fails d q stands e
        | (.ok pages, after) => Shows hits limit pages w.catalog after.catalog := by
  refine ⟨fun offset => ?_, fun n hn => ?_⟩
  · rcases hprepare : (d.prepare { q with offset }).outcome w with ⟨e | s, v⟩
    · exact execute_of_error herrors hmode (by omega) (congrArg Prod.fst hprepare)
    · exact hserves.exists_execute hw herrors hmode hlimit hpos offset hprepare
  · have hwalk := hserves.meets_walk herrors hmode hlimit hpos n 0 hw hn
    rw [Int.natCast_zero] at hwalk
    unfold Meets at hwalk
    rcases hr : (d.walk q n 0).outcome w with ⟨e | pages, after⟩ <;> rw [hr] at hwalk
    · exact hwalk
    · exact hwalk

/-- An engine that has one list of hits, and answers each search with the part of it that is asked for. -/
private def shelf (hits : List Json) : SearchClient Unit where
  send r _ := (.ok (match r with
    | .search _ options =>
      match Table.get? options "from_", Table.get? options "size" with
      | some (.int first), some (.int size) =>
        .single "hits" (.single "hits" (.arr ((hits.drop first.toNat).take size.toNat)))
      | _, _ => .single "hits" (.obj [])
    | _ => .null), ())

private def shelfStore (hits : List Json) : Deployment Unit where
  client := shelf hits
  cache := {}
  queue := {}

private theorem serves_shelf (q : Query) {hits : List Json} (h : ∀ hit ∈ hits, Hits.IsNamed hit) :
    Serves (shelfStore hits) q hits fun _ => True where
  isNamed := h
  answer _ _ _ index options _ first size hfirst hsize := by
    have hsend : ((shelf hits).send (.search index options) ()).1 = .ok (.obj [("hits",
        .obj [("hits", .arr ((hits.drop first).take size))])]) := by
      simp only [shelf, hfirst, hsize]
      rfl
    exact ⟨_, hsend, _, rfl, rfl⟩
  remains _ _ := trivial

private def townHits : List Json := ["7", "8", "9"].map fun name => .single "_id" (.str name)

private def townQuery : Query where
  description := .space 0
  limit := 2

/-- Only two of the three hits are known to the catalog. -/
private def townWorld : World Unit where
  engine := ()
  catalog := { next := 10, entities := [(7, { title := "Town" }), (9, { title := "Port" })] }

private theorem named_townHits : ∀ hit ∈ townHits, Hits.IsNamed hit := by
  intro hit hmem
  obtain ⟨name, -, rfl⟩ := List.mem_map.mp hmem
  exact ⟨name, rfl⟩

theorem pages_exact_town :
    Serves (shelfStore townHits) townQuery townHits (fun _ => True) ∧ townQuery.errors = [] ∧
      townQuery.mode = .instances ∧ townQuery.limit = (2 : Nat) ∧ 0 < 2 ∧
      ∃ pages after, ((shelfStore townHits).walk townQuery 2 0).outcome townWorld = (.ok pages, after) ∧
        Shows townHits 2 pages townWorld.catalog after.catalog ∧
        pages.map (fun page => page.results.map (·.title)) = [["Town", "SEMINDEX:UNKNOWN:8"], ["Port"]] := by
  have hserves := serves_shelf townQuery named_townHits
  have hshown : (((shelfStore townHits).walk townQuery 2 0).outcome townWorld).1.map
      (fun pages => pages.map fun page => page.results.map (·.title)) =
        .ok [["Town", "SEMINDEX:UNKNOWN:8"], ["Port"]] := by
    decide +kernel
  have hshows := (pages_exact hserves (w := townWorld) trivial rfl rfl rfl (by decide)).2 2 (by decide)
  rcases hr : ((shelfStore townHits).walk townQuery 2 0).outcome townWorld with ⟨e | pages, after⟩ <;>
    rw [hr] at hshown hshows
  · cases hshown
  · exact ⟨hserves, rfl, rfl, rfl, by decide, pages, after, rfl, hshows, Except.ok.inj hshown⟩

end Serves

end FactIndex
