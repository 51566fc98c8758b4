import FactIndex.Proofs.Compile.Lockstep

/-!
# The traversal in two worlds

A tie between two worlds that lookups keep is kept by whole compilations: those of a description at
two places of a tree come to the same clause, or fail both.

## Main definitions

* `Compiling.Tie.IsKept`: a tie that holds across everything that a compilation asks of the world.
* `Deployment.ExpandsAlong`: concepts that are expanded alike.
* `Deployment.agree_node`, `Deployment.agree_property`: the compilations of a description agree.
* `Deployment.agree_expandConcept`: so do the expansions of a concept.
-/

namespace FactIndex

open FactIndex.Effect

variable {σ α : Type}

namespace Compiling

/-- A tie holds across everything that a compilation asks of the world: numbers and lookups. -/
structure Tie.IsKept (T : Tie σ) (d : Deployment σ) : Prop where
  catalog : ∀ {s s'}, T.base s s' → s.1.catalog = s'.1.catalog
  setCatalog : ∀ {s s'}, T.base s s' → ∀ c, s.1.catalog.Grows c →
    T.base ({ s.1 with catalog := c }, s.2) ({ s'.1 with catalog := c }, s'.2)
  fine_setCatalog : ∀ {s c}, s.1.catalog.Grows c → T.fine ({ s.1 with catalog := c }, s.2) → T.fine s
  call : ∀ (call : LookupCall) {s s' : World σ × Progress}, T.base (stage s) (stage s') →
    T.fine (stage ((lookUp (call.run d)).outcome s).2) →
    T.fine (stage ((lookUp (call.run d)).outcome s').2) → Coincide
      (fun a b => a = b ∧ T.base (stage ((lookUp (call.run d)).outcome s).2)
        (stage ((lookUp (call.run d)).outcome s').2))
      ((lookUp (call.run d)).outcome s).1 ((lookUp (call.run d)).outcome s').1
  fine_call : ∀ (call : LookupCall) {s : World σ × Progress},
    T.fine (stage ((lookUp (call.run d)).outcome s).2) → T.fine (stage s)

variable {T : Tie σ} {d : Deployment σ} {isNoted : Bool} {path path' : List Nat}

/-- A lookup leaves the concepts that are being expanded and the negated conditions alone. -/
theorem leaves_lookUp_rest (x : Action σ Resolved) :
    Leaves (fun s => (s.2.expanding, s.2.negated)) (lookUp x) := by
  intro s
  rcases h : x.outcome s.1 with ⟨e | r, w⟩
  · rw [outcome_lookUp_of_error h]
  · rw [outcome_lookUp_of_ok h]

namespace Agree

/-- Numbers are the same in both worlds. -/
theorem onCatalog_of (hT : T.IsKept d) {x : Action σ α} (hx : OnCatalog x) {P : α → Prop}
    (hP : ∀ w a, (x.outcome w).1 = .ok a → P a) :
    Agree T isNoted path path' (fun a b => a = b ∧ P a) (act x) (act x) := by
  obtain ⟨y, hy⟩ := hx
  have houtcome : ∀ s : World σ × Progress, (act x).outcome s = ((y.outcome s.1.catalog).1,
      ({ s.1 with catalog := (y.outcome s.1.catalog).2 }, s.2)) := fun s => by
    rw [outcome_act, (hy s.1).1]
  have htame : ∀ path, Tame T isNoted path (act x) := fun path => by
    refine ⟨fun s h => ?_, fun s => ?_, fun s => ?_⟩ <;> rw [houtcome] at *
    · exact hT.fine_setCatalog (s := stage s) (hy s.1).2 h
    · rfl
  refine ⟨htame path, htame path', fun s s' hs _ _ => ?_⟩
  have hcatalog : s.1.catalog = s'.1.catalog := hT.catalog hs.base
  have hfound := hP s.1
  rw [(hy s.1).1] at hfound
  rw [houtcome, houtcome, ← hcatalog]
  have hbase := hT.setCatalog hs.base (y.outcome s.1.catalog).2 (hy s.1).2
  cases hr : (y.outcome s.1.catalog).1 with
  | ok a => exact ⟨⟨rfl, hfound a hr⟩, hbase, hs.expanding, hs.negated⟩
  | error e => trivial

theorem onCatalog (hT : T.IsKept d) {x : Action σ α} (hx : OnCatalog x) :
    Agree T isNoted path path' Eq (act x) (act x) :=
  (onCatalog_of hT hx (P := fun _ => True) fun _ _ _ => trivial).mono fun _ _ h => h.1

/-- Lookups touch nothing but the world and their records. -/
theorem lookUp {x y : Action σ Resolved}
    (hx : ∀ s, T.fine (stage ((Compiling.lookUp x).outcome s).2) → T.fine (stage s))
    (hy : ∀ s, T.fine (stage ((Compiling.lookUp y).outcome s).2) → T.fine (stage s))
    (h : ∀ s s', T.base (stage s) (stage s') → T.fine (stage ((Compiling.lookUp x).outcome s).2) →
      T.fine (stage ((Compiling.lookUp y).outcome s').2) → Coincide
        (fun a b => a = b ∧ T.base (stage ((Compiling.lookUp x).outcome s).2)
          (stage ((Compiling.lookUp y).outcome s').2))
        ((Compiling.lookUp x).outcome s).1 ((Compiling.lookUp y).outcome s').1) :
    Agree T isNoted path path' Eq (Compiling.lookUp x) (Compiling.lookUp y) := by
  have hrest := fun x s => Prod.ext_iff.mp (leaves_lookUp_rest (σ := σ) x s)
  have houtside : ∀ x path, Leaves (outside isNoted path) (Compiling.lookUp (σ := σ) x) := by
    refine fun x path s => funext fun position => ?_
    have hsame := (hrest x s).2
    dsimp only at hsame
    unfold Compiling.outside
    rw [hsame]
  refine ⟨⟨hx, fun s => (hrest x s).1, houtside x path⟩, ⟨hy, fun s => (hrest y s).1,
    houtside y path'⟩, fun s s' hs hfine hfine' => ?_⟩
  have hsame := h s s' hs.base hfine hfine'
  cases hrx : ((Compiling.lookUp x).outcome s).1 <;>
    cases hry : ((Compiling.lookUp y).outcome s').1 <;> rw [hrx, hry] at hsame
  · trivial
  · exact hsame
  · exact hsame
  · refine ⟨hsame.1, hsame.2, ?_, fun rest => ?_⟩
    · exact (hrest x s).1.trans (hs.expanding.trans (hrest y s').1.symm)
    · have hleft := (hrest x s).2
      have hright := (hrest y s').2
      dsimp only at hleft hright
      rw [hleft, hright, hs.negated]

/-- So are the results of lookups. -/
theorem call (hT : T.IsKept d) (call : LookupCall) : Agree T isNoted path path' Eq
    (Compiling.lookUp (call.run d)) (Compiling.lookUp (call.run d)) :=
  lookUp (fun _ => hT.fine_call call) (fun _ => hT.fine_call call) fun _ _ => hT.call call

/-- What follows on a look into the catalog may rely on the stored queries. -/
theorem catalog_bind (hT : T.IsKept d) {R : α → α → Prop} {f g : Catalog → Compiling σ α}
    (h : ∀ c, Agree T isNoted path path' R (f c) (g c)) :
    Agree T isNoted path path' R (act catalog >>= f) (act catalog >>= g) :=
  (onCatalog hT OnCatalog.catalog).bind h

/-- What follows on a look at the progress may rely on the concepts that are being expanded. -/
theorem progress_bind {R : α → α → Prop} {f g : Progress → Compiling σ α}
    (h : ∀ p p', p.expanding = p'.expanding → Agree T isNoted path path' R (f p) (g p')) :
    Agree T isNoted path path' R (progress >>= f) (progress >>= g) := by
  refine ⟨Tame.progress.bind fun p => (h p p rfl).left, Tame.progress.bind fun p => (h p p rfl).right,
    fun s s' hs hfine hfine' => ?_⟩
  rw [outcome_bind_of_ok (outcome_progress s)] at hfine ⊢
  rw [outcome_bind_of_ok (outcome_progress s')] at hfine' ⊢
  exact (h s.2 s'.2 hs.expanding).coincide s s' hs hfine hfine'

theorem report (e : Defect) : Agree T isNoted path path' Eq (Compiling.report e : Compiling σ Unit)
    (Compiling.report e) :=
  note (fun _ => rfl) (fun _ => rfl) fun _ => rfl

end Agree

end Compiling

namespace Deployment

open Compiling

variable {T : Tie σ} {d : Deployment σ} {path path' : List Nat}

/-! ## The steps -/

theorem agree_visit (node : Description) :
    Agree T d.settings.query.negatedExists path path' Eq (d.visit node) (d.visit node) := by
  unfold visit
  split
  · exact (Agree.ofExcept _).bind fun _ => Agree.note (fun _ => rfl) (fun _ => rfl) fun _ => rfl
  · exact Agree.pure rfl

/-- A negated condition is noted at its place. -/
theorem agree_negatedClause (field : String) (clause : Json) :
    Agree T d.settings.query.negatedExists path path' Eq (d.negatedClause path field clause)
      (d.negatedClause path' field clause) := by
  unfold negatedClause
  cases hnoted : d.settings.query.negatedExists with
  | false => exact Agree.pure rfl
  | true =>
      have htame : ∀ path, Tame T true path (Compiling.note fun p =>
          { p with negated := p.negated.put path field } : Compiling σ Unit) := fun path => by
        refine Tame.note (fun _ => rfl) (fun _ => rfl) fun p position => ?_
        by_cases hsame : path = position
        · exact .inl ⟨rfl, hsame ▸ List.prefix_rfl⟩
        · exact .inr (Table.get?_put_of_ne _ _ hsame)
      have hput : ∀ (t : Table (List Nat) String) (path rest : List Nat),
          (t.put path field).get? (path ++ rest) =
            if rest = [] then some field else t.get? (path ++ rest) := by
        intro t path rest
        rw [Table.get?_put]
        simp only [List.self_eq_append_right]
      have hnote : Agree T true path path' Eq
          (Compiling.note fun p => { p with negated := p.negated.put path field } : Compiling σ Unit)
          (Compiling.note fun p => { p with negated := p.negated.put path' field }) := by
        refine ⟨htame path, htame path', fun s s' hs _ _ => ⟨rfl, hs.base, hs.expanding, ?_⟩⟩
        intro rest
        rw [outcome_note, outcome_note, hput, hput, hs.negated]
      exact hnote.bind fun _ => Agree.pure rfl

theorem agree_inverseClause (hT : T.IsKept d) (p : Property) (group text : String) (c : Comparator)
    (value clause : Json) : Agree T d.settings.query.negatedExists path path' Eq
      (d.inverseClause p group text c value clause) (d.inverseClause p group text c value clause) := by
  unfold inverseClause
  dsimp only
  split
  · exact Agree.call hT (.inverse _ _ _)
  · exact (Agree.call hT (.plain _ _ _)).bind fun _ => (Agree.ofExcept _).bind fun _ =>
      Agree.call hT (.inverse _ _ _)

theorem agree_propertyCondition (hT : T.IsKept d) (p : Property) (group : String) (item : Item)
    (comparator : Comparator) (property : Option Property) :
    Agree T d.settings.query.negatedExists path path' Eq
      (d.propertyCondition p group item comparator property)
      (d.propertyCondition p group item comparator property) := by
  refine (Agree.onCatalog hT (onCatalog_arrayValue _ _ _)).bind fun found =>
    (Agree.ofExcept _).bind fun m => ?_
  split
  · exact Agree.pure rfl
  · exact (Agree.ofExcept _).bind fun _ => (agree_inverseClause hT _ _ _ _ _ _).bind fun _ =>
      Agree.pure rfl

theorem agree_valueClause (hT : T.IsKept d) (p : Property) (site : String × List Int) (item : Item)
    (comparator : Comparator) (property : Option Property) :
    Agree T d.settings.query.negatedExists path path' Eq
      (d.valueClause path p site item comparator property)
      (d.valueClause path' p site item comparator property) := by
  refine (agree_propertyCondition hT _ _ _ _ _).bind fun m => ?_
  dsimp only
  split
  · exact agree_negatedClause _ _
  · exact Agree.pure rfl

theorem agree_entityClause (hT : T.IsKept d) (isMember : Bool) (item : Item) (comparator : Comparator)
    (property : Option Property) : Agree T d.settings.query.negatedExists path path' Eq
      (d.entityClause isMember item comparator property)
      (d.entityClause isMember item comparator property) := by
  refine Agree.bind (Agree.onCatalog hT ?_) fun site =>
    (Agree.onCatalog hT (onCatalog_siteValue _ _ _)).bind fun found => ?_
  · split
    · exact OnCatalog.pure _
    · exact onCatalog_namedSite _ _
  · dsimp only
    split
    · exact (Agree.ofExcept _).bind fun _ =>
        (Agree.report _).bind fun _ => Agree.pure rfl
    · exact (Agree.ofExcept _).bind fun _ => Agree.pure rfl

theorem agree_objectClause (hT : T.IsKept d) (p : Property) (group text : String)
    (clauses : List Json) : Agree T d.settings.query.negatedExists path path' Eq
      (d.objectClause p group text clauses) (d.objectClause p group text clauses) := by
  unfold objectClause
  split
  · exact Agree.pure rfl
  · refine (Agree.call hT (.plain _ _ _)).bind fun found => ?_
    dsimp only
    split
    · exact (Agree.ofExcept _).bind fun _ => (Agree.call hT (.inverse _ _ _)).bind fun _ =>
        Agree.pure rfl
    · exact Agree.pure rfl

theorem agree_chainClause (hT : T.IsKept d) (p : Property) (field : String) (rest : Description)
    (clause : Option Json) : Agree T d.settings.query.negatedExists path path' Eq
      (d.chainClause p field rest clause) (d.chainClause p field rest clause) := by
  unfold chainClause
  split
  · exact Agree.pure rfl
  · split
    · exact Agree.pure rfl
    · exact (Agree.ofExcept _).bind fun _ => (Agree.ofExcept _).bind fun _ =>
        (Agree.call hT (.inverse _ _ _)).bind fun _ => Agree.pure rfl

theorem agree_linked (hT : T.IsKept d) (chain : Option String) (p : Property) (whole : Description)
    (clause : Option Json) : Agree T d.settings.query.negatedExists path path' Eq
      (d.linked chain p whole clause) (d.linked chain p whole clause) := by
  unfold linked
  split
  · exact Agree.pure rfl
  · split
    · exact Agree.pure rfl
    · exact (Agree.ofExcept _).bind fun _ => (Agree.call hT (.chain _ _ _ _)).bind fun _ =>
        Agree.pure rfl

theorem agree_conceptClause (hT : T.IsKept d) (c : Entity) (inner : Description)
    (clause : Option Json) : Agree T d.settings.query.negatedExists path path' Eq
      (d.conceptClause c inner clause) (d.conceptClause c inner clause) := by
  unfold conceptClause
  split
  · exact Agree.pure rfl
  · split
    · exact Agree.pure rfl
    · exact (Agree.onCatalog hT (OnCatalog.numberOf _)).bind fun _ =>
        (Agree.call hT (.concept _ _ _ _)).bind fun _ => Agree.pure rfl

/-! ## Disjunctions -/

/-- The members of two compounds, each with its position: the same ones in the same order. -/
def Alongside (path path' : List Nat) (clauses clauses' : List (List Nat × Json)) : Prop :=
  ∃ members : List (Nat × Json), clauses = members.map (fun m => (path ++ [m.1], m.2)) ∧
    clauses' = members.map fun m => (path' ++ [m.1], m.2)

theorem Alongside.clauses_eq {clauses clauses' : List (List Nat × Json)}
    (h : Alongside path path' clauses clauses') : clauses.map (·.2) = clauses'.map (·.2) := by
  obtain ⟨members, rfl, rfl⟩ := h
  rw [List.map_map, List.map_map]
  rfl

/-- A disjunction depends on what has been noted, and leaves everything as it is. -/
theorem outcome_disjoined (clauses : List (List Nat × Json)) (s : World σ × Progress) :
    (disjoined clauses : Compiling σ (Option Json)).outcome s =
      (.ok ((joined .should (clauses.map (·.2))).map fun query =>
        if (negatedFields s.2 (clauses.map (·.1))).isEmpty then query
        else Clause.compound .must (query ::
          (negatedFields s.2 (clauses.map (·.1))).map Clause.hasField)), s) := by
  unfold disjoined
  cases joined .should (clauses.map (·.2)) with
  | none => rfl
  | some query => rfl

theorem tame_disjoined {isNoted : Bool} (clauses : List (List Nat × Json)) :
    Tame T isNoted path (disjoined clauses : Compiling σ (Option Json)) := by
  unfold disjoined
  split
  · exact Tame.pure _
  · exact Tame.progress.bind fun _ => Tame.pure _

theorem agree_disjoined {isNoted : Bool} {clauses clauses' : List (List Nat × Json)}
    (h : Alongside path path' clauses clauses') : Agree T isNoted path path' Eq
      (disjoined clauses : Compiling σ (Option Json)) (disjoined clauses') := by
  refine ⟨tame_disjoined _, tame_disjoined _, fun s s' hs _ _ => ?_⟩
  have hfields : negatedFields s.2 (clauses.map (·.1)) = negatedFields s'.2 (clauses'.map (·.1)) := by
    obtain ⟨members, rfl, rfl⟩ := h
    unfold negatedFields
    simp only [List.map_map, List.foldl_map, Function.comp_apply, hs.negated]
  rw [outcome_disjoined, outcome_disjoined, h.clauses_eq, hfields]
  exact ⟨rfl, hs⟩

/-! ## The traversal -/

/-- Concepts are expanded alike at any two places of a tree. -/
def ExpandsAlong (T : Tie σ) (d : Deployment σ) (expand : Expansion σ) : Prop :=
  ∀ isMember path path' (c : Entity), Agree T d.settings.query.negatedExists path path' Eq
    (expand isMember path c) (expand isMember path' c)

/-- A property before another one: what lies behind it is compiled in between. -/
theorem agree_chained (hT : T.IsKept d) {x y : String → Compiling σ (Option Json)}
    (h : ∀ field, Agree T d.settings.query.negatedExists path path' Eq (x field) (y field))
    (chain : Option String) (p : Property) (depth : Option Int) (rest : Description) :
    let run (x : String → Compiling σ (Option Json)) : Compiling σ (Option Json) := do
      let site ← .act (d.propertySite p depth)
      let clause ← x (Field.inGroup site.1 Field.numbers)
      let clause ← d.chainClause p (Field.inGroup site.1 Field.numbers) rest clause
      d.linked chain p (.someProperty p rest depth) clause
    Agree T d.settings.query.negatedExists path path' Eq (run x) (run y) :=
  (Agree.onCatalog hT (d.onCatalog_propertySite _ _)).bind fun _ => (h _).bind fun _ =>
    (agree_chainClause hT _ _ _ _).bind fun _ => agree_linked hT _ _ _ _

/-- A member that comes first is compiled at its place, and the other ones after it. -/
theorem agree_members_cons {expand : Expansion σ} {i : Nat} {m m' : Description} {ms ms' : List Description}
    (hfirst : Agree T d.settings.query.negatedExists (path ++ [i]) (path' ++ [i]) Eq
      (d.compileNode expand true (path ++ [i]) m) (d.compileNode expand true (path' ++ [i]) m'))
    (hrest : Agree T d.settings.query.negatedExists path path' (Alongside path path')
      (d.compileMembers expand path (i + 1) ms) (d.compileMembers expand path' (i + 1) ms')) :
    Agree T d.settings.query.negatedExists path path' (Alongside path path')
      (d.compileMembers expand path i (m :: ms)) (d.compileMembers expand path' i (m' :: ms')) := by
  rw [compileMembers, compileMembers]
  refine hfirst.below.bind fun clause => hrest.bind_of (fun _ => Tame.pure _) (fun _ => Tame.pure _) ?_
  rintro _ _ ⟨members, rfl, rfl⟩
  cases clause with
  | none => exact Agree.pure ⟨members, rfl, rfl⟩
  | some clause => exact Agree.pure ⟨(i, clause) :: members, rfl, rfl⟩

mutual

/-- By induction on the description: every step of its compilation agrees with its counterpart. -/
theorem agree_node (hT : T.IsKept d) {expand : Expansion σ} (h : ExpandsAlong T d expand)
    (isMember : Bool) (path path' : List Nat) :
    (node : Description) → Agree T d.settings.query.negatedExists path path' Eq
      (d.compileNode expand isMember path node) (d.compileNode expand isMember path' node)
  | .conjunction ds => by
      refine (agree_visit _).bind fun _ => (agree_members hT h path path' 0 ds).bind_of
        (fun _ => Tame.pure _) (fun _ => Tame.pure _) fun clauses clauses' hclauses => ?_
      exact Agree.pure (by rw [hclauses.clauses_eq])
  | .disjunction ds => by
      exact (agree_visit _).bind fun _ => (agree_members hT h path path' 0 ds).bind_of
        (fun _ => tame_disjoined _) (fun _ => tame_disjoined _) fun _ _ => agree_disjoined
  | .category categories depth negated => by
      exact (agree_visit _).bind fun _ =>
        (Agree.onCatalog hT (d.onCatalog_categoryClause _ _ _ _)).bind fun _ => Agree.pure rfl
  | .concept c => by
      exact (agree_visit _).bind fun _ => h isMember path path' c
  | .space n => by
      exact (agree_visit _).bind fun _ => Agree.pure rfl
  | .someProperty p inner depth => by
      exact (agree_visit _).bind fun _ => agree_property hT h path path' none p depth inner
  | .value item comparator property => by
      exact (agree_visit _).bind fun _ => (agree_entityClause hT _ _ _ _).bind fun _ =>
        Agree.pure rfl
  | .thing negated => by
      exact (agree_visit _).bind fun _ => Agree.pure rfl

theorem agree_members (hT : T.IsKept d) {expand : Expansion σ} (h : ExpandsAlong T d expand)
    (path path' : List Nat) :
    (i : Nat) → (ds : List Description) →
    Agree T d.settings.query.negatedExists path path' (Alongside path path')
      (d.compileMembers expand path i ds) (d.compileMembers expand path' i ds)
  | _, [] => Agree.pure ⟨[], rfl, rfl⟩
  | i, m :: ms => agree_members_cons (agree_node hT h true (path ++ [i]) (path' ++ [i]) m)
      (agree_members hT h path path' (i + 1) ms)

theorem agree_property (hT : T.IsKept d) {expand : Expansion σ} (h : ExpandsAlong T d expand)
    (path path' : List Nat) (chain : Option String) (p : Property) (depth : Option Int) :
    (inner : Description) → Agree T d.settings.query.negatedExists path path' Eq
      (d.compileProperty expand path chain p depth inner)
      (d.compileProperty expand path' chain p depth inner)
  | .someProperty q (.disjunction ds) qdepth => by
      refine (Agree.onCatalog hT (d.onCatalog_propertySite _ _)).bind fun _ => ?_
      exact (agree_alternatives hT h _ _ _ q qdepth 0 ds).below.bind fun _ =>
        (agree_chainClause hT _ _ _ _).bind fun _ => agree_linked hT _ _ _ _
  | .someProperty q (.conjunction ds) qdepth =>
      agree_chained hT (fun field => (agree_property hT h _ _ (some field) q qdepth
        (.conjunction ds)).below) chain p depth _
  | .someProperty q (.category cs cdepth negated) qdepth =>
      agree_chained hT (fun field => (agree_property hT h _ _ (some field) q qdepth
        (.category cs cdepth negated)).below) chain p depth _
  | .someProperty q (.concept c) qdepth =>
      agree_chained hT (fun field => (agree_property hT h _ _ (some field) q qdepth
        (.concept c)).below) chain p depth _
  | .someProperty q (.space n) qdepth =>
      agree_chained hT (fun field => (agree_property hT h _ _ (some field) q qdepth
        (.space n)).below) chain p depth _
  | .someProperty q (.someProperty q' inner' depth') qdepth =>
      agree_chained hT (fun field => (agree_property hT h _ _ (some field) q qdepth
        (.someProperty q' inner' depth')).below) chain p depth _
  | .someProperty q (.value item comparator property) qdepth =>
      agree_chained hT (fun field => (agree_property hT h _ _ (some field) q qdepth
        (.value item comparator property)).below) chain p depth _
  | .someProperty q (.thing negated) qdepth =>
      agree_chained hT (fun field => (agree_property hT h _ _ (some field) q qdepth
        (.thing negated)).below) chain p depth _
  | .value item comparator property => by
      exact (Agree.onCatalog hT (d.onCatalog_propertySite _ _)).bind fun _ =>
        (agree_valueClause hT _ _ _ _ _).bind fun _ => agree_linked hT _ _ _ _
  | .thing negated => by
      exact (Agree.onCatalog hT (d.onCatalog_propertySite _ _)).bind fun _ =>
        agree_linked hT _ _ _ _
  | .disjunction ds => by
      exact (Agree.onCatalog hT (d.onCatalog_propertySite _ _)).bind fun _ =>
        (agree_alternatives hT h _ _ none p depth 0 ds).below.bind fun _ => agree_linked hT _ _ _ _
  | .conjunction ds => by
      refine (Agree.onCatalog hT (d.onCatalog_propertySite _ _)).bind fun site =>
        (Agree.ofExcept _).bind fun text => ?_
      refine (agree_members hT h _ _ 0 ds).below.bind_of (fun clauses => ?_) (fun clauses => ?_) ?_
      · exact ((@agree_objectClause _ _ _ path path hT _ _ _ _).bind fun _ =>
          agree_linked hT _ _ _ _).left
      · exact ((@agree_objectClause _ _ _ path' path' hT _ _ _ _).bind fun _ =>
          agree_linked hT _ _ _ _).left
      · intro clauses clauses' hclauses
        rw [hclauses.clauses_eq]
        exact (agree_objectClause hT _ _ _ _).bind fun _ => agree_linked hT _ _ _ _
  | .category categories categoryDepth negated => by
      exact (Agree.onCatalog hT (d.onCatalog_propertySite _ _)).bind fun _ =>
        (Agree.ofExcept _).bind fun _ => (agree_visit _).bind fun _ =>
          (Agree.onCatalog hT (d.onCatalog_categoryClause _ _ _ _)).bind fun _ =>
            (agree_objectClause hT _ _ _ _).bind fun _ => agree_linked hT _ _ _ _
  | .concept c => by
      exact (Agree.onCatalog hT (d.onCatalog_propertySite _ _)).bind fun _ =>
        (Agree.ofExcept _).bind fun _ => (agree_visit _).bind fun _ =>
          (h true (path ++ [0]) (path' ++ [0]) c).below.bind fun _ =>
            (agree_objectClause hT _ _ _ _).bind fun _ => agree_linked hT _ _ _ _
  | .space n => by
      exact (Agree.onCatalog hT (d.onCatalog_propertySite _ _)).bind fun _ =>
        (Agree.ofExcept _).bind fun _ => (agree_visit _).bind fun _ =>
          (agree_objectClause hT _ _ _ _).bind fun _ => agree_linked hT _ _ _ _

theorem agree_alternatives (hT : T.IsKept d) {expand : Expansion σ} (h : ExpandsAlong T d expand)
    (path path' : List Nat) (chain : Option String) (p : Property) (depth : Option Int) :
    (i : Nat) → (ds : List Description) →
    Agree T d.settings.query.negatedExists path path' Eq
      (d.compileAlternatives expand path chain p depth i ds)
      (d.compileAlternatives expand path' chain p depth i ds)
  | _, [] => Agree.pure rfl
  | i, m :: ms => by
      exact (agree_property hT h _ _ chain p depth m).below.bind fun _ =>
        (agree_alternatives hT h path path' chain p depth (i + 1) ms).bind fun _ => Agree.pure rfl

end

/-- The expansions of a concept agree if the compilations of stored descriptions do. -/
theorem agree_concept (hT : T.IsKept d)
    {compile : Bool → List Nat → Description → Compiling σ (Option Json)}
    (h : ∀ isMember path path' inner, Agree T d.settings.query.negatedExists path path' Eq
      (compile isMember path inner) (compile isMember path' inner)) :
    ExpandsAlong T d (d.compileConcept compile) := by
  intro isMember path path' c
  unfold compileConcept
  refine Agree.catalog_bind hT fun catalog => ?_
  split
  · exact Agree.pure rfl
  · exact Agree.pure rfl
  · split
    · exact (Agree.ofExcept _).bind fun _ =>
        (Agree.report _).bind fun _ => Agree.pure rfl
    · refine Agree.progress_bind fun p p' hp => ?_
      rw [hp]
      split
      · exact (Agree.ofExcept _).bind fun _ =>
          (Agree.report _).bind fun _ => Agree.pure rfl
      · exact (h isMember (path ++ [0]) (path' ++ [0]) _).below.expandingOf.bind fun _ =>
          agree_conceptClause hT _ _ _

/-- By induction on how many expansions may lie within each other. -/
theorem agree_expandConcept (hT : T.IsKept d) (n : Nat) : ExpandsAlong T d (d.expandConcept n) := by
  induction n with
  | zero => exact fun _ _ _ _ => Agree.pure rfl
  | succ n ih => exact agree_concept hT fun isMember path path' => agree_node hT ih isMember path path'

end Deployment

end FactIndex
