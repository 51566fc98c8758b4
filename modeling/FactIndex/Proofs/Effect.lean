import FactIndex.Network

/-!
# Reasoning about computations

A computation is known by its outcome: what it answers, and the state after it. The outcome of a
sequence is that of its parts, and a statement on the outcome of a sequence follows from statements on
the parts.

## Main definitions

* `Effect.Meets`: the outcome from a state satisfies a condition on answer and state.
* `Effect.Leaves`: a part of the state is the same afterwards, whatever the answer.
* `Effect.SameUpTo`: two computations do the same as far as a view of the state goes.
-/

namespace FactIndex.Effect

variable {σ τ α β : Type}

/-! ## Outcomes -/

@[simp] theorem outcome_pure (a : α) (s : σ) : (pure a : Effect σ α).outcome s = (.ok a, s) := rfl

@[simp] theorem outcome_throw (e : Failure) (s : σ) :
    (throw e : Effect σ α).outcome s = (.error e, s) := rfl

@[simp] theorem outcome_make (f : σ → Except Failure α × σ) (s : σ) :
    (make f).outcome s = f s := rfl

/-- After a failure nothing else is done. -/
theorem outcome_bind (x : Effect σ α) (f : α → Effect σ β) (s : σ) :
    (x >>= f).outcome s =
      match x.outcome s with
      | (.ok a, t) => (f a).outcome t
      | (.error e, t) => (.error e, t) := by
  simp only [outcome, ExceptT.run_bind, StateT.run_bind]
  rcases StateT.run (ExceptT.run x) s with ⟨_ | _, t⟩ <;> rfl

theorem outcome_bind_of_ok {x : Effect σ α} {s t : σ} {a : α} (h : x.outcome s = (.ok a, t))
    (f : α → Effect σ β) : (x >>= f).outcome s = (f a).outcome t := by
  rw [outcome_bind, h]

theorem outcome_bind_of_error {x : Effect σ α} {s t : σ} {e : Failure}
    (h : x.outcome s = (.error e, t)) (f : α → Effect σ β) :
    (x >>= f).outcome s = (.error e, t) := by
  rw [outcome_bind, h]

/-- Where only the answer is known, a sequence goes on from whatever state there is. -/
theorem outcome_bind_of_answer {x : Effect σ α} {s : σ} {a : α} (h : (x.outcome s).1 = .ok a)
    (f : α → Effect σ β) : (x >>= f).outcome s = (f a).outcome (x.outcome s).2 :=
  outcome_bind_of_ok (Prod.ext h rfl) f

/-- A sequence that succeeds has parts that succeed. -/
theorem exists_of_bind_ok {x : Effect σ α} {f : α → Effect σ β} {s t : σ} {b : β}
    (h : (x >>= f).outcome s = (.ok b, t)) :
    ∃ a u, x.outcome s = (.ok a, u) ∧ (f a).outcome u = (.ok b, t) := by
  rw [outcome_bind] at h
  rcases hx : x.outcome s with ⟨e | a, u⟩
  · rw [hx] at h
    cases h
  · rw [hx] at h
    exact ⟨a, u, rfl, h⟩

/-- A failure stops a sequence. -/
theorem fst_bind_of_error {x : Effect σ α} {s : σ} {e : Failure} (h : (x.outcome s).1 = .error e)
    (f : α → Effect σ β) : ((x >>= f).outcome s).1 = .error e := by
  rw [outcome_bind_of_error (Prod.ext h rfl)]

theorem outcome_map (f : α → β) (x : Effect σ α) (s : σ) :
    (f <$> x).outcome s = ((x.outcome s).1.map f, (x.outcome s).2) := by
  rw [map_eq_pure_bind, outcome_bind]
  rcases x.outcome s with ⟨_ | _, t⟩ <;> rfl

/-- A result that has been turned into another was there. -/
theorem exists_of_map_ok {x : Except Failure α} {f : α → β} {b : β} (h : x.map f = .ok b) :
    ∃ a, x = .ok a ∧ f a = b := by
  cases x with
  | error e => cases h
  | ok a => exact ⟨a, rfl, Except.ok.inj h⟩

@[simp] theorem outcome_ofExcept (r : Except Failure α) (s : σ) :
    (ofExcept r).outcome s = (r, s) := by
  cases r <;> rfl

@[simp] theorem outcome_onPart (part : σ → τ) (setPart : τ → σ → σ) (x : Effect τ α) (s : σ) :
    (onPart part setPart x).outcome s =
      ((x.outcome (part s)).1, setPart (x.outcome (part s)).2 s) := rfl

@[simp] theorem outcome_attempt (x : Effect σ α) (s : σ) :
    (attempt x).outcome s = (.ok (x.outcome s).1, (x.outcome s).2) := rfl

/-- Computations with the same outcomes are the same. -/
theorem ext {x y : Effect σ α} (h : ∀ s, x.outcome s = y.outcome s) : x = y := funext h

/-- A list is answered with one answer for each of its items. -/
theorem length_of_mapM {f : α → Effect σ β} {as : List α} {s t : σ} {bs : List β}
    (h : (as.mapM f).outcome s = (.ok bs, t)) : bs.length = as.length := by
  induction as generalizing s bs with
  | nil =>
      cases h
      rfl
  | cons a as ih =>
      rw [List.mapM_cons] at h
      obtain ⟨b, u, -, h⟩ := exists_of_bind_ok h
      obtain ⟨rest, v, hrest, h⟩ := exists_of_bind_ok h
      cases h
      exact congrArg (· + 1) (ih hrest)

/-! ## Conditions on outcomes -/

/-- The outcome from a state satisfies a condition. -/
def Meets (x : Effect σ α) (s : σ) (post : Except Failure α → σ → Prop) : Prop :=
  post (x.outcome s).1 (x.outcome s).2

theorem Meets.of_outcome {x : Effect σ α} {s t : σ} {r : Except Failure α}
    {post : Except Failure α → σ → Prop} (h : x.Meets s post) (hx : x.outcome s = (r, t)) :
    post r t := by
  unfold Meets at h
  rwa [hx] at h

theorem Meets.mono {x : Effect σ α} {s : σ} {post post' : Except Failure α → σ → Prop}
    (h : x.Meets s post) (imp : ∀ r t, post r t → post' r t) : x.Meets s post' :=
  imp _ _ h

theorem Meets.pure {a : α} {s : σ} {post : Except Failure α → σ → Prop} (h : post (.ok a) s) :
    (Pure.pure a : Effect σ α).Meets s post := h

theorem Meets.ofExcept {r : Except Failure α} {s : σ} {post : Except Failure α → σ → Prop}
    (h : post r s) : (ofExcept r).Meets s post := by
  unfold Meets
  rwa [outcome_ofExcept]

/-- What holds of a sequence follows from what holds of its first part. -/
theorem Meets.bind {x : Effect σ α} {f : α → Effect σ β} {s : σ}
    {mid : Except Failure α → σ → Prop} {post : Except Failure β → σ → Prop}
    (h : x.Meets s mid) (next : ∀ a t, mid (.ok a) t → (f a).Meets t post)
    (stop : ∀ e t, mid (.error e) t → post (.error e) t) : (x >>= f).Meets s post := by
  unfold Meets
  rw [outcome_bind]
  rcases hx : x.outcome s with ⟨e | a, t⟩
  · exact stop e t (h.of_outcome hx)
  · exact next a t (h.of_outcome hx)

theorem Meets.bind_of_ok {x : Effect σ α} {f : α → Effect σ β} {s t : σ} {a : α}
    {post : Except Failure β → σ → Prop} (hx : x.outcome s = (.ok a, t))
    (h : (f a).Meets t post) : (x >>= f).Meets s post := by
  unfold Meets
  rwa [outcome_bind_of_ok hx]

theorem Meets.bind_of_answer {x : Effect σ α} {f : α → Effect σ β} {s : σ} {a : α}
    {post : Except Failure β → σ → Prop} (hx : (x.outcome s).1 = .ok a)
    (h : (f a).Meets (x.outcome s).2 post) : (x >>= f).Meets s post :=
  Meets.bind_of_ok (Prod.ext hx rfl) h

theorem Meets.bind_of_error {x : Effect σ α} {f : α → Effect σ β} {s t : σ} {e : Failure}
    {post : Except Failure β → σ → Prop} (hx : x.outcome s = (.error e, t))
    (h : post (.error e) t) : (x >>= f).Meets s post := by
  unfold Meets
  rwa [outcome_bind_of_error hx]

/-- A first part that is a result already. -/
theorem Meets.ofExcept_bind {r : Except Failure α} {f : α → Effect σ β} {s : σ}
    {post : Except Failure β → σ → Prop} (next : ∀ a, r = .ok a → (f a).Meets s post)
    (stop : ∀ e, r = .error e → post (.error e) s) : (Effect.ofExcept r >>= f).Meets s post := by
  unfold Meets
  rw [outcome_bind, outcome_ofExcept]
  cases r with
  | ok a => exact next a rfl
  | error e => exact stop e rfl

/-- What every round of a loop keeps holds after the loop. -/
theorem Meets.forIn {P : σ → Prop} {f : α → PUnit → Effect σ (ForInStep PUnit)}
    (h : ∀ a s, P s → (f a ⟨⟩).Meets s fun r t => r = .ok (.yield ⟨⟩) ∧ P t) (as : List α) {s : σ}
    (hs : P s) : (ForIn.forIn as PUnit.unit f).Meets s fun r t => r = .ok ⟨⟩ ∧ P t := by
  induction as generalizing s with
  | nil => exact ⟨rfl, hs⟩
  | cons a rest ih =>
      rw [List.forIn_cons]
      refine (h a s hs).bind ?_ ?_
      · rintro _ t ⟨⟨⟩, ht⟩
        exact ih ht
      · rintro e t ⟨⟨⟩, _⟩

/-- A part of the state is the same after a computation, whatever it answers. -/
def Leaves (view : σ → β) (x : Effect σ α) : Prop := ∀ s, view (x.outcome s).2 = view s

namespace Leaves

variable {γ : Type} {view : σ → γ}

theorem pure (a : α) : Leaves view (Pure.pure a : Effect σ α) := fun _ => rfl

theorem throw (e : Failure) : Leaves view (MonadExcept.throw e : Effect σ α) := fun _ => rfl

theorem ofExcept (r : Except Failure α) : Leaves view (Effect.ofExcept r) := by
  intro s
  rw [outcome_ofExcept]

theorem bind {x : Effect σ α} {f : α → Effect σ β} (hx : Leaves view x)
    (hf : ∀ a, Leaves view (f a)) : Leaves view (x >>= f) := by
  intro s
  have h := hx s
  rw [outcome_bind]
  rcases hr : x.outcome s with ⟨e | a, t⟩
  · rw [hr] at h
    exact h
  · rw [hr] at h
    exact (hf a t).trans h

/-- A first part that is a result already. -/
theorem ofExcept_bind {r : Except Failure α} {f : α → Effect σ β}
    (hf : ∀ a, r = .ok a → Leaves view (f a)) : Leaves view (Effect.ofExcept r >>= f) := by
  cases r with
  | ok a => exact hf a rfl
  | error e => exact fun _ => rfl

theorem map {x : Effect σ α} (f : α → β) (hx : Leaves view x) : Leaves view (f <$> x) := by
  intro s
  rw [outcome_map]
  exact hx s

theorem attempt {x : Effect σ α} (hx : Leaves view x) : Leaves view (Effect.attempt x) := hx

theorem forIn {f : α → PUnit → Effect σ (ForInStep PUnit)} (h : ∀ a, Leaves view (f a ⟨⟩))
    (as : List α) : Leaves view (ForIn.forIn as PUnit.unit f) := by
  induction as with
  | nil => exact Leaves.pure _
  | cons a rest ih =>
      rw [List.forIn_cons]
      refine (h a).bind fun step => ?_
      cases step with
      | done _ => exact Leaves.pure _
      | yield _ => exact ih

theorem filterMapM {f : α → Effect σ (Option β)} (h : ∀ a, Leaves view (f a)) (as : List α) :
    Leaves view (as.filterMapM f) := by
  induction as with
  | nil => exact Leaves.pure _
  | cons a rest ih =>
      rw [List.filterMapM_cons]
      refine (h a).bind fun b => ?_
      cases b with
      | none => exact ih
      | some b => exact ih.bind fun _ => Leaves.pure _

end Leaves

/-- Two computations answer the same where a view of the state is the same, and the view is the same
afterwards. -/
def SameUpTo (view : σ → β) (x y : Effect σ α) : Prop :=
  ∀ s t, view s = view t →
    (x.outcome s).1 = (y.outcome t).1 ∧ view (x.outcome s).2 = view (y.outcome t).2

namespace SameUpTo

variable {γ : Type} {view : σ → γ}

theorem pure (a : α) : SameUpTo view (Pure.pure a : Effect σ α) (Pure.pure a) :=
  fun _ _ h => ⟨rfl, h⟩

theorem throw (e : Failure) :
    SameUpTo view (MonadExcept.throw e : Effect σ α) (MonadExcept.throw e) :=
  fun _ _ h => ⟨rfl, h⟩

theorem ofExcept (r : Except Failure α) : SameUpTo view (Effect.ofExcept r) (Effect.ofExcept r) := by
  intro s t h
  rw [outcome_ofExcept, outcome_ofExcept]
  exact ⟨rfl, h⟩

theorem bind {x y : Effect σ α} {f g : α → Effect σ β} (hx : SameUpTo view x y)
    (hf : ∀ a, SameUpTo view (f a) (g a)) : SameUpTo view (x >>= f) (y >>= g) := by
  intro s t h
  have hsame := hx s t h
  rw [outcome_bind, outcome_bind]
  rcases hr : x.outcome s with ⟨e | a, s'⟩ <;> rcases hr' : y.outcome t with ⟨e' | b, t'⟩ <;>
    rw [hr, hr'] at hsame <;> obtain ⟨hanswer, hview⟩ := hsame <;> cases hanswer
  · exact ⟨rfl, hview⟩
  · exact hf a s' t' hview

theorem map {x y : Effect σ α} (f : α → β) (hx : SameUpTo view x y) :
    SameUpTo view (f <$> x) (f <$> y) := by
  rw [map_eq_pure_bind, map_eq_pure_bind]
  exact hx.bind fun _ => SameUpTo.pure _

theorem attempt {x y : Effect σ α} (hx : SameUpTo view x y) :
    SameUpTo view (Effect.attempt x) (Effect.attempt y) := by
  intro s t h
  obtain ⟨hanswer, hview⟩ := hx s t h
  rw [outcome_attempt, outcome_attempt, hanswer]
  exact ⟨rfl, hview⟩

theorem forIn {f g : α → PUnit → Effect σ (ForInStep PUnit)} (h : ∀ a, SameUpTo view (f a ⟨⟩) (g a ⟨⟩))
    (as : List α) : SameUpTo view (ForIn.forIn as PUnit.unit f) (ForIn.forIn as PUnit.unit g) := by
  induction as with
  | nil => exact SameUpTo.pure _
  | cons a rest ih =>
      rw [List.forIn_cons, List.forIn_cons]
      refine (h a).bind fun step => ?_
      cases step with
      | done _ => exact SameUpTo.pure _
      | yield _ => exact ih

theorem filterMapM {f g : α → Effect σ (Option β)} (h : ∀ a, SameUpTo view (f a) (g a)) (as : List α) :
    SameUpTo view (as.filterMapM f) (as.filterMapM g) := by
  induction as with
  | nil => exact SameUpTo.pure _
  | cons a rest ih =>
      rw [List.filterMapM_cons, List.filterMapM_cons]
      refine (h a).bind fun b => ?_
      cases b with
      | none => exact ih
      | some b => exact ih.bind fun _ => SameUpTo.pure _

/-- A computation on a part of the state, whose own view is a part of the whole view. -/
theorem onPart {δ : Type} {part : σ → τ} {setPart : τ → σ → σ} {partView : τ → δ}
    {x y : Effect τ α} (hx : SameUpTo partView x y)
    (hpart : ∀ s t, view s = view t → partView (part s) = partView (part t))
    (hset : ∀ s t a b, view s = view t → partView a = partView b →
      view (setPart a s) = view (setPart b t)) :
    SameUpTo view (Effect.onPart part setPart x) (Effect.onPart part setPart y) := by
  intro s t h
  obtain ⟨hanswer, hview⟩ := hx _ _ (hpart s t h)
  rw [outcome_onPart, outcome_onPart, hanswer]
  exact ⟨rfl, hset s t _ _ h hview⟩

end SameUpTo

end FactIndex.Effect
