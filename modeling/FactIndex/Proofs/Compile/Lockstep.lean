import FactIndex.Proofs.Compile.Progress
import FactIndex.Proofs.Lookup.History
import FactIndex.Proofs.Store.Catalog

/-!
# Two compilations in lockstep

The same description may be compiled at different places of a tree and in different worlds. If lookups
come to the same in both worlds, then so do the compilations, step by step.

What a compilation notes at its own place of the tree is compared with what the other one notes at its
place. Elsewhere nothing is noted, so that compilations can be composed.

## Main definitions

* `Compiling.Tie`: what two worlds have in common, and what is asked of each of the runs.
* `Compiling.Tame`: a compilation that notes nothing outside its place.
* `Compiling.Agree`: two compilations that keep a tie and come to related answers.
-/

namespace FactIndex

open FactIndex.Effect

variable {σ α β : Type}

/-- Two results are both answers that are related, or both failures. -/
def Effect.Coincide (Q : α → β → Prop) : Except Failure α → Except Failure β → Prop
  | .ok a, .ok b => Q a b
  | .error _, .error _ => True
  | .ok _, .error _ | .error _, .ok _ => False

namespace Compiling

/-- The world of a run, with the records of its lookups so far. -/
def stage (s : World σ × Progress) : World σ × List Members := (s.1, s.2.records)

/-- The fields of the negated conditions outside a place of the tree. Where they are not noted at all,
there is no difference between inside and outside. -/
def outside (isNoted : Bool) (path : List Nat) (s : World σ × Progress) (position : List Nat) :
    Option String :=
  if isNoted = true ∧ path <+: position then none else s.2.negated.get? position

/-- What is compared of two runs. -/
structure Tie (σ : Type) where
  /-- What the worlds and the records of the two runs have in common. -/
  base : World σ × List Members → World σ × List Members → Prop
  /-- What is asked of a run. If it holds at the end, then it held all the time. -/
  fine : World σ × List Members → Prop

/-- The states of two runs at corresponding places. -/
structure Tie.Holds (T : Tie σ) (path path' : List Nat) (s s' : World σ × Progress) : Prop where
  base : T.base (stage s) (stage s')
  expanding : s.2.expanding = s'.2.expanding
  negated : ∀ rest, s.2.negated.get? (path ++ rest) = s'.2.negated.get? (path' ++ rest)

/-! ## One run -/

/-- A compilation at a place of the tree notes nothing elsewhere, and what is asked of a run at its end
was true before. -/
structure Tame (T : Tie σ) (isNoted : Bool) (path : List Nat) (x : Compiling σ α) : Prop where
  fine : ∀ s, T.fine (stage (x.outcome s).2) → T.fine (stage s)
  expanding : Leaves (fun s => s.2.expanding) x
  outside : Leaves (outside isNoted path) x

variable {T : Tie σ} {isNoted : Bool} {path path' : List Nat} {x y : Compiling σ α}
  {f g : α → Compiling σ β}

namespace Tame

theorem pure (a : α) : Tame T isNoted path (Pure.pure a : Compiling σ α) :=
  ⟨fun _ => id, Leaves.pure a, Leaves.pure a⟩

theorem ofExcept (r : Except Failure α) : Tame T isNoted path (Effect.ofExcept r) := by
  refine ⟨fun s h => ?_, Leaves.ofExcept r, Leaves.ofExcept r⟩
  rwa [outcome_ofExcept] at h

theorem bind (hx : Tame T isNoted path x) (hf : ∀ a, Tame T isNoted path (f a)) :
    Tame T isNoted path (x >>= f) := by
  refine ⟨fun s h => hx.fine s ?_, hx.expanding.bind fun a => (hf a).expanding,
    hx.outside.bind fun a => (hf a).outside⟩
  rw [outcome_bind] at h
  rcases hr : x.outcome s with ⟨e | a, t⟩
  · rwa [hr] at h
  · rw [hr] at h
    exact (hf a).fine t h

theorem negated (hx : Tame T isNoted path x) (s : World σ × Progress) (position : List Nat)
    (h : ¬ (isNoted = true ∧ path <+: position)) :
    (x.outcome s).2.2.negated.get? position = s.2.negated.get? position := by
  have hsame := congrFun (hx.outside s) position
  unfold Compiling.outside at hsame
  rwa [if_neg h, if_neg h] at hsame

/-- Outside a place is outside every place below it. -/
theorem mono {i : Nat} (hx : Tame T isNoted (path ++ [i]) x) : Tame T isNoted path x := by
  refine ⟨hx.fine, hx.expanding, fun s => funext fun position => ?_⟩
  unfold Compiling.outside
  split
  · rfl
  · rename_i hin
    exact hx.negated s position fun h => hin ⟨h.1, (List.prefix_append _ _).trans h.2⟩

theorem note {g : Progress → Progress} (hrecords : ∀ p, (g p).records = p.records)
    (hexpanding : ∀ p, (g p).expanding = p.expanding)
    (hnegated : ∀ p position, isNoted = true ∧ path <+: position ∨
      (g p).negated.get? position = p.negated.get? position) :
    Tame T isNoted path (Compiling.note g : Compiling σ Unit) := by
  refine ⟨fun s h => ?_, fun s => hexpanding s.2, fun s => funext fun position => ?_⟩
  · have hstage : stage ((Compiling.note g : Compiling σ Unit).outcome s).2 = stage s :=
      Prod.ext rfl (hrecords s.2)
    rwa [hstage] at h
  · unfold Compiling.outside
    split
    · rfl
    · rename_i hout
      exact (hnegated s.2 position).resolve_left hout

theorem progress : Tame T isNoted path (Compiling.progress : Compiling σ Progress) :=
  ⟨fun _ => id, fun _ => rfl, fun _ => rfl⟩

/-- A concept is put on the stack while it is being expanded, and taken off again. -/
theorem expandingOf {hash : String} (hx : Tame T isNoted path x) :
    Tame T isNoted path (Compiling.expandingOf hash x) := by
  refine ⟨fun s h => ?_, fun s => ?_, fun s => ?_⟩
  · rw [outcome_expandingOf] at h
    exact hx.fine (s.1, { s.2 with expanding := s.2.expanding ++ [hash] }) h
  · have hsame := hx.expanding (s.1, { s.2 with expanding := s.2.expanding ++ [hash] })
    rw [outcome_expandingOf]
    dsimp only at hsame ⊢
    rw [hsame, List.dropLast_concat]
  · rw [outcome_expandingOf]
    exact hx.outside (s.1, { s.2 with expanding := s.2.expanding ++ [hash] })

end Tame

/-! ## Two runs -/

/-- Two compilations at corresponding places keep a tie. They both fail, or their answers are related. -/
structure Agree (T : Tie σ) (isNoted : Bool) (path path' : List Nat) (Q : α → α → Prop)
    (x y : Compiling σ α) : Prop where
  left : Tame T isNoted path x
  right : Tame T isNoted path' y
  coincide : ∀ s s', T.Holds path path' s s' → T.fine (stage (x.outcome s).2) →
    T.fine (stage (y.outcome s').2) → Coincide
      (fun a b => Q a b ∧ T.Holds path path' (x.outcome s).2 (y.outcome s').2)
        (x.outcome s).1 (y.outcome s').1

namespace Agree

variable {P Q : α → α → Prop} {R : β → β → Prop}

theorem pure {a b : α} (h : Q a b) :
    Agree T isNoted path path' Q (Pure.pure a : Compiling σ α) (Pure.pure b) :=
  ⟨Tame.pure a, Tame.pure b, fun _ _ hs _ _ => ⟨h, hs⟩⟩

theorem mono (h : Agree T isNoted path path' P x y) (hPQ : ∀ a b, P a b → Q a b) :
    Agree T isNoted path path' Q x y := by
  refine ⟨h.left, h.right, fun s s' hs hfine hfine' => ?_⟩
  have hsame := h.coincide s s' hs hfine hfine'
  cases hx : (x.outcome s).1 <;> cases hy : (y.outcome s').1 <;> rw [hx, hy] at hsame
  · trivial
  · exact hsame
  · exact hsame
  · exact ⟨hPQ _ _ hsame.1, hsame.2⟩

/-- A result that may be a failure, and what is known of it if it is none. -/
theorem ofExcept_of (r : Except Failure α) : Agree T isNoted path path'
    (fun a b => a = b ∧ r = .ok a) (Effect.ofExcept r : Compiling σ α) (Effect.ofExcept r) := by
  refine ⟨Tame.ofExcept r, Tame.ofExcept r, fun s s' hs _ _ => ?_⟩
  rw [outcome_ofExcept, outcome_ofExcept]
  cases r with
  | ok a => exact ⟨⟨rfl, rfl⟩, hs⟩
  | error e => trivial

theorem ofExcept (r : Except Failure α) :
    Agree T isNoted path path' Eq (Effect.ofExcept r : Compiling σ α) (Effect.ofExcept r) :=
  (ofExcept_of r).mono fun _ _ h => h.1

/-- The second parts agree wherever the first ones answer alike. -/
theorem bind_of (hx : Agree T isNoted path path' P x y) (hf : ∀ a, Tame T isNoted path (f a))
    (hg : ∀ a, Tame T isNoted path' (g a))
    (h : ∀ a b, P a b → Agree T isNoted path path' R (f a) (g b)) :
    Agree T isNoted path path' R (x >>= f) (y >>= g) := by
  refine ⟨hx.left.bind hf, hx.right.bind hg, fun s s' hs hfine hfine' => ?_⟩
  rw [outcome_bind] at hfine hfine'
  rw [outcome_bind, outcome_bind]
  have hsame := hx.coincide s s' hs
  rcases hr : x.outcome s with ⟨e | a, t⟩ <;> rcases hr' : y.outcome s' with ⟨e' | b, t'⟩ <;>
    rw [hr] at hfine hsame <;> rw [hr'] at hfine' hsame
  · trivial
  · exact False.elim (hsame hfine ((hg b).fine t' hfine'))
  · exact False.elim (hsame ((hf a).fine t hfine) hfine')
  · obtain ⟨hab, ht⟩ := hsame ((hf a).fine t hfine) ((hg b).fine t' hfine')
    exact (h a b hab).coincide t t' ht hfine hfine'

theorem bind (hx : Agree T isNoted path path' Eq x y)
    (h : ∀ a, Agree T isNoted path path' R (f a) (g a)) :
    Agree T isNoted path path' R (x >>= f) (y >>= g) := by
  refine hx.bind_of (fun a => (h a).left) (fun a => (h a).right) ?_
  rintro a _ rfl
  exact h a

/-- What is done at places below does not concern other places. -/
theorem below {i : Nat} (h : Agree T isNoted (path ++ [i]) (path' ++ [i]) Q x y) :
    Agree T isNoted path path' Q x y := by
  refine ⟨h.left.mono, h.right.mono, fun s s' hs hfine hfine' => ?_⟩
  have hbelow : T.Holds (path ++ [i]) (path' ++ [i]) s s' :=
    ⟨hs.base, hs.expanding, fun rest => by simpa using hs.negated (i :: rest)⟩
  have hlift : T.Holds (path ++ [i]) (path' ++ [i]) (x.outcome s).2 (y.outcome s').2 →
      T.Holds path path' (x.outcome s).2 (y.outcome s').2 := by
    intro ht
    refine ⟨ht.base, ht.expanding, fun rest => ?_⟩
    by_cases hrest : [i] <+: rest
    · obtain ⟨rest, rfl⟩ := hrest
      simpa using ht.negated rest
    · have hout : ∀ path : List Nat, ¬ (isNoted = true ∧ path ++ [i] <+: path ++ rest) :=
        fun path hin => hrest ((List.prefix_append_right_inj path).mp hin.2)
      rw [h.left.negated s _ (hout path), h.right.negated s' _ (hout path'), hs.negated]
  have hsame := h.coincide s s' hbelow hfine hfine'
  cases hx : (x.outcome s).1 <;> cases hy : (y.outcome s').1 <;> rw [hx, hy] at hsame
  · trivial
  · exact hsame
  · exact hsame
  · exact ⟨hsame.1, hlift hsame.2⟩

/-- What is noted apart from lookups, in the same way on both sides. -/
theorem note {g : Progress → Progress} (hrecords : ∀ p, (g p).records = p.records)
    (hexpanding : ∀ p, (g p).expanding = p.expanding) (hnegated : ∀ p, (g p).negated = p.negated) :
    Agree T isNoted path path' Eq (Compiling.note g : Compiling σ Unit) (Compiling.note g) := by
  have htame : ∀ path, Tame T isNoted path (Compiling.note g : Compiling σ Unit) := fun path =>
    Tame.note hrecords hexpanding fun p _ => .inr (by rw [hnegated])
  refine ⟨htame path, htame path', fun s s' hs _ _ => ⟨rfl, ?_, ?_, fun rest => ?_⟩⟩
  · have hstage : ∀ s : World σ × Progress, stage (s.1, g s.2) = stage s := fun s =>
      Prod.ext rfl (hrecords s.2)
    simpa only [outcome_note, hstage] using hs.base
  · exact (hexpanding _).trans (hs.expanding.trans (hexpanding _).symm)
  · rw [outcome_note, outcome_note, hnegated, hnegated]
    exact hs.negated rest

theorem expandingOf {hash : String} (h : Agree T isNoted path path' Q x y) :
    Agree T isNoted path path' Q (Compiling.expandingOf hash x) (Compiling.expandingOf hash y) := by
  refine ⟨h.left.expandingOf, h.right.expandingOf, fun s s' hs hfine hfine' => ?_⟩
  have hpushed : T.Holds path path' (s.1, { s.2 with expanding := s.2.expanding ++ [hash] })
      (s'.1, { s'.2 with expanding := s'.2.expanding ++ [hash] }) :=
    ⟨hs.base, by rw [hs.expanding], hs.negated⟩
  rw [outcome_expandingOf] at hfine hfine' ⊢
  rw [outcome_expandingOf]
  have hsame := h.coincide _ _ hpushed hfine hfine'
  dsimp only
  generalize x.outcome (s.1, { s.2 with expanding := s.2.expanding ++ [hash] }) = after at hsame ⊢
  generalize y.outcome (s'.1, { s'.2 with expanding := s'.2.expanding ++ [hash] }) = after' at hsame ⊢
  rcases after with ⟨_ | _, t⟩ <;> rcases after' with ⟨_ | _, t'⟩
  · trivial
  · exact hsame
  · exact hsame
  · exact ⟨hsame.1, hsame.2.base, congrArg List.dropLast hsame.2.expanding, hsame.2.negated⟩

end Agree

end Compiling
end FactIndex
