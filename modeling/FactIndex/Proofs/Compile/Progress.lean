import FactIndex.Compile.Progress
import FactIndex.Proofs.Effect

/-!
# Steps of a compilation

What the steps that a compilation is made of do to the world and to the progress.

## Main definitions

* `Compiling.outcome_act`, `Compiling.outcome_lookUp`: steps that concern the world.
* `Compiling.outcome_expandingOf`: what is done while a concept is being expanded.
* `Compiling.outcome_start`: a compilation from the beginning.
-/

namespace FactIndex.Compiling

open FactIndex.Effect

variable {σ α : Type}

theorem outcome_act (x : Action σ α) (s : World σ × Progress) :
    (act x).outcome s = ((x.outcome s.1).1, ((x.outcome s.1).2, s.2)) := rfl

/-- An action in several steps is several steps of the compilation. -/
theorem act_bind {β : Type} (x : Action σ α) (f : α → Action σ β) :
    act (x >>= f) = act x >>= fun a => act (f a) := by
  refine Effect.ext fun s => ?_
  rw [outcome_bind, outcome_act, outcome_act, outcome_bind]
  rcases x.outcome s.1 with ⟨_ | _, _⟩ <;> rfl

theorem outcome_note (g : Progress → Progress) (s : World σ × Progress) :
    (note g : Compiling σ Unit).outcome s = (.ok (), (s.1, g s.2)) := rfl

theorem outcome_progress (s : World σ × Progress) :
    (progress : Compiling σ Progress).outcome s = (.ok s.2, s) := rfl

/-- A lookup that fails is not recorded. -/
theorem outcome_lookUp_of_ok {x : Action σ Resolved} {s : World σ × Progress} {r : Resolved}
    {w : World σ} (h : x.outcome s.1 = (.ok r, w)) : (lookUp x).outcome s =
      (.ok r.clause, (w, { s.2 with records := s.2.records ++ [r.record] })) := by
  have hact : (act x).outcome s = (.ok r, (w, s.2)) := by rw [outcome_act, h]
  unfold lookUp
  rw [outcome_bind_of_ok hact]
  rfl

theorem outcome_lookUp_of_error {x : Action σ Resolved} {s : World σ × Progress} {e : Failure}
    {w : World σ} (h : x.outcome s.1 = (.error e, w)) :
    (lookUp x).outcome s = (.error e, (w, s.2)) := by
  have hact : (act x).outcome s = (.error e, (w, s.2)) := by rw [outcome_act, h]
  unfold lookUp
  rw [outcome_bind_of_error hact]

/-- The concept is put on the stack, and taken off again in any case. -/
theorem outcome_expandingOf (hash : String) (x : Compiling σ α) (s : World σ × Progress) :
    (expandingOf hash x).outcome s =
      let after := x.outcome (s.1, { s.2 with expanding := s.2.expanding ++ [hash] })
      (after.1, (after.2.1, { after.2.2 with expanding := after.2.2.expanding.dropLast })) := by
  have hpush : (note (fun p => { p with expanding := p.expanding ++ [hash] }) :
      Compiling σ Unit).outcome s =
        (.ok (), (s.1, { s.2 with expanding := s.2.expanding ++ [hash] })) := rfl
  unfold expandingOf
  rw [outcome_bind_of_ok hpush, outcome_bind_of_ok (outcome_attempt _ _)]
  rcases x.outcome (s.1, { s.2 with expanding := s.2.expanding ++ [hash] }) with ⟨_ | _, _, _⟩ <;> rfl

theorem outcome_start (x : Compiling σ α) (w : World σ) : (start x).outcome w =
    ((x.outcome (w, {})).1.map fun a => (a, (x.outcome (w, {})).2.2), (x.outcome (w, {})).2.1) := rfl

end FactIndex.Compiling
