import FactIndex.Proofs.Compile.Hindsight

/-!
# Places of a description

What is compiled at a place of the tree may be noted there or below it. So before a place is compiled
nothing has been noted there, and this is still so for the places that come later.

## Main definitions

* `Compiling.Beneath`: the positions below a place, from a child on.
* `Description.isDirect`: whether no property is followed from object to subject.
* `Description.Suits`: what is asked of a description that is compiled while concepts are being expanded.
* `Hindsight.Ready`: what is known before a place is compiled.
-/

namespace FactIndex

open FactIndex.Compiling Relation

variable {σ : Type}

/-! ## Places of the tree -/

/-- A position at a child of a place, from some child on, or below it. -/
def Compiling.Beneath (path : List Nat) (i : Nat) (position : List Nat) : Prop :=
  ∃ j, i ≤ j ∧ path ++ [j] <+: position

namespace Compiling.Beneath

variable {path position : List Nat} {i : Nat}

theorem of_child (h : path ++ [i] <+: position) : Beneath path i position := ⟨i, le_rfl, h⟩

theorem of_succ (h : Beneath path (i + 1) position) : Beneath path i position := by
  obtain ⟨j, hj, hprefix⟩ := h
  exact ⟨j, by omega, hprefix⟩

theorem isPrefix (h : Beneath path i position) : path <+: position := by
  obtain ⟨j, -, hprefix⟩ := h
  exact (List.prefix_append _ _).trans hprefix

/-- A place is not below itself. -/
theorem not_self : ¬ Beneath path i path := by
  rintro ⟨j, -, hprefix⟩
  have hlength := hprefix.length_le
  rw [List.length_append, List.length_singleton] at hlength
  omega

/-- What is below a later child is not below this one. -/
theorem not_child (h : Beneath path (i + 1) position) : ¬ path ++ [i] <+: position := by
  obtain ⟨j, hj, hprefix⟩ := h
  intro hchild
  have hsame := List.prefix_of_prefix_length_le hprefix hchild (by simp)
  have hij := List.IsPrefix.eq_of_length hsame (by simp)
  simp at hij
  omega

end Compiling.Beneath

/-! ## What is asked of a description -/

namespace Description

mutual

/-- Whether no property in a description is followed from object to subject. -/
def isDirect : Description → Bool
  | .conjunction ds => areDirect ds
  | .disjunction ds => areDirect ds
  | .someProperty p inner _ => !p.inverse && inner.isDirect
  | .value _ _ property => property.all fun p => !p.inverse
  | .category _ _ _ | .concept _ | .space _ | .thing _ => true

/-- Whether this is so in each of several descriptions. -/
def areDirect : List Description → Bool
  | [] => true
  | d :: ds => d.isDirect && areDirect ds

end

theorem areDirect_iff {ds : List Description} : areDirect ds = true ↔ ∀ d ∈ ds, d.isDirect = true := by
  induction ds with
  | nil => simp [areDirect]
  | cons d ds ih => simp [areDirect, ih]

theorem mem_allConcepts {e : Entity} {ds : List Description} :
    e ∈ allConcepts ds ↔ ∃ d ∈ ds, e ∈ d.concepts := by
  induction ds with
  | nil => simp [allConcepts]
  | cons d ds ih => simp [allConcepts, ih]

end Description

/-- What is asked of a description that is compiled while concepts are being expanded: no property in it
is inverse, none of its concepts leads back, and something is the case if one of its times cannot be
compared or written. -/
structure Description.Suits (t : Table String String) (stack : List String) (fails : Prop)
    (node : Description) : Prop where
  isDirect : node.isDirect = true
  times : ∀ time ∈ node.times, ¬ Description.IsLegible time → fails
  concepts : ∀ above ∈ stack, ∀ e ∈ node.concepts, TransGen (Concepts.RefersTo t) above e.hash

namespace Description.Suits

variable {t : Table String String} {stack : List String} {fails : Prop} {node inner : Description}
  {ds : List Description} {p : Property} {depth : Option Int}

/-- What is asked of several descriptions together is asked of each. -/
theorem of_members (hdirect : areDirect ds = true)
    (htimes : ∀ time ∈ Description.allTimes ds, ¬ Description.IsLegible time → fails)
    (hconcepts : ∀ above ∈ stack, ∀ e ∈ allConcepts ds, TransGen (Concepts.RefersTo t) above e.hash) :
    ∀ d ∈ ds, Suits t stack fails d := fun d hd =>
  ⟨areDirect_iff.mp hdirect d hd, fun time ht => htimes time (mem_allTimes.mpr ⟨d, hd, ht⟩),
    fun above habove e he => hconcepts above habove e (mem_allConcepts.mpr ⟨d, hd, he⟩)⟩

theorem of_conjunction (h : Suits t stack fails (.conjunction ds)) : ∀ d ∈ ds, Suits t stack fails d :=
  of_members (by simpa [Description.isDirect] using h.isDirect)
    (by simpa [Description.times] using h.times) (by simpa [Description.concepts] using h.concepts)

theorem of_disjunction (h : Suits t stack fails (.disjunction ds)) : ∀ d ∈ ds, Suits t stack fails d :=
  of_members (by simpa [Description.isDirect] using h.isDirect)
    (by simpa [Description.times] using h.times) (by simpa [Description.concepts] using h.concepts)

theorem of_someProperty (h : Suits t stack fails (.someProperty p inner depth)) :
    p.inverse = false ∧ Suits t stack fails inner := by
  have hdirect := h.isDirect
  rw [Description.isDirect, Bool.and_eq_true, Bool.not_eq_true'] at hdirect
  refine ⟨hdirect.1, hdirect.2, fun time ht => h.times time ?_,
    fun above habove e he => h.concepts above habove e ?_⟩
  · rwa [Description.times]
  · rwa [Description.concepts]

end Description.Suits

/-! ## Before a place is compiled -/

namespace Hindsight

variable {d : Deployment σ} {H : Hindsight d} {made made' : List Settled} {stack : List String}
  {s t : World σ × Progress} {scope scope' scope'' : List Nat → Prop}

/-- What is known before a place of the tree is compiled: nothing has been noted there so far. -/
structure Ready (H : Hindsight d) (stack : List String) (scope : List Nat → Prop) (made : List Settled)
    (s : World σ × Progress) : Prop where
  kept : H.Kept s made
  expanding : s.2.expanding = stack
  fresh : ∀ position, scope position → s.2.negated.get? position = none

/-- What a step leaves alone is still to be compiled. -/
theorem Ready.next (h : H.Ready stack scope made s) (hkept : H.Kept t made')
    (hwithin : Within scope' s t)
    (hscope : ∀ position, scope'' position → scope position ∧ ¬ scope' position) :
    H.Ready stack scope'' made' t where
  kept := hkept
  expanding := hwithin.expanding.trans h.expanding
  fresh position hin := by
    obtain ⟨hfree, hout⟩ := hscope position hin
    rw [hwithin.negated position hout, h.fresh position hfree]

theorem Ready.mono (h : H.Ready stack scope made s)
    (hscope : ∀ position, scope' position → scope position) : H.Ready stack scope' made s :=
  ⟨h.kept, h.expanding, fun position hin => h.fresh position (hscope position hin)⟩

/-- Before the children of a place are compiled, nothing has been noted there. -/
theorem Ready.children {path : List Nat} (h : H.Ready stack (path <+: ·) made s) :
    H.Ready stack (Beneath path 0) made s := h.mono fun _ => Beneath.isPrefix

/-- A step that notes nothing leaves everything to be compiled. -/
theorem Ready.next_quiet (h : H.Ready stack scope made s) (hkept : H.Kept t made')
    (hwithin : Within (fun _ => False) s t) : H.Ready stack scope made' t :=
  h.next hkept hwithin fun _ hin => ⟨hin, id⟩

end Hindsight

/-- A step that notes nothing outside any place notes nothing. -/
theorem Compiling.Within.of_tame {α : Type} {T : Tie σ} {isNoted : Bool} {x : Compiling σ α}
    (h : ∀ path, Tame T isNoted path x) (scope : List Nat → Prop) (s : World σ × Progress) :
    Within scope s (x.outcome s).2 where
  expanding := (h []).expanding s
  negated position _ := (h (position ++ [0])).negated s position fun hin => by
    have hlength := hin.2.length_le
    rw [List.length_append, List.length_singleton] at hlength
    omega

end FactIndex
