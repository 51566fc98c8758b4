import FactIndex.Proofs.Compile.Covering

/-!
# Copies of a condition for what lies below a property

A condition on a property is repeated for each of its subproperties by giving the names of fields in its
clause another front. The copy is what the condition on the subproperty would have been: no value that is
compared is changed, even one that looks like the name of a field.

## Main definitions

* `Clause.values`: all that stands in a clause but keys and the names of fields.
* `Clause.values_renameFields`: a copy has no value that the clause has not.
* `Condition.Matched.moved`: a condition in which the fields have been renamed.
* `Deployment.propertyCondition_group`: a condition on one property, and on another one.
* `Deployment.propertyCondition_copies`: a condition with its copies.
-/

namespace FactIndex

open FactIndex.Effect FactIndex.Compiling

variable {σ : Type}

/-! ## Values in a clause -/

namespace Clause

/-- A text, which is the name of a field where such names stand. -/
def isName : Json → Bool
  | .str _ => true
  | _ => false

mutual

/-- The values in a clause: all that stands neither in a key nor where fields are named. -/
def values : Json → List Json
  | .arr xs => valuesOfEach xs
  | .obj ms => valuesOfMembers ms
  | value => [value]

/-- The values in several clauses. -/
def valuesOfEach : List Json → List Json
  | [] => []
  | x :: xs => values x ++ valuesOfEach xs

/-- The values in the members of a clause. -/
def valuesOfMembers : List (String × Json) → List Json
  | [] => []
  | (key, value) :: ms =>
    (if key = "field" then [value].filter fun v => !isName v
      else if key = "fields" then valuesBesideNames value
      else values value) ++ valuesOfMembers ms

/-- The values where several fields are named. -/
def valuesBesideNames : Json → List Json
  | .arr xs => xs.filter fun v => !isName v
  | .obj ms => valuesOfMembers ms
  | value => [value]

end

/-- The values in one member of a clause. -/
def valuesOfMember (key : String) (value : Json) : List Json :=
  if key = "field" then [value].filter fun v => !isName v
  else if key = "fields" then valuesBesideNames value
  else values value

theorem valuesOfMembers_cons (key : String) (value : Json) (ms : Members) :
    valuesOfMembers ((key, value) :: ms) = valuesOfMember key value ++ valuesOfMembers ms := by
  rw [valuesOfMembers]
  rfl

theorem mem_valuesOfMembers {v : Json} {ms : Members} :
    v ∈ valuesOfMembers ms ↔ ∃ m ∈ ms, v ∈ valuesOfMember m.1 m.2 := by
  induction ms with
  | nil => simp [valuesOfMembers]
  | cons m ms ih => rw [valuesOfMembers_cons, List.mem_append, ih, List.exists_mem_cons_iff]

theorem mem_valuesOfMembers_of_merge {v : Json} {ms : Members}
    (h : v ∈ valuesOfMembers (Table.merge [] ms)) : v ∈ valuesOfMembers ms := by
  obtain ⟨m, hm, hv⟩ := mem_valuesOfMembers.mp h
  exact mem_valuesOfMembers.mpr ⟨m, (Table.mem_of_mem_merge hm).resolve_left List.not_mem_nil, hv⟩

/-- Where fields are named, only their names are changed. -/
theorem filter_swapName (old new : String) (xs : List Json) :
    (xs.map (swapName old new)).filter (fun v => !isName v) = xs.filter fun v => !isName v := by
  induction xs with
  | nil => rfl
  | cons x xs ih =>
      cases x with
      | str s => exact ih
      | null | bool | int | float | arr | obj => exact congrArg (List.cons _) ih

section Copies

variable (n k : Int)

/-- A key with the front of a property is renamed to one with the front of another property. So the keys
under which fields are named stay, and no other key becomes one of them. -/
theorem swapFront_eq_iff {name : String} (hname : name.toList.head? ≠ some 'P') (key : String) :
    swapFront (Field.group n ++ ".") (Field.group k ++ ".") key = name ↔ key = name := by
  constructor
  · intro h
    unfold swapFront at h
    split at h
    · subst h
      exact absurd (by simp [Field.group]) hname
    · exact h
  · rintro rfl
    exact swapFront_of_head_ne n _ hname

mutual

/-- By induction on the clause: a copy has no value that the clause has not. -/
theorem values_renameFields : (clause : Json) →
    values (renameFields (Field.group n ++ ".") (Field.group k ++ ".") clause) ⊆ values clause
  | .null => by simp [renameFields]
  | .bool _ => by simp [renameFields]
  | .int _ => by simp [renameFields]
  | .float _ => by simp [renameFields]
  | .str _ => by simp [renameFields]
  | .arr xs => by
      rw [renameFields, values, values]
      exact valuesOfEach_renameEach xs
  | .obj ms => by
      rw [renameFields, values, values]
      exact fun _ hv => valuesOfMembers_renameMembers ms (mem_valuesOfMembers_of_merge hv)

/-- The copies of several clauses. -/
theorem valuesOfEach_renameEach : (xs : List Json) →
    valuesOfEach (renameEach (Field.group n ++ ".") (Field.group k ++ ".") xs) ⊆ valuesOfEach xs
  | [] => by simp [renameEach]
  | x :: xs => by
      rw [renameEach, valuesOfEach, valuesOfEach]
      exact List.append_subset.mpr ⟨List.subset_append_of_subset_left _ (values_renameFields x),
        List.subset_append_of_subset_right _ (valuesOfEach_renameEach xs)⟩

/-- The copies of the members of a clause. -/
theorem valuesOfMembers_renameMembers : (ms : List (String × Json)) →
    valuesOfMembers (renameMembers (Field.group n ++ ".") (Field.group k ++ ".") ms) ⊆ valuesOfMembers ms
  | [] => by simp [renameMembers]
  | (key, value) :: ms => by
      rw [renameMembers, valuesOfMembers, valuesOfMembers]
      simp only [swapFront_eq_iff n k (show "field".toList.head? ≠ some 'P' by decide),
        swapFront_eq_iff n k (show "fields".toList.head? ≠ some 'P' by decide)]
      refine List.append_subset.mpr ⟨List.subset_append_of_subset_left _ ?_,
        List.subset_append_of_subset_right _ (valuesOfMembers_renameMembers ms)⟩
      by_cases hfield : key = "field"
      · simp only [hfield, if_true]
        rw [← filter_swapName (Field.group n ++ ".") (Field.group k ++ ".") [value]]
        exact List.Subset.refl _
      · by_cases hfields : key = "fields"
        · simp only [if_neg hfield, if_pos hfields]
          exact valuesBesideNames_renameNames value
        · simp only [if_neg hfield, if_neg hfields]
          exact values_renameFields value

/-- The copies where several fields are named. -/
theorem valuesBesideNames_renameNames : (value : Json) →
    valuesBesideNames (renameNames (Field.group n ++ ".") (Field.group k ++ ".") value) ⊆
      valuesBesideNames value
  | .null => by simp [renameNames]
  | .bool _ => by simp [renameNames]
  | .int _ => by simp [renameNames]
  | .float _ => by simp [renameNames]
  | .str _ => by simp [renameNames]
  | .arr xs => by
      rw [renameNames, valuesBesideNames, valuesBesideNames]
      rw [filter_swapName]
      exact List.Subset.refl _
  | .obj ms => by
      rw [renameNames, valuesBesideNames, valuesBesideNames]
      exact fun _ hv => valuesOfMembers_renameMembers ms (mem_valuesOfMembers_of_merge hv)

end

end Copies

/-- A clause that is made for each property in the same way has the same values for each of them. -/
theorem OfGroup.mem_values_iff {make : Int → Json} (h : OfGroup make) (n k : Int) (v : Json) :
    v ∈ values (make n) ↔ v ∈ values (make k) := by
  constructor
  · rw [← h k n]
    exact fun hv => values_renameFields k n _ hv
  · rw [← h n k]
    exact fun hv => values_renameFields n k _ hv

/-- With what lies below the property, such a clause is a choice among the clauses of all of them. -/
theorem OfGroup.overHierarchy_eq {make : Int → Json} (h : OfGroup make) (n : Int) (lower : List Int) :
    overHierarchy (make n) (Field.group n) lower =
      if lower.isEmpty then make n else compound .should (make n :: lower.map make) := by
  unfold overHierarchy
  simp only [h n _]

end Clause

/-! ## Conditions on the values of properties -/

/-- A condition in which the fields of one property are those of another one. -/
def Condition.Matched.moved (n k : Int) (m : Condition.Matched) : Condition.Matched :=
  { m with clause := Clause.renameFields (Field.group n ++ ".") (Field.group k ++ ".") m.clause }

namespace Deployment

variable (d : Deployment σ) {p p' : Property}

/-- A condition on a direct property is made of what is compared and of the group of the property. -/
theorem outcome_propertyCondition (hdirect : p.inverse = false) (group : String) (item : Item)
    (comparator : Comparator) (named : Option Property) (s : World σ × Progress) :
    (d.propertyCondition p group item comparator named).outcome s =
      match (act (arrayValue (Field.ofProperty p) item comparator.normal)).outcome s with
      | (.ok target, t) => (d.conditionAt p item comparator.normal ⟨group, [], target.1, target.2⟩, t)
      | (.error e, t) => (.error e, t) := by
  unfold propertyCondition conditionAt
  dsimp only
  rw [outcome_bind]
  rcases (act (arrayValue (Field.ofProperty p) item comparator.normal)).outcome s with ⟨e | target, t⟩
  · rfl
  · dsimp only
    rw [hdirect, outcome_bind]
    cases Condition.ofProperty d.settings.query d.settings.writer.normalKeywords p.valueType group target.1
      item comparator.normal target.2 <;> rfl

/-- The condition on another direct property with values of the same type is a copy of the condition on
the first one, whatever is compared with. -/
theorem propertyCondition_group (hdirect : p.inverse = false) (hdirect' : p'.inverse = false)
    (htype : p'.valueType = p.valueType) (item : Item) (comparator : Comparator)
    (named named' : Option Property) (n k : Int) :
    d.propertyCondition p' (Field.group k) item comparator named' =
      Condition.Matched.moved n k <$> d.propertyCondition p (Field.group n) item comparator named := by
  refine Effect.ext fun s => ?_
  have harray : Field.ofProperty p' = Field.ofProperty p := congrArg Field.ofType htype
  rw [outcome_map, outcome_propertyCondition d hdirect', outcome_propertyCondition d hdirect, harray]
  rcases htarget : (act (arrayValue (Field.ofProperty p) item comparator.normal)).outcome s with
    ⟨e | target, t⟩
  · rfl
  · have hplain := (answers_isPlain _ item comparator.normal).act.good s target (by rw [htarget])
    have hobj := (answers_arrayValue _ item comparator.normal).act.good s target (by rw [htarget])
    obtain ⟨m, hm⟩ := Condition.exists_ofProperty d.settings.query d.settings.writer.normalKeywords
      p.valueType (Field.group n) target.1 item comparator.normal target.2
    have hcopy := Condition.isCopied_ofProperty target.1 item comparator.normal hplain hobj n k m hm
    simp only [conditionAt, htype, hm, hcopy]
    rfl

/-- A condition that was made for one property is made for each other one, from the same state and with the
same result but for the names of fields. -/
theorem exists_copies (hdirect : p.inverse = false) (hdirect' : p'.inverse = false)
    (htype : p'.valueType = p.valueType) {item : Item} {comparator : Comparator} {named : Option Property}
    (named' : Option Property) {n : Int} {s t : World σ × Progress} {m : Condition.Matched}
    (h : (d.propertyCondition p (Field.group n) item comparator named).outcome s = (.ok m, t)) :
    ∃ copies : Int → Json, Clause.OfGroup copies ∧ copies n = m.clause ∧ ∀ k,
      (d.propertyCondition p' (Field.group k) item comparator named').outcome s =
        (.ok { m with clause := copies k }, t) := by
  have hcopies : ∀ k, (d.propertyCondition p' (Field.group k) item comparator named').outcome s =
      (.ok (m.moved n k), t) := fun k => by
    rw [d.propertyCondition_group hdirect hdirect' htype item comparator named named' n k, outcome_map, h]
    rfl
  have hmoved : ∀ j k, (m.moved n j).moved j k = m.moved n k := fun j k => by
    have hcopy := hcopies k
    rw [d.propertyCondition_group hdirect' hdirect' rfl item comparator named' named' j k, outcome_map,
      hcopies j] at hcopy
    exact Except.ok.inj (congrArg Prod.fst hcopy)
  have hself : m.moved n n = m := by
    have hcopy := h
    rw [d.propertyCondition_group hdirect hdirect rfl item comparator named named n n, outcome_map,
      h] at hcopy
    exact Except.ok.inj (congrArg Prod.fst hcopy)
  exact ⟨fun k => (m.moved n k).clause, fun j k => congrArg Condition.Matched.clause (hmoved j k),
    congrArg Condition.Matched.clause hself, hcopies⟩

/-- A condition on the values of a direct property, or on there being any, differs from that on another
property with values of the same type in the names of fields and in nothing else. So with what lies below
the property, it is a choice among what would have been made for each of the properties, and no value that
is compared differs between them. -/
theorem propertyCondition_copies (hdirect : p.inverse = false) (hdirect' : p'.inverse = false)
    (htype : p'.valueType = p.valueType) (item : Item) (comparator : Comparator)
    (named named' : Option Property) (n : Int) :
    (∀ k, d.propertyCondition p' (Field.group k) item comparator named' =
      Condition.Matched.moved n k <$> d.propertyCondition p (Field.group n) item comparator named) ∧
    (∀ array k, Clause.renameFields (Field.group n ++ ".") (Field.group k ++ ".")
      (Clause.hasField (Field.inGroup (Field.group n) array)) =
        Clause.hasField (Field.inGroup (Field.group k) array)) ∧
    (∀ s t m, (d.propertyCondition p (Field.group n) item comparator named).outcome s = (.ok m, t) →
      ∃ copies : Int → Json,
        (∀ k, (d.propertyCondition p' (Field.group k) item comparator named').outcome s =
          (.ok { m with clause := copies k }, t)) ∧
        (∀ k v, v ∈ Clause.values (copies k) ↔ v ∈ Clause.values m.clause) ∧
        ∀ lower, Clause.overHierarchy m.clause (Field.group n) lower =
          if lower.isEmpty then m.clause else Clause.compound .should (m.clause :: lower.map copies)) ∧
    (∀ array lower, Clause.overHierarchy (Clause.hasField (Field.inGroup (Field.group n) array))
      (Field.group n) lower =
        if lower.isEmpty then Clause.hasField (Field.inGroup (Field.group n) array)
        else Clause.compound .should (Clause.hasField (Field.inGroup (Field.group n) array) ::
          lower.map fun k => Clause.hasField (Field.inGroup (Field.group k) array))) := by
  refine ⟨d.propertyCondition_group hdirect hdirect' htype item comparator named named' n,
    fun array => Clause.ofGroup_hasField array n, fun s t m h => ?_,
    fun array => (Clause.ofGroup_hasField array).overHierarchy_eq n⟩
  obtain ⟨copies, hgroup, hself, hcopies⟩ := d.exists_copies hdirect hdirect' htype named' h
  refine ⟨copies, hcopies, fun k v => ?_, fun lower => ?_⟩
  · rw [← hself]
    exact hgroup.mem_values_iff k n v
  · rw [← hself]
    exact hgroup.overHierarchy_eq n lower

private def headingStore : Deployment Archive := Archive.deployment {}

private def heading : Property := { key := "Heading", valueType := .text }

private def subheading : Property := { key := "Subheading", valueType := .text }

/-- A pattern for headings that looks like the name of a field. -/
private def patternFor (n : Int) : Json :=
  Clause.queryString (Json.ofTexts [Field.inGroup (Field.group n) "txtField",
    Field.inGroup (Field.group n) "txtField" ++ ".keyword"]) (.str "P:2.x")

/-- The text is the same in the copy for a property whose number starts with the same digit. -/
theorem propertyCondition_copies_heading : heading.inverse = false ∧ subheading.inverse = false ∧
    subheading.valueType = heading.valueType ∧ ∀ s : World Archive × Progress,
      (headingStore.propertyCondition heading (Field.group 2) (.text "P:2.x") .like none).outcome s =
        (.ok ⟨patternFor 2, "txtField", .str "P:2.x", false, false⟩, s) ∧
      Clause.overHierarchy (patternFor 2) (Field.group 2) [20] =
        Clause.compound .should [patternFor 2, patternFor 20] := by
  refine ⟨rfl, rfl, rfl, fun s => ?_⟩
  have hrun : ∀ (p : Property) (n : Int), p.inverse = false → p.valueType = .text →
      (headingStore.propertyCondition p (Field.group n) (.text "P:2.x") .like none).outcome s =
        (.ok ⟨patternFor n, "txtField", .str "P:2.x", false, false⟩, s) := by
    intro p n hdirect htype
    have harray : Field.ofProperty p = "txtField" := congrArg Field.ofType htype
    rw [outcome_propertyCondition _ hdirect, harray]
    rfl
  have hcopies := propertyCondition_copies headingStore (rfl : heading.inverse = false)
    (rfl : subheading.inverse = false) rfl (.text "P:2.x") .like none none 2
  obtain ⟨copies, hcopy, -, hover⟩ := hcopies.2.2.1 s s _ (hrun heading 2 rfl rfl)
  have hsame : copies 20 = patternFor 20 := by
    have hfirst := (hcopy 20).symm.trans (hrun subheading 20 rfl rfl)
    exact congrArg Condition.Matched.clause (Except.ok.inj (congrArg Prod.fst hfirst))
  refine ⟨hrun heading 2 rfl rfl, (hover [20]).trans ?_⟩
  rw [← hsame]
  rfl

end Deployment

end FactIndex
