import FactIndex.Proofs.Decimal.Written
import FactIndex.Proofs.Fact.Stored
import FactIndex.Update.Change
import FactIndex.Update.Job
import Mathlib.Data.List.Nodup

/-!
# Changes and jobs that are stored

A change that waits in the cache and a job that waits in the queue are stored in their JSON form. What
is read from it is the change or the job that was stored.

## Main definitions

* `Change.read_toJson`, `Job.ofMessage_toMessage`: changes and jobs are given back.
* `Change.isReadable_toJson`: a change can be stored as a text.
-/

namespace FactIndex

open FactIndex.Schema

/-! ## Rows -/

theorem PropertyInfo.inverts_read : Inverts PropertyInfo.read PropertyInfo.toJson := by
  rintro ⟨key, type⟩
  cases type <;> rfl

theorem Row.make_payload (r : Row) : Row.make r.op r.subject r.property r.payload.toList = .ok r := by
  rcases r with ⟨op, subject, property, _ | payload, h⟩
  · have hnone : ¬ property.isSome := fun hsome => absurd (h hsome) (by simp)
    simp [Row.make, hnone]
  · rfl

theorem Row.inverts_read : Inverts Row.read Row.toJson := by
  intro r
  obtain ⟨ms, hms⟩ : ∃ ms, r.toJson = .obj ms := ⟨_, rfl⟩
  have hop : withDefault ms "op" RowOp.insert
      (oneOf .literal [("insert", RowOp.insert), ("delete", RowOp.delete)]) = .ok r.op := by
    cases hms
    exact withDefault_of_get rfl (by cases r.op <;> rfl)
  have hsubject : withDefault ms "subject_id" none (optional integer) = .ok r.subject := by
    cases hms
    exact withDefault_of_get rfl (inverts_optional_integer r.subject)
  have hproperty : withDefault ms "property_id" none (optional integer) = .ok r.property := by
    cases hms
    exact withDefault_of_get rfl (inverts_optional_integer r.property)
  have hpayload : (payloads <$> withDefault ms "text" none (optional Schema.text) <*>
      withDefault ms "text_hash" none (optional Schema.text) <*>
      withDefault ms "uri" none (optional Schema.text) <*>
      withDefault ms "date" none (optional Schema.number) <*>
      withDefault ms "number" none (optional Schema.number) <*>
      withDefault ms "boolean" none (optional truth) <*>
      withDefault ms "entity_id" none (optional integer) <*>
      withDefault ms "geo" none (optional Schema.text)) = .ok r.payload.toList := by
    cases hms
    rcases r.payload with _ | ⟨_, _ | _⟩ | _ | _ | _ | _ | _ | _ | _ <;> rfl
  rw [hms]
  unfold Row.read record
  simp only [hop, hsubject, hproperty, hpayload, Checked.map_ok, Checked.seq_ok]
  exact Row.make_payload r

theorem RowGroup.inverts_read : Inverts RowGroup.read RowGroup.toJson := by
  intro g
  obtain ⟨ms, hms⟩ : ∃ ms, g.toJson = .obj ms := ⟨_, rfl⟩
  have htable : required ms "table_name" Schema.text = .ok g.table := by
    cases hms
    exact required_of_get rfl (inverts_text g.table)
  have hproperty : withDefault ms "property_key" none (optional Schema.text) = .ok g.property := by
    cases hms
    exact withDefault_of_get rfl (inverts_optional_text g.property)
  have hrows : withDefault ms "field_change_ops" [] (listOf Row.read) = .ok g.rows := by
    cases hms
    exact withDefault_of_get rfl (inverts_listOf Row.inverts_read g.rows)
  rw [hms]
  unfold RowGroup.read record
  simp only [htable, hproperty, hrows, Checked.map_ok, Checked.seq_ok]

/-! ## Changes -/

/-- A table whose keys are numbers is given back if each number has one entry. -/
theorem Change.readNumbered_map {α : Type} {read : Json → Checked α} {write : α → Json}
    (h : Inverts read write) {t : Table Int α} (hkeys : t.keys.Nodup) :
    Change.readNumbered read (.obj (t.map fun p => (toString p.1, write p.2))) = .ok t := by
  have hkey : ∀ n : Int, integer (.str (toString n)) = .ok n := by
    intro n
    unfold integer
    dsimp only
    rw [Decimal.fieldInt?_toString]
  have hentries : ∀ t : Table Int α, (t.map fun p => (toString p.1, write p.2)).foldr
      (fun m rest => List.cons <$> (Prod.mk <$>
        ((integer (.str m.1)).within (.field "[key]")).within (.field m.1) <*>
          (read m.2).within (.field m.1)) <*> rest) (.ok []) = .ok t := by
    intro t
    induction t with
    | nil => rfl
    | cons p t ih =>
        rw [List.map_cons, List.foldr_cons, ih, hkey, h p.2]
        rfl
  show Table.merge [] <$> _ = _
  rw [hentries t, Checked.map_ok, Table.merge_of_nodup (t := []) hkeys, List.nil_append]

/-- A change is given back. -/
theorem Change.read_toJson (c : Change) (hkeys : c.properties.keys.Nodup) :
    Change.read c.toJson = .ok c := by
  obtain ⟨ms, hms⟩ : ∃ ms, c.toJson = .obj ms := ⟨_, rfl⟩
  have hsubject : required ms "subject" Entity.read = .ok c.subject := by
    cases hms
    exact required_of_get rfl (Entity.inverts_read c.subject)
  have hnumber : required ms "subject_id" integer = .ok c.subjectNumber := by
    cases hms
    exact required_of_get rfl (inverts_integer c.subjectNumber)
  have hedits : withDefault ms "table_change_ops" [] (listOf RowGroup.read) = .ok c.edits := by
    cases hms
    exact withDefault_of_get rfl (inverts_listOf RowGroup.inverts_read c.edits)
  have hrows : withDefault ms "data_ops" [] (listOf RowGroup.read) = .ok c.rows := by
    cases hms
    exact withDefault_of_get rfl (inverts_listOf RowGroup.inverts_read c.rows)
  have hproperties : withDefault ms "properties" [] (Change.readNumbered PropertyInfo.read) =
      .ok c.properties := by
    cases hms
    exact withDefault_of_get rfl (Change.readNumbered_map PropertyInfo.inverts_read hkeys)
  rw [hms]
  unfold Change.read record
  simp only [hsubject, hnumber, hedits, hrows, hproperties, Checked.map_ok, Checked.seq_ok]

/-! ## Changes as texts -/

/-- The float that the value of a row is. -/
def Payload.float? : Payload → Option Float
  | .date x | .number x => some x
  | _ => none

/-- The floats of a change. -/
def Change.floats (c : Change) : List Float :=
  (c.edits ++ c.rows).flatMap fun g => g.rows.filterMap fun r => r.payload.bind Payload.float?

section

open Json

variable {style : Style} {depth : Nat}

theorem Row.isReadable_payloadMembers {p : Option Payload}
    (h : ∀ x ∈ p.bind Payload.float?, ReadsFloat style.floats x) :
    ∀ m ∈ Row.payloadMembers p, IsReadable style depth m.2 := by
  obtain ⟨shown, digest, hmembers, hshown, hdigest⟩ : ∃ shown digest, Row.payloadMembers p =
      (let only (kind : String) : Json := if p.map Payload.kind = some kind then shown else .null
      [("text", only "text"), ("text_hash", digest), ("uri", only "uri"), ("date", only "date"),
        ("number", only "number"), ("boolean", only "boolean"), ("entity_id", only "entity_id"),
        ("geo", only "geo")]) ∧ IsReadable style depth shown ∧ IsReadable style depth digest := by
    refine ⟨_, _, rfl, ?_, ?_⟩
    · split
      · exact .str _
      · exact .null
      · exact .null
      · exact .str _
      · exact .str _
      · exact .float (h _ rfl)
      · exact .float (h _ rfl)
      · exact .bool _
      · exact .int _
    · split
      · exact isReadable_ofText? _
      · exact .str _
      · exact .null
  have honly : ∀ kind : String,
      IsReadable style depth (if p.map Payload.kind = some kind then shown else .null) := by
    intro kind
    split
    · exact hshown
    · exact .null
  rw [hmembers]
  simp only [List.forall_mem_cons]
  exact ⟨honly _, hdigest, honly _, honly _, honly _, honly _, honly _, honly _, List.forall_mem_nil _⟩

theorem Row.isReadable_toJson {r : Row}
    (h : ∀ x ∈ r.payload.bind Payload.float?, ReadsFloat style.floats x) :
    IsReadable style (depth + 1) r.toJson := by
  have hkeys : ["op", "subject_id", "property_id", "text", "text_hash", "uri", "date", "number",
    "boolean", "entity_id", "geo"].Nodup := by decide
  refine .obj hkeys ?_
  simp only [List.forall_mem_append, List.forall_mem_cons]
  exact ⟨⟨.str _, isReadable_ofInt? _, isReadable_ofInt? _, List.forall_mem_nil _⟩, isReadable_payloadMembers h⟩

theorem RowGroup.isReadable_toJson {g : RowGroup}
    (h : ∀ r ∈ g.rows, ∀ x ∈ r.payload.bind Payload.float?, ReadsFloat style.floats x) :
    IsReadable style (depth + 3) g.toJson := by
  have hkeys : ["table_name", "property_key", "field_change_ops"].Nodup := by decide
  have hrows : IsReadable style (depth + 2) (.arr (g.rows.map Row.toJson)) := by
    refine .arr fun j hj => ?_
    obtain ⟨r, hr, rfl⟩ := List.mem_map.mp hj
    exact Row.isReadable_toJson (h r hr)
  refine .obj hkeys ?_
  simp only [List.forall_mem_cons]
  exact ⟨.str _, isReadable_ofText? _, hrows, List.forall_mem_nil _⟩

theorem PropertyInfo.isReadable_toJson (p : PropertyInfo) : IsReadable style (depth + 1) p.toJson := by
  have hkeys : ["key", "value_type"].Nodup := by decide
  refine .obj hkeys ?_
  simp only [List.forall_mem_cons]
  exact ⟨.str _, .str _, List.forall_mem_nil _⟩

/-- A change is read back from its text if its floats are. -/
theorem Change.isReadable_toJson {c : Change} (hkeys : c.properties.keys.Nodup)
    (hfloats : ∀ x ∈ c.floats, ReadsFloat style.floats x) :
    IsReadable style (depth + 5) c.toJson := by
  have hgroups : ∀ gs ⊆ c.edits ++ c.rows,
      IsReadable style (depth + 4) (.arr (gs.map RowGroup.toJson)) := by
    intro gs hgs
    refine .arr fun j hj => ?_
    obtain ⟨g, hg, rfl⟩ := List.mem_map.mp hj
    refine RowGroup.isReadable_toJson fun r hr x hx => hfloats x ?_
    exact List.mem_flatMap.mpr ⟨g, hgs hg, List.mem_filterMap.mpr ⟨r, hr, hx⟩⟩
  have hproperties : IsReadable style (depth + 4)
      (.obj (c.properties.map fun p => (toString p.1, p.2.toJson))) := by
    refine .obj ?_ fun m hm => ?_
    · have hinjective : Function.Injective (fun n : Int => toString n) := by
        intro a b hab
        have hread := Decimal.fieldInt?_toString a
        rw [show toString a = toString b from hab, Decimal.fieldInt?_toString] at hread
        exact (Option.some.inj hread).symm
      have hmapped : Table.keys (c.properties.map fun p => (toString p.1, p.2.toJson)) =
          c.properties.keys.map fun n => toString n := by
        simp [Table.keys]
      rw [hmapped]
      exact List.Nodup.map hinjective hkeys
    · obtain ⟨p, _, rfl⟩ := List.mem_map.mp hm
      exact PropertyInfo.isReadable_toJson p.2
  have hmembers : ["subject", "subject_id", "table_change_ops", "data_ops", "properties"].Nodup := by
    decide
  refine .obj hmembers ?_
  simp only [List.forall_mem_cons]
  exact ⟨Entity.isReadable_toJson _, .int _, hgroups _ (List.subset_append_left _ _),
    hgroups _ (List.subset_append_right _ _), hproperties, List.forall_mem_nil _⟩

end

/-! ## Jobs -/

theorem Job.inverts_read : Inverts Job.read Job.toJson := by
  intro job
  obtain ⟨ms, hms⟩ : ∃ ms, job.toJson = .obj ms := ⟨_, rfl⟩
  have hdelete : withDefault ms "delete" none (optional (listOf integer)) = .ok job.delete := by
    cases hms
    refine withDefault_of_get rfl ?_
    cases job.delete with
    | none => rfl
    | some ids =>
        show some <$> listOf integer (Json.ofInts ids) = _
        rw [Json.ofInts, inverts_listOf inverts_integer ids]
        rfl
  have hconcept : withDefault ms "is_concept" false truth = .ok job.isConcept := by
    cases hms
    exact withDefault_of_get rfl (inverts_truth job.isConcept)
  have hcreate : withDefault ms "create" none (optional Schema.text) = .ok job.create := by
    cases hms
    exact withDefault_of_get rfl (inverts_optional_text job.create)
  have hreplicate : withDefault ms "replicate" none (optional Schema.text) = .ok job.replicate := by
    cases hms
    exact withDefault_of_get rfl (inverts_optional_text job.replicate)
  have hretries : withDefault ms "retry_count" 0 integer = .ok job.retries := by
    cases hms
    exact withDefault_of_get rfl (inverts_integer job.retries)
  have hcreated : withDefault ms "created_at" none (optional Schema.number) = .ok job.createdAt := by
    cases hms
    exact withDefault_of_get rfl (inverts_optional_number job.createdAt)
  have horigin : withDefault ms "origin" "" Schema.text = .ok job.origin := by
    cases hms
    exact withDefault_of_get rfl (inverts_text job.origin)
  rw [hms]
  unfold Job.read record
  simp only [hdelete, hconcept, hcreate, hreplicate, hretries, hcreated, horigin, Checked.map_ok,
    Checked.seq_ok]

/-- A message gives back the job that it was made of. -/
theorem Job.ofMessage_toMessage (job : Job) : Job.ofMessage job.toMessage = .ok job := by
  have htype : job.toMessage.get? "type" = some (.str messageType) := rfl
  have hparams : job.toMessage.get? "params" = some job.toJson := rfl
  unfold Job.ofMessage
  rw [if_pos htype, hparams]
  simp only
  rw [Job.inverts_read job]
  rfl

end FactIndex
