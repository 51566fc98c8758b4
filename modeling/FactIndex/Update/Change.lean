import FactIndex.Fact.Entity
import FactIndex.Fact.Property
import FactIndex.Json.Printer
import FactIndex.Json.Display

/-!
# Changes

When an entity is edited, the change tells which rows of the property tables were inserted and
deleted, and which rows there are now.

## Main definitions

* `Payload`: the value of a row. A row has at most one.
* `Row`, `RowGroup`: a row, and the rows of one table.
* `Change`: what happened to one entity.
* `Change.read`, `Change.toJson`: the JSON form.
-/

namespace FactIndex

open FactIndex.Schema

/-- Whether a row came or went. -/
inductive RowOp where
  | insert
  | delete
deriving DecidableEq

/-- The word for what happened to a row. -/
def RowOp.name : RowOp → String
  | .insert => "insert"
  | .delete => "delete"

/-- The value of a row. -/
inductive Payload where
  | text (value : String) (digest : Option String)
  /-- A long text of which only the digest is kept. -/
  | digest (value : String)
  | uri (value : String)
  /-- A point in time, as day number. -/
  | date (value : Float)
  | number (value : Float)
  | boolean (value : Bool)
  | entity (number : Int)
  /-- Coordinates in their written form. -/
  | geo (value : String)
deriving DecidableEq

/-- The word for the kind of a value. -/
def Payload.kind : Payload → String
  | .text _ _ | .digest _ => "text"
  | .uri _ => "uri"
  | .date _ => "date"
  | .number _ => "number"
  | .boolean _ => "boolean"
  | .entity _ => "entity_id"
  | .geo _ => "geo"

/-- A row of a property table. A row of a property has a value; a row without property only says that
there is a subject. -/
structure Row where
  op : RowOp
  subject : Option Int
  property : Option Int
  payload : Option Payload
  isSome_payload : property.isSome → payload.isSome
deriving DecidableEq

namespace Row

/-- The members of the JSON form that hold the value. -/
def payloadMembers (p : Option Payload) : Members :=
  let only (kind : String) (value : Json) : Json :=
    if p.map Payload.kind = some kind then value else .null
  let shown : Json := match p with
    | some (.text s _) => .str s
    | some (.digest _) | none => .null
    | some (.uri s) | some (.geo s) => .str s
    | some (.date x) | some (.number x) => .float x
    | some (.boolean b) => .bool b
    | some (.entity n) => .int n
  let digest : Json := match p with
    | some (.text _ d) => Json.ofText? d
    | some (.digest d) => .str d
    | _ => .null
  [("text", only "text" shown), ("text_hash", digest), ("uri", only "uri" shown),
    ("date", only "date" shown), ("number", only "number" shown),
    ("boolean", only "boolean" shown), ("entity_id", only "entity_id" shown),
    ("geo", only "geo" shown)]

/-- The JSON form of a row. -/
def toJson (r : Row) : Json :=
  .obj ([("op", .str r.op.name), ("subject_id", Json.ofInt? r.subject),
    ("property_id", Json.ofInt? r.property)] ++ payloadMembers r.payload)

/-- The values that the members of a row hold. -/
def payloads (text digest uri : Option String) (date number : Option Float)
    (boolean : Option Bool) (entity : Option Int) (geo : Option String) : List Payload :=
  let first : Option Payload := match text, digest with
    | some s, d => some (.text s d)
    | none, some d => some (.digest d)
    | none, none => none
  [first, uri.map .uri, date.map .date, number.map .number, boolean.map .boolean,
    entity.map .entity, geo.map .geo].filterMap id

/-- A row with the values that were given for it. -/
def make (op : RowOp) (subject property : Option Int) (given : List Payload) : Checked Row :=
  match given with
  | _ :: _ :: _ =>
    .fault (.rule ("Ambiguous payload: " ++ ", ".intercalate (given.map Payload.kind)))
  | [p] => .ok ⟨op, subject, property, some p, fun _ => rfl⟩
  | [] =>
    if h : property.isSome then .fault (.rule "Property row without payload")
    else .ok ⟨op, subject, property, none, fun isSome => absurd isSome h⟩

/-- Reads a row. -/
def read : Json → Checked Row := record fun ms =>
  let given {α : Type} (name : String) (read : Json → Checked α) : Checked (Option α) :=
    withDefault ms name none (optional read)
  ((fun op subject property found => (op, subject, property, found)) <$>
    withDefault ms "op" .insert (oneOf .literal [("insert", .insert), ("delete", .delete)]) <*>
    given "subject_id" integer <*> given "property_id" integer <*>
    (payloads <$> given "text" Schema.text <*> given "text_hash" Schema.text <*>
      given "uri" Schema.text <*> given "date" Schema.number <*> given "number" Schema.number <*>
      given "boolean" truth <*> given "entity_id" integer <*> given "geo" Schema.text)).andThen
  fun (op, subject, property, found) => make op subject property found

end Row

/-- The rows of one table. -/
structure RowGroup where
  table : String
  /-- The key of the property that the table is for, if it is for one only. -/
  property : Option String := none
  rows : List Row := []
deriving DecidableEq

namespace RowGroup

/-- Whether the table holds the parts of entities. -/
def isEmbedded (g : RowGroup) : Bool := g.property == some "_SOBJ"

/-- The rows that were inserted, or those that were deleted. -/
def rowsOf (g : RowGroup) (op : RowOp) : List Row := g.rows.filter fun r => r.op == op

/-- The JSON form of the rows of a table. -/
def toJson (g : RowGroup) : Json :=
  .obj [("table_name", .str g.table), ("property_key", Json.ofText? g.property),
    ("field_change_ops", .arr (g.rows.map Row.toJson))]

/-- Reads the rows of a table. -/
def read : Json → Checked RowGroup := record fun ms =>
  RowGroup.mk <$> required ms "table_name" text <*>
    withDefault ms "property_key" none (optional text) <*>
    withDefault ms "field_change_ops" [] (listOf Row.read)

end RowGroup

/-- What a change knows about a property. -/
structure PropertyInfo where
  key : String
  valueType : ValueType := .page
deriving DecidableEq

namespace PropertyInfo

/-- The JSON form. -/
def toJson (p : PropertyInfo) : Json :=
  .obj [("key", .str p.key), ("value_type", .str p.valueType.code)]

/-- Reads the JSON form. -/
def read : Json → Checked PropertyInfo := record fun ms =>
  PropertyInfo.mk <$> required ms "key" text <*> withDefault ms "value_type" .page ValueType.read

end PropertyInfo

/-- What happened to one entity. -/
structure Change where
  subject : Entity
  subjectNumber : Int
  /-- The rows that came and went. -/
  edits : List RowGroup := []
  /-- The rows of the entity and of its parts as they are now. -/
  rows : List RowGroup := []
  properties : Table Int PropertyInfo := []
deriving DecidableEq

namespace Change

/-- The JSON form of a change. -/
def toJson (c : Change) : Json :=
  .obj [("subject", c.subject.toJson), ("subject_id", .int c.subjectNumber),
    ("table_change_ops", .arr (c.edits.map RowGroup.toJson)),
    ("data_ops", .arr (c.rows.map RowGroup.toJson)),
    ("properties", .obj (c.properties.map fun p => (toString p.1, p.2.toJson)))]

/-- Reads a table whose keys are numbers. -/
def readNumbered {α : Type} (read : Json → Checked α) : Json → Checked (Table Int α)
  | .obj ms =>
    let entry (m : String × Json) : Checked (Int × α) :=
      Prod.mk <$> ((integer (.str m.1)).within (.field "[key]")).within (.field m.1) <*>
        (read m.2).within (.field m.1)
    let entries := ms.foldr (fun m rest => List.cons <$> entry m <*> rest) (.ok [])
    Table.merge [] <$> entries
  | _ => .fault .dictType

/-- Reads the JSON form. -/
def read : Json → Checked Change := record fun ms =>
  Change.mk <$> required ms "subject" Entity.read <*> required ms "subject_id" integer <*>
    withDefault ms "table_change_ops" [] (listOf RowGroup.read) <*>
    withDefault ms "data_ops" [] (listOf RowGroup.read) <*>
    withDefault ms "properties" [] (readNumbered PropertyInfo.read)

/-- The key under which the change of an entity is kept until it can be written. -/
def key (subject : Entity) : String := "changediff:" ++ subject.hash

end Change

end FactIndex
