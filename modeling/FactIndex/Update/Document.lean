import FactIndex.Fact.Catalog
import FactIndex.Index.Settings
import FactIndex.Search.Field
import FactIndex.Text.Control
import FactIndex.Text.Links
import FactIndex.Update.Change

/-!
# Documents

A document describes one entity: its names, and for each property the values in the arrays of their
types. A change makes one document for each entity that has a row, and notes which entities are
mentioned, because these need a document as well.

## Main definitions

* `Document`: the document of an entity.
* `Payload.fields`: the arrays that a value goes into, in the form in which it is stored.
* `Mapped.ofChange`: the documents that a change makes.
* `Change.operations`: the writes that a change amounts to.
-/

namespace FactIndex

open FactIndex.Text

/-- What a document says of the entity itself. -/
def Entity.subjectJson (e : Entity) : Json :=
  .obj [("title", .str e.text), ("subobject", .str e.subobject), ("namespace", .int e.space),
    ("interwiki", .str e.interwiki), ("sortkey", .str (withoutControls e.sortText))]

/-- The document of an entity. -/
structure Document where
  subject : Entity
  /-- The arrays of values of each property, by the property's number. -/
  groups : Table Int (Table String (List Json)) := []
deriving DecidableEq

namespace Document

/-- The JSON form. -/
def toJson (d : Document) : Json :=
  .obj (("subject", d.subject.subjectJson) :: d.groups.map fun g =>
    (Field.group g.1, .obj (g.2.map fun f => (f.1, .arr f.2))))

/-- Adds a value at the end of an array. -/
def addTo (arrays : Table String (List Json)) (field : String × Json) : Table String (List Json) :=
  arrays.put field.1 ((arrays.get? field.1).getD [] ++ [field.2])

/-- Adds values of a property. -/
def add (d : Document) (property : Int) (fields : List (String × Json)) : Document :=
  let arrays := (d.groups.get? property).getD []
  { d with groups := d.groups.put property (fields.foldl addTo arrays) }

end Document

/-! ## Values -/

/-- The form in which a text is stored. Keywords are brought to their normal form, from the digest if
there is one, and links lose their targets. -/
def WriterSettings.storedText (w : WriterSettings) (type : Option ValueType) (text : String)
    (digest : Option String) : String :=
  let keyword := match digest with
    | some d => if d = "" then text else d
    | none => text
  let value := if type = some .keyword ∧ w.normalKeywords then Field.keyword keyword else text
  if w.rawText then value else withoutTargets value

/-- The text by which an entity with a number is known. -/
def Catalog.nameOf (c : Catalog) (number : Int) : String :=
  match c.entity? number with
  | some e => e.sortText
  | none => toString number

/-- The arrays that a value goes into, in the form in which it is stored. The type is that of the
property, if it is known. -/
def Payload.fields (w : WriterSettings) (c : Catalog) (type : Option ValueType) :
    Payload → List (String × Json)
  | .text s hash => [(Field.ofType .text, .str (w.storedText type s hash))]
  | .digest s => [(Field.ofType .text, .str (w.storedText type s (some s)))]
  | .uri s => [(Field.ofType .uri, .str s)]
  | .date x => [(Field.ofType .time, .float x)]
  | .number x => [(Field.ofType .number, .float x)]
  | .boolean b => [(Field.ofType .boolean, .bool b)]
  | .geo s => [(Field.ofType .geo, .str s)]
  | .entity n => [(Field.ofType .page, .str (c.nameOf n)), (Field.numbers, .int n)]

/-- The number of the entity that a value is. -/
def Payload.entity? : Payload → Option Int
  | .entity n => some n
  | _ => none

/-! ## Changes -/

/-- The documents that rows make, and the numbers of the entities that are mentioned, each in the order
in which they came. -/
structure Mapped where
  documents : Table Int Document := []
  mentioned : List Int := []
deriving DecidableEq

namespace Mapped

/-- The document of the entity with a number. An entity that is not known has none. -/
def document? (m : Mapped) (c : Catalog) (change : Change) (number : Int) : Option Document :=
  match m.documents.get? number with
  | some d => some d
  | none =>
    let entity := if number = change.subjectNumber then some change.subject else c.entity? number
    entity.map fun e => { subject := e }

/-- Notes an entity that is mentioned. -/
def mention (m : Mapped) (number : Option Int) : Mapped :=
  match number with
  | some n => if m.mentioned.contains n then m else { m with mentioned := m.mentioned ++ [n] }
  | none => m

/-- Adds a row. A row without property only makes the document of its entity. -/
def addRow (w : WriterSettings) (c : Catalog) (change : Change) (m : Mapped) (r : Row) : Mapped :=
  match r.subject with
  | none => m
  | some number =>
    match m.document? c change number with
    | none => m
    | some d =>
      match r.property, r.payload with
      | some p, some payload =>
        let type := (change.properties.get? p).map PropertyInfo.valueType
        let d := d.add p (payload.fields w c type)
        { m with documents := m.documents.put number d }.mention payload.entity?
      | _, _ => { m with documents := m.documents.put number d }

/-- The documents that a change makes. -/
def ofChange (w : WriterSettings) (c : Catalog) (change : Change) : Mapped :=
  (change.rows.flatMap RowGroup.rows).foldl (addRow w c change) {}

end Mapped

/-! ## Writes -/

/-- The line that says what is done to which document. -/
def writeLine (action index : String) (id : String) : Json :=
  .single action (.obj [("_index", .str index), ("_id", .str id)])

namespace Change

/-- The numbers of the parts of entities that were deleted. Nothing else deletes them. -/
def deletedParts (change : Change) : List Int :=
  (change.edits.filter RowGroup.isEmbedded).flatMap fun g =>
    (g.rowsOf .delete).filterMap fun r => r.payload.bind Payload.entity?

/-- What is set in the document of an entity that is mentioned. It makes a document for an entity
that has none. -/
def mentionLine : Json :=
  .obj [("doc", .single "noop" (.arr [])), ("doc_as_upsert", .bool true)]

/-- The writes that a change amounts to. Deletions come first and whole documents last. -/
def operations (w : WriterSettings) (c : Catalog) (change : Change) (index : String) : List Json :=
  let m := Mapped.ofChange w c change
  change.deletedParts.map (fun n => writeLine "delete" index (toString n)) ++
    m.mentioned.flatMap (fun n => [writeLine "update" index (toString n), mentionLine]) ++
    m.documents.flatMap (fun d => [writeLine "index" index (toString d.1), d.2.toJson])

end Change

end FactIndex
