import FactIndex.Description.Basic
import FactIndex.Digest.Md5
import FactIndex.Json.Printer
import FactIndex.Json.Reader

/-!
# Stored descriptions

A description is stored as a JSON document whose `type` says which kind of node it is.

## Main definitions

* `Description.toJson`, `Description.read`: the JSON form.
* `Description.stored`: the JSON text, and `Description.fingerprint`, its digest.
* `Description.parse`, `Description.ofJson`: the description of a JSON text and of a value.
-/

namespace FactIndex

open FactIndex.Schema

namespace Description

/-! ## Writing -/

mutual

/-- The JSON form of a description. -/
def toJson : Description → Json
  | .conjunction ds => .obj [("type", .str "conjunction"), ("descriptions", .arr (toJsonList ds))]
  | .disjunction ds => .obj [("type", .str "disjunction"), ("descriptions", .arr (toJsonList ds))]
  | .category categories depth negated =>
    .obj [("type", .str "class"), ("categories", .arr (categories.map Entity.toJson)),
      ("hierarchy_depth", Json.ofInt? depth), ("negated", .bool negated)]
  | .concept c => .obj [("type", .str "concept"), ("concept", c.toJson)]
  | .space n => .obj [("type", .str "namespace"), ("namespace", .int n)]
  | .someProperty p d depth =>
    .obj [("type", .str "some_property"), ("property", p.toJson), ("description", toJson d),
      ("hierarchy_depth", Json.ofInt? depth)]
  | .value item comparator property =>
    .obj [("type", .str "value"), ("data_item", item.toJson), ("comparator", .str comparator.mark),
      ("property", (property.map Property.toJson).getD .null)]
  | .thing negated => .obj [("type", .str "thing"), ("negated", .bool negated)]

/-- The JSON forms of several descriptions. -/
def toJsonList : List Description → List Json
  | [] => []
  | d :: ds => toJson d :: toJsonList ds

end

/-- The JSON text under which a description is stored. -/
def stored (d : Description) : String := Json.Style.document.print d.toJson

/-- The digest of the stored form. -/
def fingerprint (d : Description) : String := Digest.md5 d.stored

/-! ## Reading

The parts of a node are read before the node itself, so that reading follows the structure of the
document. -/

/-- What can be read from the value of a member: a description, and several of them. -/
structure Parts where
  one : Checked Description
  many : Checked (List Description)

/-- The members of a node with what can be read from them. -/
structure Node where
  members : Members
  parts : List (String × Parts)

namespace Node

/-- The description that a required member holds. -/
def inner (n : Node) (name : String) : Checked Description :=
  match n.parts.lookup name with
  | some p => p.one.within (.field name)
  | none => .bad [⟨[.field name], .missing⟩]

/-- The descriptions that a member holds, none by default. -/
def list (n : Node) (name : String) : Checked (List Description) :=
  match n.parts.lookup name with
  | some p => p.many.within (.field name)
  | none => .ok []

end Node

/-- How each kind of node is read. -/
def readers (fromText : Bool) : List (String × (Node → Checked Description)) :=
  [("conjunction", fun n => onlyKnown n.members ["type", "descriptions"] <|
      .conjunction <$> n.list "descriptions"),
    ("disjunction", fun n => onlyKnown n.members ["type", "descriptions"] <|
      .disjunction <$> n.list "descriptions"),
    ("class", fun n => onlyKnown n.members ["type", "categories", "hierarchy_depth", "negated"] <|
      .category <$> required n.members "categories" (sequenceOf Entity.read) <*>
        withDefault n.members "hierarchy_depth" none (optional integer) <*>
        withDefault n.members "negated" false truth),
    ("concept", fun n => onlyKnown n.members ["type", "concept"] <|
      .concept <$> required n.members "concept" Entity.read),
    ("namespace", fun n => onlyKnown n.members ["type", "namespace"] <|
      .space <$> required n.members "namespace" integer),
    ("some_property", fun n =>
      onlyKnown n.members ["type", "property", "description", "hierarchy_depth"] <|
        .someProperty <$> required n.members "property" Property.read <*>
          n.inner "description" <*>
          withDefault n.members "hierarchy_depth" none (optional integer)),
    ("value", fun n => onlyKnown n.members ["type", "data_item", "comparator", "property"] <|
      .value <$> required n.members "data_item" (Item.read fromText) <*>
        withDefault n.members "comparator" .eq Comparator.read <*>
        withDefault n.members "property" none (optional Property.read)),
    ("thing", fun n => onlyKnown n.members ["type", "negated"] <|
      .thing <$> withDefault n.members "negated" false truth)]

/-- Reads a node whose parts have been read. -/
def readNode (fromText : Bool) (n : Node) : Checked Description :=
  match Table.get? n.members "type" with
  | none => .fault .tagNotFound
  | some (.str name) =>
    match (readers fromText).lookup name with
    | some read => (read n).within (.field name)
    | none => .fault .tagInvalid
  | some _ => .fault .tagInvalid

mutual

/-- Reads the JSON form of a description. -/
def read (fromText : Bool) : Json → Checked Description
  | .obj ms => readNode fromText ⟨ms, readParts fromText ms⟩
  | _ => .fault (untaggedCause fromText)

/-- Reads the JSON forms of several descriptions. -/
def readMany (fromText : Bool) : Json → Checked (List Description)
  | .arr xs => readEach fromText 0 xs
  | _ => .fault .tupleType

/-- Reads the elements of a list of descriptions. -/
def readEach (fromText : Bool) : Nat → List Json → Checked (List Description)
  | _, [] => .ok []
  | i, x :: xs =>
    List.cons <$> (read fromText x).within (.index i) <*> readEach fromText (i + 1) xs

/-- Reads what the members of a node hold. -/
def readParts (fromText : Bool) : List (String × Json) → List (String × Parts)
  | [] => []
  | (k, v) :: ms => (k, ⟨read fromText v, readMany fromText v⟩) :: readParts fromText ms

end

/-- A description that could not be read is a bad request. -/
def accept (c : Checked Description) : Except Failure Description :=
  match c with
  | .ok d => .ok d
  | .bad issues => .error (.badRequest "Invalid description" issues)

/-- The description of a stored text. -/
def parse (text : String) : Except Failure Description :=
  match Json.parseFilled? Json.storedDepth text with
  | some found => accept (read true found)
  | none => accept (.fault .jsonInvalid)

/-- The description of a value. -/
def ofJson (value : Json) : Except Failure Description := accept (read false value)

end Description

end FactIndex
