import FactIndex.Failure
import FactIndex.Schema.Record
import FactIndex.Text.Fields

/-!
# Entities

An entity is a page, or a part of a page that has a name of its own. Its hash names it in keys and
messages and can be read back.

## Main definitions

* `Namespace`: the well-known groups of pages.
* `Entity`: a page or a part of one.
* `Entity.hash`, `Entity.ofHash`: the name in keys, and the entity of a name.
* `Entity.label`: the name in texts.
* `Entity.read`, `Entity.toJson`: the JSON form.
-/

namespace FactIndex

open FactIndex.Schema FactIndex.Text

namespace Namespace

/-- The namespace of ordinary pages. -/
def main : Int := 0

/-- The namespace of categories. -/
def category : Int := 14

/-- The namespace of properties. -/
def property : Int := 102

/-- The namespace of concepts. -/
def concept : Int := 108

/-- What stands before the name of a page of the namespace. -/
def lead (namespaceId : Int) : String :=
  if namespaceId = main then ""
  else if namespaceId = category then "Category:"
  else if namespaceId = property then "Property:"
  else if namespaceId = concept then "Concept:"
  else toString namespaceId ++ ":"

end Namespace

/-- A page, or a part of a page. The title has underscores for spaces. -/
structure Entity where
  title : String
  space : Int := 0
  interwiki : String := ""
  /-- The name of the part, empty for the page itself. -/
  subobject : String := ""
  /-- The text to sort by, if it is not the title. -/
  sortkey : Option String := none
deriving DecidableEq

namespace Entity

/-- The name of the entity in keys and messages. The sort key is no part of it. -/
def hash (e : Entity) : String :=
  "#".intercalate [e.title, toString e.space, e.interwiki, e.subobject]

/-- The title with spaces. -/
def text (e : Entity) : String := replaceChar '_' ' ' e.title

/-- The text to sort by. -/
def sortText (e : Entity) : String :=
  match e.sortkey with
  | some key => if key = "" then e.text else key
  | none => e.text

/-- The page that an entity is, or is a part of. -/
def base (e : Entity) : Entity :=
  { title := e.title, space := e.space, interwiki := e.interwiki }

/-- The entity of a hash. Missing parts at the end are empty, and parts beyond the fourth are
dropped. -/
def ofHash (hash : String) : Except Failure Entity :=
  match cut '#' hash with
  | title :: space :: rest =>
    match Decimal.argumentInt? space with
    | some n =>
      .ok { title := title, space := n, interwiki := rest.getD 0 "", subobject := rest.getD 1 "" }
    | none => .error .badValue
  | _ => .error (.malformedHash hash)

/-- The name of the entity in texts. -/
def label (e : Entity) : String :=
  let name := Namespace.lead e.space ++ e.text
  let name := if e.interwiki = "" then name else e.interwiki ++ ":" ++ name
  if e.subobject = "" then name else name ++ "#" ++ e.subobject

/-- The JSON form of the entity. -/
def toJson (e : Entity) : Json :=
  .obj [("kind", .str "page"), ("title", .str e.title), ("namespace", .int e.space),
    ("interwiki", .str e.interwiki), ("subobject", .str e.subobject),
    ("sortkey", Json.ofText? e.sortkey)]

/-- The fields of the JSON form. -/
def fields : List String := ["kind", "title", "namespace", "interwiki", "subobject", "sortkey"]

/-- Reads the members of the JSON form. -/
def readMembers (ms : Members) : Checked Entity :=
  onlyKnown ms fields <|
    (fun (_ : Unit) title space interwiki subobject sortkey =>
        { title, space, interwiki, subobject, sortkey }) <$>
      withDefault ms "kind" () (oneOf .literal [("page", ())]) <*>
      required ms "title" Schema.text <*>
      withDefault ms "namespace" Namespace.main integer <*>
      withDefault ms "interwiki" "" Schema.text <*>
      withDefault ms "subobject" "" Schema.text <*>
      withDefault ms "sortkey" none (optional Schema.text)

/-- Reads the JSON form. -/
def read : Json → Checked Entity := record readMembers

@[simp] theorem hash_base_title (e : Entity) : e.base.title = e.title := rfl

end Entity

end FactIndex
