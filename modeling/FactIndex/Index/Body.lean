import FactIndex.Index.Settings

/-!
# Bodies of the indices

What an index is created with: its settings, and how the fields of its documents are indexed.

## Main definitions

* `Body.merge`: settings with some of them overridden.
* `Body.data`, `Body.lookup`: the bodies of the two indices.
-/

namespace FactIndex.Body

/-- A list of members with a function on each value. -/
abbrev Overrides := List (String × Json)

mutual

/-- An object in which the members of another one are set. Where both hold an object, the two are
merged in turn. -/
def merge (base : Members) : Overrides → Members
  | [] => base
  | (key, value) :: rest => merge (base.put key (override (Table.get? base key) value)) rest

/-- What takes the place of a value. -/
def override : Option Json → Json → Json
  | some (.obj base), .obj more => .obj (merge base more)
  | _, value => value

end

/-- A keyword of limited length. -/
def keyword : Json := .obj [("type", .str "keyword"), ("ignore_above", .int 500)]

/-- A form of a text to sort by. -/
def sorted : Json := .obj [("type", .str "keyword"), ("normalizer", .str "sort_normalizer")]

/-- The mapping of a text, with its keyword and its sorted form. -/
def text (copyTo : Option String) (more : Members) : Json :=
  let copy := match copyTo with
    | some field => [("copy_to", Json.str field)]
    | none => []
  .obj ([("type", .str "text"), ("fields", .obj ([("keyword", keyword), ("sort", sorted)] ++ more))]
    ++ copy)

/-- A mapping of nothing but a type. -/
def plain (type : String) : Json := .obj [("type", .str type)]

/-- The mapping of an array in every group of values. -/
def template (name field : String) (mapping : Json) : Json :=
  .single name (.obj [("path_match", .str ("P:*." ++ field)), ("mapping", mapping)])

/-- How texts are brought into a normal form. -/
def normalizer (filters : List String) : Json :=
  .obj [("type", .str "custom"), ("filter", Json.ofTexts filters)]

/-- The settings of the data index. -/
def dataSettings : Members :=
  [("analysis", .single "normalizer" (.obj [
    ("sort_normalizer", normalizer ["lowercase", "asciifolding"]),
    ("lowercase_normalizer", normalizer ["lowercase"])]))]

/-- The mappings of the data index. -/
def dataMappings : Members :=
  [("dynamic_templates", .arr [
      template "txt" "txtField" (text (some "text_all") []),
      template "wpg" "wpgField" (text none []),
      template "wpg_id" "wpgID" (plain "long"),
      template "uri" "uriField" (text none [("lowercase",
        .obj [("type", .str "keyword"), ("normalizer", .str "lowercase_normalizer")])]),
      template "num" "numField" (plain "double"),
      template "dat" "datField" (plain "double"),
      template "boo" "booField" (plain "boolean"),
      template "geo" "geoField"
        (.obj [("type", .str "keyword"), ("fields", .single "point" (plain "geo_point"))])]),
    ("properties", .obj [
      ("subject", .single "properties" (.obj [
        ("title", text none []),
        ("subobject", text none []),
        ("namespace", plain "long"),
        ("interwiki", plain "keyword"),
        ("sortkey", text none [])])),
      ("text_all", plain "text")])]

/-- The body of the data index. -/
def data (s : IndexSettings) : Members :=
  [("settings", .obj (merge dataSettings s.settings)),
    ("mappings", .obj (merge dataMappings s.mappings))]

/-- The body of the index that holds lists of entity numbers. -/
def lookup (s : IndexSettings) : Members :=
  [("settings", .obj s.settings),
    ("mappings", .obj [("dynamic", .bool false), ("properties", .single "id" (plain "long"))])]

end FactIndex.Body
