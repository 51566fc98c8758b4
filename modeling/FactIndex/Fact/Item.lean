import FactIndex.Fact.Entity
import FactIndex.Calendar.Time

/-!
# Data items

A data item is what a property can have as its value.

## Main definitions

* `Area`: a box on the map, with `Area.around` for a circle.
* `Item`: the eight kinds of data items.
* `Item.label`: the name in texts.
* `Item.read`, `Item.toJson`: the JSON form, whose `kind` says which of them it is.
-/

namespace FactIndex

open FactIndex.Schema FactIndex.Calendar FactIndex.Decimal

/-- A box on the map. -/
structure Area where
  north : Float
  west : Float
  south : Float
  east : Float
deriving DecidableEq

/-- Kilometres to a degree of latitude. -/
def degreeLength : Float := 111.32

/-- The ratio of a circle's circumference to its diameter. -/
def circleRatio : Float := 3.141592653589793

/-- The smaller of two floats, the first if they cannot be compared. -/
def lesser (a b : Float) : Float := if b < a then b else a

/-- The greater of two floats, the first if they cannot be compared. -/
def greater (a b : Float) : Float := if a < b then b else a

/-- The box that holds the circle of the given radius. Towards the poles a degree of longitude gets
shorter, down to a fixed limit, and the box ends at the edges of the map. -/
def Area.around (lat lon radius : Float) : Area :=
  let latDelta := radius / degreeLength
  let shrink := greater (Float.cos (lat * (circleRatio / 180))) 1e-9
  let lonDelta := radius / (degreeLength * shrink)
  ⟨lesser (lat + latDelta) 90, greater (lon - lonDelta) (-180),
    greater (lat - latDelta) (-90), lesser (lon + lonDelta) 180⟩

/-- What a property can have as its value. -/
inductive Item where
  | page (entity : Entity)
  | text (value : String)
  | uri (value : String)
  | number (value : Float)
  | boolean (value : Bool)
  | time (value : Time)
  | coordinate (lat lon : Float)
  | area (value : Area)
deriving DecidableEq

namespace Item

/-- The written form of a pair of coordinates. -/
def pairText (a b : Float) : String := Layout.literal.write a ++ "," ++ Layout.literal.write b

/-- The written form of a box. -/
def areaText (a : Area) : String := pairText a.north a.west ++ ";" ++ pairText a.south a.east

/-- The written form of a number. One without a fraction is written as a whole number. -/
def numberText (x : Float) : String :=
  match whole? x with
  | some n => toString n
  | none => Layout.literal.write x

/-- The name of the item in texts. Only a time can lack one. -/
def label : Item → Except Failure String
  | .page e => .ok e.label
  | .text s => .ok s
  | .uri s => .ok s
  | .number x => .ok (numberText x)
  | .boolean b => .ok (if b then "true" else "false")
  | .time t => Time.label t
  | .coordinate lat lon => .ok (pairText lat lon)
  | .area a => .ok (areaText a)

/-- The name of a calendar. -/
def calendarName : Calendar.Style → String
  | .gregorian => "gregorian"
  | .julian => "julian"

/-- The JSON form of a time. -/
def timeToJson (t : Time) : Json :=
  .obj [("kind", .str "time"), ("year", .int t.year), ("month", .int t.month), ("day", .int t.day),
    ("hour", .int t.hour), ("minute", .int t.minute), ("second", .float t.second),
    ("calendar", .str (calendarName t.calendar))]

/-- The JSON form of a box. -/
def areaToJson (a : Area) : Json :=
  .obj [("kind", .str "geo_area"), ("north", .float a.north), ("west", .float a.west),
    ("south", .float a.south), ("east", .float a.east)]

/-- The JSON form of the item. -/
def toJson : Item → Json
  | .page e => e.toJson
  | .text s => .obj [("kind", .str "text"), ("value", .str s)]
  | .uri s => .obj [("kind", .str "uri"), ("value", .str s)]
  | .number x => .obj [("kind", .str "number"), ("value", .float x)]
  | .boolean b => .obj [("kind", .str "boolean"), ("value", .bool b)]
  | .time t => timeToJson t
  | .coordinate lat lon => .obj [("kind", .str "geo"), ("lat", .float lat), ("lon", .float lon)]
  | .area a => areaToJson a

/-! ## Reading -/

/-- Reads an item that has nothing but a value. -/
def readValue {α : Type} (read : Json → Checked α) (make : α → Item) (ms : Members) :
    Checked Item :=
  onlyKnown ms ["kind", "value"] <| make <$> required ms "value" read

/-- Reads a time. -/
def readTime (ms : Members) : Checked Item :=
  onlyKnown ms ["kind", "year", "month", "day", "hour", "minute", "second", "calendar"] <|
    (fun year month day hour minute second calendar =>
        .time { year, month, day, hour, minute, second, calendar }) <$>
      required ms "year" integer <*>
      withDefault ms "month" 1 integer <*>
      withDefault ms "day" 1 integer <*>
      withDefault ms "hour" 0 integer <*>
      withDefault ms "minute" 0 integer <*>
      withDefault ms "second" 0 Schema.number <*>
      withDefault ms "calendar" .gregorian
        (oneOf .literal [("gregorian", .gregorian), ("julian", .julian)])

/-- Reads a pair of coordinates. -/
def readCoordinate (ms : Members) : Checked Item :=
  onlyKnown ms ["kind", "lat", "lon"] <|
    .coordinate <$> required ms "lat" Schema.number <*> required ms "lon" Schema.number

/-- Reads a box. -/
def readArea (ms : Members) : Checked Item :=
  onlyKnown ms ["kind", "north", "west", "south", "east"] <|
    (fun north west south east => .area ⟨north, west, south, east⟩) <$>
      required ms "north" Schema.number <*> required ms "west" Schema.number <*>
      required ms "south" Schema.number <*> required ms "east" Schema.number

/-- How the members of each kind of item are read. -/
def readers : List (String × (Members → Checked Item)) :=
  [("page", fun ms => .page <$> Entity.readMembers ms),
    ("text", readValue Schema.text .text),
    ("uri", readValue Schema.text .uri),
    ("number", readValue Schema.number .number),
    ("boolean", readValue Schema.truth .boolean),
    ("time", readTime),
    ("geo", readCoordinate),
    ("geo_area", readArea)]

/-- Reads the JSON form. -/
def read (fromText : Bool) : Json → Checked Item
  | .obj ms => tagged "kind" readers ms
  | _ => .fault (untaggedCause fromText)

end Item

end FactIndex
