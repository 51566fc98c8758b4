import FactIndex.Index.Settings
import FactIndex.Json.Reader
import FactIndex.Yaml.Printer
import FactIndex.Yaml.Reader

/-!
# Loading settings

Settings come as an object or as a text, and can be written as a text.

## Main definitions

* `Settings.load`: the settings that a value stands for.
* `Settings.text`: the text of settings.
-/

namespace FactIndex.Settings

/-- The settings of a text. A text without a document stands for the defaults. -/
def ofText (text : String) : Except Failure Settings :=
  match Yaml.parse? text with
  | none => .error (.badRequest "Invalid config" [])
  | some .null => .ok {}
  | some (.obj ms) => (Settings.read (.obj ms)).toExcept
  | some _ => .error (.badRequest "Config must be a mapping" [])

/-- The settings that a value stands for. Nothing stands for the defaults. -/
def load : Json → Except Failure Settings
  | .null => .ok {}
  | .obj ms => (Settings.read (.obj ms)).toExcept
  | .str text => ofText text
  | .int _ | .bool _ => .error .noAttribute
  | .float _ | .arr _ => .error .badType

/-- The settings with all durations set. -/
def explicit (s : Settings) : Settings :=
  { s with
    subquery := { s.subquery with
      lifetime := ⟨some s.subquery.lifetimeSeconds⟩
      conceptLifetime := ⟨some s.subquery.conceptLifetimeSeconds⟩ }
    retry := { s.retry with
      delay := ⟨some s.retry.delaySeconds⟩
      changesLifetime := ⟨some s.retry.changesLifetimeSeconds⟩ } }

/-- The text of the settings. -/
def text (s : Settings) : String := Yaml.print s.explicit.toJson

end FactIndex.Settings
