import RdfDataset.Json.Value
import RdfDataset.Settings.Basic
import RdfDataset.Text.FileName
import RdfDataset.Yaml.Node

/-!
# Settings from files

Settings are fields of an object in JSON or of a mapping in YAML.  A field that is missing keeps its default, and
unknown fields are ignored; a field that is given twice is an error.

* `Settings.ofJson` and `Settings.ofYaml` read settings from a text, and `Settings.ofFile` from a file whose name tells
  the format.
-/

namespace RdfDataset.Settings

/-- The name of the field for the beginning of labels. -/
def labelField : String := "blank_node_prefix"

/-- The name of the field that says whether to drop empty levels. -/
def pruneField : String := "prune_empty_levels"

/-- A field that is given once or not at all. -/
def readField {α β : Type} (fields : List (String × α)) (name : String) (read : α → Option β) (default : β) :
    Option β :=
  match fields.filter (·.1 == name) with
  | [] => some default
  | [(_, a)] => read a
  | _ => none

/-- Settings from the fields that are given. -/
def ofFields {α : Type} (readLabel : α → Option String) (readBool : α → Option Bool) (fields : List (String × α)) :
    Option Settings := do
  let blankNodePrefix ← readField fields labelField readLabel ({} : Settings).blankNodePrefix
  let pruneEmptyLevels ← readField fields pruneField readBool ({} : Settings).pruneEmptyLevels
  return { blankNodePrefix, pruneEmptyLevels }

/-! ### JSON -/

def jsonString : Json.Value → Option String
  | .string raw => Json.decodeString raw
  | _ => none

def jsonBool : Json.Value → Option Bool
  | .bool b => some b
  | _ => none

/-- Settings from an object, or from an array of the settings in order. -/
def ofJsonValue : Json.Value → Option Settings
  | .object fields => do
    ofFields jsonString jsonBool (← fields.mapM fun (raw, v) => (Json.decodeString raw).map (·, v))
  | .array items =>
    if 2 < items.length then none else ofFields jsonString jsonBool ([labelField, pruneField].zip items)
  | _ => none

/-- Settings from a JSON text. -/
def ofJson (text : String) : Except SettingsError Settings := do
  match (Json.read text.toList).bind ofJsonValue with
  | none => throw .json
  | some settings =>
    settings.check
    return settings

/-! ### YAML -/

/-- The text of a scalar, whatever its notation is. -/
def yamlString : Yaml.Node → Option String
  | .scalar _ _ text => some text
  | _ => none

/-- A boolean is not quoted; a literal block can be one if it is tagged. -/
def yamlBool : Yaml.Node → Option Bool
  | .scalar style tag text =>
    if style = .plain ∨ (style = .literal ∧ tag = some "tag:yaml.org,2002:bool") then
      match text with
      | "true" | "True" | "TRUE" => some true
      | "false" | "False" | "FALSE" => some false
      | _ => none
    else none
  | _ => none

/-- Settings from a mapping all of whose keys are scalars.  Where nothing is written at all, all fields are missing. -/
def ofYamlNode : Option Yaml.Node → Option Settings
  | none => some {}
  | some (.scalar .plain _ "") => some {}
  | some (.mapping entries) => do
    ofFields yamlString yamlBool (← entries.mapM fun (key, value) => (yamlString key).map (·, value))
  | some _ => none

/-- Settings from a YAML text. -/
def ofYaml (text : String) : Except SettingsError Settings := do
  match (Yaml.read text.toList).bind ofYamlNode with
  | none => throw .yaml
  | some settings =>
    settings.check
    return settings

/-! ### Files -/

/-- Settings from a file, given by its name and, if it exists, its text. -/
def ofFile (path : String) (text : Option String) : Except SettingsError Settings := do
  match text with
  | none => throw .io
  | some text =>
    match (Text.extension? path.toList).map String.ofList with
    | some "yaml" | some "yml" => ofYaml text
    | some "json" => ofJson text
    | ext => throw (.unsupportedFormat (ext.getD ""))

end RdfDataset.Settings
