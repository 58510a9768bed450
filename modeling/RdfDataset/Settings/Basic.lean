import RdfDataset.Term.Basic
import RdfDataset.Text.Quoted

/-!
# Settings of a dataset

How a dataset labels new blank nodes, and whether it drops levels of an index that have become empty.

* `Settings.check` refuses a beginning of labels that is itself no label, since numbers are appended to it.
-/

namespace RdfDataset

structure Settings where
  blankNodePrefix : String := "b"
  pruneEmptyLevels : Bool := true
  deriving DecidableEq, Repr, Inhabited

/-- Why settings are refused. -/
inductive SettingsError
  | io
  | yaml
  | json
  | unsupportedFormat (extension : String)
  | invalidLabel (label : String)
  deriving DecidableEq, Repr

/-- The wording of an error. -/
def SettingsError.message : SettingsError → String
  | .io => "I/O error"
  | .yaml => "YAML error"
  | .json => "JSON error"
  | .unsupportedFormat ext => s!"Unsupported config format: {ext}"
  | .invalidLabel label =>
    s!"Invalid config: blank_node_prefix {Text.quote label} is not a valid blank node label"

/-- Settings whose labels are blank node labels. -/
def Settings.check (settings : Settings) : Except SettingsError Unit :=
  if Text.isBlankLabel settings.blankNodePrefix.toList then .ok ()
  else .error (.invalidLabel settings.blankNodePrefix)

end RdfDataset
