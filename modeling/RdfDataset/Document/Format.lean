import RdfDataset.Text.FileName

/-!
# Document formats

* `Format.ofExtension?` and `Format.ofPath?` tell the format of a file from its name.
* `Format.hasGraphs` says whether a document can hold more than one graph.
-/

namespace RdfDataset

inductive Format
  | turtle
  | nTriples
  | nQuads
  | triG
  deriving DecidableEq, Repr

namespace Format

/-- The format that a file extension stands for, in letters of either case. -/
def ofExtension? (ext : String) : Option Format :=
  match String.ofList (ext.toList.map Char.toLower) with
  | "ttl" => some .turtle
  | "nt" => some .nTriples
  | "nq" => some .nQuads
  | "trig" => some .triG
  | _ => none

/-- The format of a file, by the extension of its name. -/
def ofPath? (path : String) : Option Format :=
  (Text.extension? path.toList).bind fun ext => ofExtension? (String.ofList ext)

/-- Whether the quads of a document can be in different graphs. -/
def hasGraphs : Format → Bool
  | .nQuads | .triG => true
  | .turtle | .nTriples => false

end Format

end RdfDataset
