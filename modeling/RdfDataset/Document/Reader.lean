import RdfDataset.Dataset.Basic
import RdfDataset.Document.Format
import RdfDataset.Document.Line
import RdfDataset.Document.Turtle.Block

/-!
# Reading documents

* `Format.read` gives the quads of a document in order, or the first error.
* `Dataset.load` reads a whole document before it adds the quads and counts the new ones.
* `Dataset.loadFile` does the same with a file, whose name tells the format.

A call that fails returns the dataset that it leaves behind as well.
-/

namespace RdfDataset

/-- The quads of a document.  Relative references are resolved against the base, which has to be an absolute IRI. -/
def Format.read (format : Format) (text : String) (base : Option String) : Except ReadError (List Quad) := do
  let base ← base.mapM fun base => (Iri.readAbsolute base.toList).mapError .invalidBase
  match format with
  | .nTriples => Document.readLines false text.toList
  | .nQuads => Document.readLines true text.toList
  | .turtle => Document.Turtle.readDocument Document.Turtle.readTurtleBlock base text.toList
  | .triG => Document.Turtle.readDocument Document.Turtle.readTrigBlock base text.toList

namespace Dataset

variable [Arrangement]

/-- Adds the quads of a document and counts the new ones. -/
def load (d : Dataset) (format : Format) (text : String) (base : Option String) : Except ReadError Nat × Dataset :=
  match format.read text base with
  | .error e => (.error e, d)
  | .ok quads =>
    let (count, d) := d.insertMany quads
    (.ok count, d)

/-- Adds the quads of a file, given by its name and, if it exists, its text. -/
def loadFile (d : Dataset) (path : String) (text : Option String) (base : Option String) :
    Except ReadError Nat × Dataset :=
  match Format.ofPath? path, text with
  | none, _ => (.error (.unknownFormat path), d)
  | some _, none => (.error .missingFile, d)
  | some format, some text => d.load format text base

end Dataset

end RdfDataset
