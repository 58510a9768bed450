import RdfDataset.Term.Display

/-!
# Errors of documents

Why a document cannot be read, and why quads cannot be written.
-/

namespace RdfDataset

/-- Why a document cannot be read. -/
inductive ReadError
  | malformed
  | term (reason : TermError)
  | invalidBase (reason : Iri.Error)
  | unknownFormat (path : String)
  | missingFile
  deriving DecidableEq, Repr

/-- The wording of an error. -/
def ReadError.message : ReadError → String
  | .malformed => "Malformed document"
  | .term reason => s!"Invalid term: {reason.message}"
  | .invalidBase reason => s!"Invalid base IRI: {reason.message}"
  | .unknownFormat path => s!"Unknown RDF format for {path}"
  | .missingFile => "No such file"

/-- The places in which a term can stand when it is written. -/
inductive Place
  | subject
  | predicate
  | object
  | graph
  | quotedGraph
  deriving DecidableEq, Repr

/-- How a place is named in a message. -/
def Place.name : Place → String
  | .subject => "subject"
  | .predicate => "predicate"
  | .object => "object"
  | .graph => "graph"
  | .quotedGraph => "graph of a quoted triple"

/-- Why quads cannot be written. -/
inductive WriteError
  | unsupported (term : Term) (place : Place)
  | namedGraph (graph : Term)
  | unknownFormat (path : String)
  deriving DecidableEq, Repr

/-- The wording of an error. -/
def WriteError.message : WriteError → String
  | .unsupported term place => s!"Cannot serialize {String.ofList term.display} as {place.name}"
  | .namedGraph graph =>
    s!"Quad in named graph {String.ofList graph.display} cannot be written as a triple"
  | .unknownFormat path => s!"Unknown RDF format for {path}"

end RdfDataset
