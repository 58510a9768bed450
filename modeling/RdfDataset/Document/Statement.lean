import RdfDataset.Document.Error

/-!
# Statements

What is written is not a quad but a statement: the parts of a quad, each one of the things that can stand in its place.

* `Quad.toStatement` gives the statement of a quad, or says which term stands in the wrong place.
* `Node.write` and `Statement.write` are the text of a statement, without the full stop.
-/

namespace RdfDataset

namespace Document

/-! ### Parts -/

/-- What a graph can be called. -/
inductive Name
  | iri (text : String)
  | blank (label : String)
  deriving DecidableEq, Repr

/-- A literal, by what stands behind its value.  No datatype does if it is that of strings. -/
inductive Value
  | simple (value : String)
  | tagged (value language : String)
  | typed (value datatype : String) (ne_string : ¬datatype = Vocabulary.Xsd.string)
  deriving DecidableEq, Repr

/-- A subject or an object. -/
inductive Node
  | name (n : Name)
  | literal (v : Value)
  | triple (subject : Node) (predicate : String) (object : Node)
  deriving DecidableEq, Repr

/-- A triple and the name of its graph, none for the default graph. -/
structure Statement where
  subject : Node
  predicate : String
  object : Node
  graph : Option Name
  deriving DecidableEq, Repr

/-- Whether a node is a quoted triple. -/
def Node.isTriple : Node → Bool
  | .triple .. => true
  | _ => false

/-! ### Text -/

/-- A character between quotation marks. -/
def writeChar : Char → List Char
  | '\n' => ['\\', 'n']
  | '\r' => ['\\', 'r']
  | '"' => ['\\', '"']
  | '\\' => ['\\', '\\']
  | c => [c]

/-- A text between quotation marks. -/
def writeString (text : String) : List Char :=
  '"' :: text.toList.flatMap writeChar ++ ['"']

/-- An IRI between angle brackets. -/
def writeIri (text : String) : List Char :=
  '<' :: text.toList ++ ['>']

def Name.write : Name → List Char
  | .iri text => writeIri text
  | .blank label => '_' :: ':' :: label.toList

def Value.write : Value → List Char
  | .simple value => writeString value
  | .tagged value language => writeString value ++ '@' :: language.toList
  | .typed value datatype _ => writeString value ++ '^' :: '^' :: writeIri datatype

def Node.write : Node → List Char
  | .name n => n.write
  | .literal v => v.write
  | .triple s p o => "<< ".toList ++ (s.write ++ ' ' :: writeIri p ++ ' ' :: o.write) ++ " >>".toList

namespace Statement

/-- Subject, predicate and object with spaces between them. -/
def writeTriple (t : Statement) : List Char :=
  t.subject.write ++ ' ' :: writeIri t.predicate ++ ' ' :: t.object.write

/-- The triple, and the name of its graph unless that is the default graph. -/
def write (t : Statement) : List Char :=
  match t.graph with
  | none => t.writeTriple
  | some name => t.writeTriple ++ ' ' :: name.write

end Statement

end Document

open Document

/-! ### Terms in their places -/

/-- What is written of a literal: its tag, or else its datatype unless that is the datatype of strings. -/
def Literal.toValue (l : Literal) : Value :=
  match l.tag with
  | some tag => .tagged l.value tag
  | none => if h : l.datatype = Vocabulary.Xsd.string then .simple l.value else .typed l.value l.datatype h

namespace Term

/-- A predicate has to be an IRI. -/
def toPredicate : Term → Except WriteError String
  | .iri text => .ok text
  | t => .error (.unsupported t .predicate)

/-- A graph is the default graph or named by an IRI or a blank node. -/
def toGraph : Term → Except WriteError (Option Name)
  | .defaultGraph => .ok none
  | .iri text => .ok (some (.iri text))
  | .blank label => .ok (some (.blank label))
  | t => .error (.unsupported t .graph)

/-- A quoted triple belongs to the default graph. -/
def checkQuotedGraph : Term → Except WriteError Unit
  | .defaultGraph => .ok ()
  | t => .error (.unsupported t .quotedGraph)

/-- A subject or object is an IRI, a blank node or a quoted triple all of whose terms can be written.  An object can
also be a literal. -/
def toNode (place : Place) : Term → Except WriteError Node
  | .iri text => .ok (.name (.iri text))
  | .blank label => .ok (.name (.blank label))
  | .quoted s p o g => do
    g.checkQuotedGraph
    let predicate ← p.toPredicate
    let subject ← s.toNode .subject
    let object ← o.toNode .object
    return .triple subject predicate object
  | .literal l => if place = .object then .ok (.literal l.toValue) else .error (.unsupported (.literal l) place)
  | t => .error (.unsupported t place)

end Term

/-- The statement of a quad, or the first term that cannot be written in its place, in the order graph, predicate,
subject, object. -/
def Quad.toStatement (q : Quad) : Except WriteError Statement := do
  let graph ← q.graph.toGraph
  let predicate ← q.predicate.toPredicate
  let subject ← q.subject.toNode .subject
  let object ← q.object.toNode .object
  return { subject, predicate, object, graph }

end RdfDataset
