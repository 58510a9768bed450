import RdfDataset.Iri.Basic
import RdfDataset.LanguageTag
import RdfDataset.Text.NameChar
import RdfDataset.Vocabulary

/-!
# Terms and quads

A quad consists of a subject, a predicate, an object and the graph that it belongs to.  Each of these is a term: an
IRI, a blank node, a literal, a variable, the default graph, or a quoted quad.

* `Term.iri?`, `Term.blank?`, `Term.var?`, `Literal.tagged?` and `Literal.typed?` build terms and refuse invalid
  parts; the constructors themselves refuse nothing.
-/

namespace RdfDataset

/-- Why a term cannot be built, or an id not be read. -/
inductive TermError
  | iri (text : String) (reason : Iri.Error)
  | blank (label : String)
  | language (reason : LanguageTag.Error)
  | variableName (name : String)
  | id (text : String)
  deriving DecidableEq, Repr

/-- The wording of an error. -/
def TermError.message : TermError → String
  | .iri text reason => s!"Invalid IRI: {text}: {reason.message}"
  | .blank label => s!"Invalid blank node: {label}: The blank node identifier is invalid"
  | .language reason => s!"Invalid literal: {reason.message}"
  | .variableName name => s!"Invalid variable: {name}: The variable name is invalid"
  | .id text => s!"Invalid term id: {text}"

/-- A literal has a value, and a language tag or a datatype.  The literals of the datatype of strings are the plain
ones, so that no typed literal has this datatype. -/
inductive Literal
  | plain (value : String)
  | tagged (value tag : String)
  | typed (value datatype : String) (ne_string : datatype ≠ Vocabulary.Xsd.string)
  deriving DecidableEq, Repr, Inhabited

inductive Term
  | iri (text : String)
  | blank (label : String)
  | literal (l : Literal)
  | var (name : String)
  | defaultGraph
  | quoted (subject predicate object graph : Term)
  deriving DecidableEq, Repr, Inhabited

/-- A statement and the graph in which it is made. -/
structure Quad where
  subject : Term
  predicate : Term
  object : Term
  graph : Term := .defaultGraph
  deriving DecidableEq, Repr, Inhabited

/-- Refuses what is not an absolute IRI. -/
def checkIri (text : String) : Except TermError Unit :=
  (Iri.check text.toList).mapError (.iri text)

/-- Refuses what is not a blank node label. -/
def checkBlank (label : String) : Except TermError Unit :=
  if Text.isBlankLabel label.toList then .ok () else .error (.blank label)

/-- Refuses what is not a variable name. -/
def checkVariable (name : String) : Except TermError Unit :=
  if Text.isVariableName name.toList then .ok () else .error (.variableName name)

namespace Literal

def value : Literal → String
  | .plain value | .tagged value _ | .typed value _ _ => value

def tag : Literal → Option String
  | .tagged _ tag => some tag
  | _ => none

/-- The datatype; plain and tagged literals have one as well. -/
def datatype : Literal → String
  | .plain _ => Vocabulary.Xsd.string
  | .tagged _ _ => Vocabulary.Rdf.langString
  | .typed _ datatype _ => datatype

/-- A literal of a datatype, which is a plain one if that is the datatype of strings. -/
def ofDatatype (value datatype : String) : Literal :=
  if h : datatype = Vocabulary.Xsd.string then .plain value else .typed value datatype h

/-- A literal of a datatype that has to be an IRI. -/
def typed? (value datatype : String) : Except TermError Literal := do
  checkIri datatype
  return ofDatatype value datatype

/-- A literal with a language tag, which is kept in lower case. -/
def tagged? (value tag : String) : Except TermError Literal :=
  match LanguageTag.read tag with
  | .ok tag => .ok (.tagged value tag)
  | .error reason => .error (.language reason)

end Literal

namespace Term

def iri? (text : String) : Except TermError Term := do
  checkIri text
  return .iri text

def blank? (label : String) : Except TermError Term := do
  checkBlank label
  return .blank label

def var? (name : String) : Except TermError Term := do
  checkVariable name
  return .var name

def isIri : Term → Bool
  | .iri _ => true
  | _ => false

def isBlank : Term → Bool
  | .blank _ => true
  | _ => false

def isLiteral : Term → Bool
  | .literal _ => true
  | _ => false

def isVar : Term → Bool
  | .var _ => true
  | _ => false

def isDefaultGraph : Term → Bool
  | .defaultGraph => true
  | _ => false

def isQuoted : Term → Bool
  | .quoted .. => true
  | _ => false

end Term

namespace Quad

/-- The quad as a term. -/
def quote (q : Quad) : Term :=
  .quoted q.subject q.predicate q.object q.graph

end Quad

end RdfDataset
