import RdfDataset.Document.Error
import RdfDataset.Document.Report
import RdfDataset.Document.Token
import RdfDataset.Triple

/-!
# Documents of lines

In N-Triples and N-Quads every statement stands on a line of its own, with all IRIs written in full.

* `readLine` reads one line: a statement, or nothing but a comment.
* `convertLine` makes a quad of what is on a line.
* `readLines` reads a whole document; the first line that cannot be read is the error.
-/

namespace RdfDataset.Document

def dropBlanks (cs : List Char) : List Char :=
  cs.dropWhile fun c => c == ' ' || c == '\t'

/-- An IRI or a blank node. -/
def readNode : List Char → Option (Term × List Char)
  | '_' :: ':' :: cs => (readLabel cs).map fun (label, rest) => (.blank label, rest)
  | cs => (readIri none cs).map fun (iri, rest) => (.iri iri, rest)

/-- A term that can be a subject; `readQuoted` reads a quoted triple behind its opening brackets. -/
def readSubject (readQuoted : List Char → Option (Term × List Char)) : List Char → Option (Term × List Char)
  | '<' :: '<' :: cs => readQuoted cs
  | cs => readNode cs

/-- A term that can be an object. -/
def readObject (readQuoted : List Char → Option (Term × List Char)) : List Char → Option (Term × List Char)
  | '"' :: cs => do
    let (value, cs) ← readString '"' cs
    let (l, cs) ← readLiteralEnd dropBlanks (readIri none) value cs
    return (.literal l, cs)
  | cs => readSubject readQuoted cs

/-- Three terms with blanks between and behind them. -/
def readTriple (readQuoted : List Char → Option (Term × List Char)) (cs : List Char) :
    Option (Triple Term × List Char) := do
  let (s, cs) ← readSubject readQuoted cs
  let (p, cs) ← readIri none (dropBlanks cs)
  let (o, cs) ← readObject readQuoted (dropBlanks cs)
  return (⟨s, .iri p, o⟩, dropBlanks cs)

/-- A quoted triple behind its opening brackets, of which at most `depth` may be open. -/
def readQuoted : Nat → List Char → Option (Term × List Char)
  | 0, _ => none
  | depth + 1, cs => do
    let (t, cs) ← readTriple (readQuoted depth) (dropBlanks cs)
    match cs with
    | '>' :: '>' :: rest => some (.quoted t.subject t.predicate t.object .defaultGraph, rest)
    | _ => none

/-- Whether nothing but a comment is left of a line. -/
def isBlankLine (cs : List Char) : Bool :=
  match dropBlanks cs with
  | [] | '#' :: _ => true
  | _ => false

/-- The name of a graph, if there is one. -/
def readGraphName : List Char → Option (Term × List Char)
  | '.' :: cs => some (.defaultGraph, '.' :: cs)
  | cs => readNode cs

/-- The statement on a line, if there is one. -/
def readLine (hasGraphs : Bool) (line : List Char) : Option (Option Report) :=
  if isBlankLine line then some none
  else do
    let (t, cs) ← readTriple (readQuoted maxDepth) (dropBlanks line)
    let (graph, cs) ← if hasGraphs then readGraphName cs else some (.defaultGraph, cs)
    match dropBlanks cs with
    | '.' :: cs => if isBlankLine cs then some (some ⟨t.subject, t.predicate, t.object, graph⟩) else none
    | _ => none

/-- The quads of a line, of which there is one or none. -/
def convertLine (hasGraphs : Bool) (line : List Char) : Except ReadError (List Quad) :=
  match readLine hasGraphs line with
  | none => .error .malformed
  | some none => .ok []
  | some (some r) => (r.convert.mapError .term).map fun q => [q]

/-- The quads of a document in order. -/
def readLines (hasGraphs : Bool) (text : List Char) : Except ReadError (List Quad) :=
  ((Text.splitOn isLineEnd text).mapM (convertLine hasGraphs)).map List.flatten

end RdfDataset.Document
