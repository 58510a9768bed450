import RdfDataset.Dataset.Query
import RdfDataset.Document.Format
import RdfDataset.Document.Statement

/-!
# Writing documents

* `Document.writeGroups` writes subjects, predicates and graphs only where they change; formats of lines write each
  statement on a line of its own.
* `Format.write` writes quads in order; nothing is written if one of them cannot be.
-/

namespace RdfDataset

/-- The first of some quads that is not in the default graph is an error, if a format has no other graphs. -/
def Format.checkGraphs (format : Format) (quads : List Quad) : Except WriteError Unit :=
  if format.hasGraphs then .ok ()
  else
    match quads.find? (!·.graph.isDefaultGraph) with
    | some q => .error (.namedGraph q.graph)
    | none => .ok ()

/-! ### Layout -/

namespace Document.Statement

/-- The first statement of a graph, behind the name of the graph and an opening brace if it has a name. -/
def openGraph (t : Statement) : List Char :=
  match t.graph with
  | none => t.writeTriple
  | some name => name.write ++ " \x7b\n\t".toList ++ t.writeTriple

/-- The end of a graph behind its last statement. -/
def closeGraph (last : Statement) : List Char :=
  " .\n".toList ++ if last.graph.isSome then "\x7d\n".toList else []

/-- A statement of the same graph as the last one.  A subject that is a quoted triple is always written again. -/
def writeNext (indent : List Char) (last t : Statement) : List Char :=
  if last.subject = t.subject ∧ !t.subject.isTriple then
    if last.predicate = t.predicate then " , ".toList ++ t.object.write
    else " ;\n".toList ++ indent ++ '\t' :: writeIri t.predicate ++ ' ' :: t.object.write
  else " .\n".toList ++ indent ++ t.writeTriple

/-- The statements behind the last one that has been written. -/
def writeAfter (indent : List Char) (last : Statement) : List Statement → List Char
  | [] => last.closeGraph
  | t :: statements =>
    (if last.graph = t.graph then writeNext indent last t else last.closeGraph ++ t.openGraph)
      ++ writeAfter indent t statements

/-- Statements in groups of the same graph, subject and predicate. -/
def writeGroups (indent : List Char) : List Statement → List Char
  | [] => []
  | t :: statements => t.openGraph ++ writeAfter indent t statements

end Document.Statement

/-! ### Documents -/

/-- The text of some statements. -/
def Format.text : Format → List Document.Statement → List Char
  | .nTriples => List.flatMap fun t => t.writeTriple ++ " .\n".toList
  | .nQuads => List.flatMap fun t => t.write ++ " .\n".toList
  | .turtle => Document.Statement.writeGroups []
  | .triG => Document.Statement.writeGroups ['\t']

/-- Writes quads in order. -/
def Format.write (format : Format) (quads : List Quad) : Except WriteError String := do
  format.checkGraphs quads
  let statements ← quads.mapM Quad.toStatement
  return String.ofList (format.text statements)

namespace Dataset

variable [Arrangement]

/-- Writes all quads of a dataset. -/
def write (d : Dataset) (format : Format) : Except WriteError String :=
  format.write d.toList

/-- The text that a file of some name has to hold, whose name tells the format. -/
def writeFile (d : Dataset) (path : String) : Except WriteError String :=
  match Format.ofPath? path with
  | none => .error (.unknownFormat path)
  | some format => d.write format

end Dataset

end RdfDataset
