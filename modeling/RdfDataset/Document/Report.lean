import RdfDataset.Term.Basic

/-!
# Reports

What a reader finds in a document is a report: the terms of a statement as they are written there, none of which has
been looked at.  Quads are made of reports by building each term again, part by part, with the functions that refuse
invalid parts.

* `Report.convert` gives the quad of a report, or says what the first invalid part is, in the order graph, subject,
  predicate, object.
-/

namespace RdfDataset

/-- The literal of a reported one. -/
def Literal.convert : Literal → Except TermError Literal
  | .plain value => .ok (.plain value)
  | .tagged value tag => tagged? value tag
  | .typed value datatype _ => typed? value datatype

/-- The term of a reported one.  The parts of a quoted quad come in the order graph, subject, predicate, object. -/
def Term.convert : Term → Except TermError Term
  | .iri text => iri? text
  | .blank label => blank? label
  | .literal l => l.convert.map .literal
  | .var name => var? name
  | .defaultGraph => .ok .defaultGraph
  | .quoted s p o g => do
    let g ← g.convert
    let s ← s.convert
    let p ← p.convert
    let o ← o.convert
    return .quoted s p o g

namespace Document

/-- A statement as it is found in a document. -/
structure Report where
  subject : Term
  predicate : Term
  object : Term
  graph : Term := .defaultGraph
  deriving DecidableEq, Repr, Inhabited

/-- The quad of a report. -/
def Report.convert (r : Report) : Except TermError Quad := do
  let graph ← r.graph.convert
  let subject ← r.subject.convert
  let predicate ← r.predicate.convert
  let object ← r.object.convert
  return { subject, predicate, object, graph }

end Document

end RdfDataset
