import RdfDataset.Term.Basic

/-!
# Terms as text

How terms and quads are shown, which is also how the line-based formats write them.

* `Term.display` puts IRIs into angle brackets and literals into quotation marks, with the four escapes of
  `escapeLiteral`.
* `Quad.display` ends with a full stop.
-/

namespace RdfDataset

/-- Quotation marks, backslashes and line ends are escaped in the value of a literal, and nothing else. -/
def escapeLiteral : List Char → List Char
  | [] => []
  | '"' :: cs => '\\' :: '"' :: escapeLiteral cs
  | '\\' :: cs => '\\' :: '\\' :: escapeLiteral cs
  | '\n' :: cs => '\\' :: 'n' :: escapeLiteral cs
  | '\r' :: cs => '\\' :: 'r' :: escapeLiteral cs
  | c :: cs => c :: escapeLiteral cs

/-- An IRI in angle brackets. -/
def displayIri (text : String) : List Char :=
  '<' :: text.toList ++ ['>']

/-- A literal: its value in quotation marks, then its tag or its datatype. -/
def Literal.display (l : Literal) : List Char :=
  '"' :: escapeLiteral l.value.toList ++ '"' ::
    match l with
    | .plain _ => []
    | .tagged _ tag => '@' :: tag.toList
    | .typed _ datatype _ => '^' :: '^' :: displayIri datatype

/-- The text of a term.  A quoted quad shows its graph unless that is the default graph. -/
def Term.display : Term → List Char
  | .iri text => displayIri text
  | .blank label => '_' :: ':' :: label.toList
  | .literal l => l.display
  | .var name => '?' :: name.toList
  | .defaultGraph => "DEFAULT".toList
  | .quoted s p o g =>
    "<< ".toList ++ s.display ++ ' ' :: p.display ++ ' ' :: o.display
      ++ (if g.isDefaultGraph then [] else ' ' :: g.display) ++ " >>".toList

/-- The text of a quad. -/
def Quad.display (q : Quad) : List Char :=
  q.subject.display ++ ' ' :: q.predicate.display ++ ' ' :: q.object.display
    ++ (if q.graph.isDefaultGraph then [] else ' ' :: q.graph.display) ++ " .".toList

end RdfDataset
