import RdfDataset.Reasoning.Basic

/-!
# Rules of RDF Schema

Six rules about classes and properties, given as ordinary rules.

* `RdfsRule.toRule` is the rule of each, `RdfsRule.all` the usual selection.
-/

namespace RdfDataset

inductive RdfsRule
  | subClassOfTransitive
  | subPropertyOfTransitive
  | domainInference
  | rangeInference
  | typeInheritance
  | subPropertyInheritance
  deriving DecidableEq, Repr

namespace RdfsRule

open Vocabulary

/-- All rules of RDF Schema. -/
def all : List RdfsRule :=
  [.subClassOfTransitive, .subPropertyOfTransitive, .domainInference, .rangeInference, .typeInheritance,
    .subPropertyInheritance]

/-- A pattern of two variables with a predicate between them. -/
def pattern (subject : String) (predicate : Term) (object : String) : TriplePattern :=
  ⟨.var subject, predicate, .var object⟩

/-- The rule as patterns. -/
def toRule : RdfsRule → Rule
  | .subClassOfTransitive =>
    ⟨[pattern "a" (.iri Rdfs.subClassOf) "b", pattern "b" (.iri Rdfs.subClassOf) "c"],
      [pattern "a" (.iri Rdfs.subClassOf) "c"]⟩
  | .subPropertyOfTransitive =>
    ⟨[pattern "a" (.iri Rdfs.subPropertyOf) "b", pattern "b" (.iri Rdfs.subPropertyOf) "c"],
      [pattern "a" (.iri Rdfs.subPropertyOf) "c"]⟩
  | .domainInference =>
    ⟨[pattern "p" (.iri Rdfs.domain) "c", pattern "x" (.var "p") "y"], [pattern "x" (.iri Rdf.type) "c"]⟩
  | .rangeInference =>
    ⟨[pattern "p" (.iri Rdfs.range) "c", pattern "x" (.var "p") "y"], [pattern "y" (.iri Rdf.type) "c"]⟩
  | .typeInheritance =>
    ⟨[pattern "x" (.iri Rdf.type) "a", pattern "a" (.iri Rdfs.subClassOf) "b"],
      [pattern "x" (.iri Rdf.type) "b"]⟩
  | .subPropertyInheritance =>
    ⟨[pattern "p" (.iri Rdfs.subPropertyOf) "q", pattern "x" (.var "p") "y"], [pattern "x" (.var "q") "y"]⟩

end RdfsRule

/-- Applies rules of RDF Schema to every graph. -/
def Dataset.reasonRdfs [Arrangement] (d : Dataset) (rules : List RdfsRule) : Except RuleError ReasoningStats × Dataset :=
  d.reason (rules.map RdfsRule.toRule)

end RdfDataset
