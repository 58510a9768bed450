import RdfDataset.Dataset.Basic

/-!
# Queries

* `matching` lists the quads of a pattern, `count` counts them, `contains` looks for one quad.
* `any` and `every` test the quads of a pattern; `every` asks for at least one of them.
* `subjects`, `predicates`, `objects` and `graphNames` list the terms in one position of these quads, each once.
-/

namespace RdfDataset.Dataset

variable [Arrangement]

/-- The quad of some numbers, if all of them name terms. -/
def resolveQuad? (d : Dataset) (graph : Nat) (t : Triple Nat) : Option Quad := do
  let s ← d.terms.resolve? t.subject
  let p ← d.terms.resolve? t.predicate
  let o ← d.terms.resolve? t.object
  let g ← d.terms.resolve? graph
  return ⟨s, p, o, g⟩

/-- The quads of a pattern. -/
def matching (d : Dataset) (pattern : Pattern) : List Quad :=
  match d.lookUp pattern with
  | none => []
  | some ids => (d.matchingIds ids).filterMap fun (graph, t) => d.resolveQuad? graph t

/-- All quads. -/
def toList (d : Dataset) : List Quad :=
  d.matching {}

def contains (d : Dataset) (q : Quad) : Bool :=
  match d.quadIds? q with
  | some (graph, t) => (d.graphs[graph]?.map fun index => index.contains t).getD false
  | none => false

/-- How many quads a pattern has. -/
def count (d : Dataset) (pattern : Pattern) : Nat :=
  match d.lookUp pattern with
  | none => 0
  | some ids => total <| (d.indices ids.graph).map fun (_, index) => index.count ids.triple

/-- Whether some quad of a pattern passes a test. -/
def any (d : Dataset) (pattern : Pattern) (test : Quad → Bool) : Bool :=
  (d.matching pattern).any test

/-- Whether a pattern has quads and all of them pass a test. -/
def every (d : Dataset) (pattern : Pattern) (test : Quad → Bool) : Bool :=
  let quads := d.matching pattern
  !quads.isEmpty && quads.all test

/-- The terms of some numbers, each once and in the order in which they come first. -/
def distinctTerms (d : Dataset) (ids : List Nat) : List Term :=
  ids.eraseDups.filterMap d.terms.resolve?

/-- What stands in one position of the triples of a pattern, over the graphs of the pattern. -/
def enumerate (d : Dataset) (pattern : Pattern) (pick : GraphIndex → Triple (Option Nat) → List Nat) : List Term :=
  match d.lookUp pattern with
  | none => []
  | some ids => d.distinctTerms ((d.indices ids.graph).flatMap fun (_, index) => pick index ids.triple)

/-- The subjects of the quads of a pattern, whose own subject does not count. -/
def subjects (d : Dataset) (pattern : Pattern) : List Term :=
  d.enumerate { pattern with subject := none } fun index ids => index.subjects ids.predicate ids.object

/-- The predicates of the quads of a pattern, whose own predicate does not count. -/
def predicates (d : Dataset) (pattern : Pattern) : List Term :=
  d.enumerate { pattern with predicate := none } fun index ids => index.predicates ids.subject ids.object

/-- The objects of the quads of a pattern, whose own object does not count. -/
def objects (d : Dataset) (pattern : Pattern) : List Term :=
  d.enumerate { pattern with object := none } fun index ids => index.objects ids.subject ids.predicate

/-- The graphs of the quads of a pattern, whose own graph does not count. -/
def graphNames (d : Dataset) (pattern : Pattern) : List Term :=
  match d.lookUp { pattern with graph := none } with
  | none => []
  | some ids =>
    let graphs := d.graphs.toList.filter fun (_, index) => !(index.matching ids.triple).isEmpty
    graphs.filterMap fun (graph, _) => d.terms.resolve? graph

end RdfDataset.Dataset
