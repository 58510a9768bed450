import RdfDataset.Dataset.Query
import RdfDataset.Triple

/-!
# Rules

A rule says that whenever all triples of its premise are in a graph, those of its conclusion are in it too, for every
choice of values for its variables.

* `Dataset.storedRules` reads the rules that a dataset states about its own graphs.
-/

namespace RdfDataset

/-- A triple of terms in which variables stand for any terms. -/
abbrev TriplePattern := Triple Term

structure Rule where
  premise : List TriplePattern
  conclusion : List TriplePattern
  deriving DecidableEq, Repr, Inhabited

/-- What makes a rule unusable.  Rules are counted from zero. -/
inductive RuleError
  | emptyPremise (rule : Nat)
  | unboundVariable (rule : Nat) (name : String)
  | defaultGraph (rule : Nat)
  deriving DecidableEq, Repr

/-- The rule that an error is about. -/
def RuleError.rule : RuleError → Nat
  | .emptyPremise rule | .unboundVariable rule _ | .defaultGraph rule => rule

/-- The wording of an error. -/
def RuleError.message : RuleError → String
  | .emptyPremise rule => s!"Rule {rule} has an empty premise"
  | .unboundVariable rule name => s!"Rule {rule} concludes with ?{name}, which its premise never binds"
  | .defaultGraph rule => s!"Rule {rule} uses the default graph as a pattern term"

namespace Dataset

variable [Arrangement]

/-- The triples of a graph as patterns. -/
def formula (d : Dataset) (graph : Term) : List TriplePattern :=
  (d.matching { graph := some graph }).map fun q => ⟨q.subject, q.predicate, q.object⟩

/-- One rule for every statement in the default graph that one graph implies another. -/
def storedRules (d : Dataset) : List Rule :=
  let implications :=
    d.matching { predicate := some (.iri Vocabulary.Log.implies), graph := some .defaultGraph }
  implications.map fun q => ⟨d.formula q.subject, d.formula q.object⟩

end Dataset

end RdfDataset
