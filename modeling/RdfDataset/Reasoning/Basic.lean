import RdfDataset.Reasoning.Closure

/-!
# Reasoning over a dataset

Rules are applied to every graph on its own, or to one graph, until nothing new follows.  What they conclude is added
to the graph whose triples satisfy the premise.

* `Dataset.reason` and `Dataset.reasonIn` give counts of what was done, or the first unusable rule.
-/

namespace RdfDataset

/-- Counts of one run: the rules used, the graphs closed, the triples added and the tries made. -/
structure ReasoningStats where
  rules : Nat := 0
  graphs : Nat := 0
  derived : Nat := 0
  propagations : Nat := 0
  deriving DecidableEq, Repr, Inhabited

namespace Dataset

variable [Arrangement]

/-- Closes one graph, if the dataset has it, and adds to the counts. -/
def closeGraph (rules : List CompiledRule) (stats : ReasoningStats) (d : Dataset) (graph : Nat) :
    ReasoningStats × Dataset :=
  match d.graphs[graph]? with
  | none => (stats, d)
  | some index =>
    let closure := Engine.closeGraph rules index
    ({ stats with
        graphs := stats.graphs + 1
        derived := stats.derived + closure.derived
        propagations := stats.propagations + closure.propagations },
      { d with graphs := d.graphs.insert graph closure.index })

/-- Closes some graphs, one after the other. -/
def closeGraphs (rules : List CompiledRule) (d : Dataset) (graphs : List Nat) : ReasoningStats × Dataset :=
  let (stats, d) :=
    graphs.foldl (fun (stats, d) graph => d.closeGraph rules stats graph) ({ rules := rules.length }, d)
  (stats, { d with knownSize := if stats.derived > 0 then none else d.knownSize })

/-- Compiles rules and closes the graphs that are chosen after that. -/
def reasonOver (d : Dataset) (rules : List Rule) (choose : Dataset → List Nat) :
    Except RuleError ReasoningStats × Dataset :=
  let (compiled, terms) := compileRules rules d.terms
  let d := { d with terms }
  match compiled with
  | .error e => (.error e, d)
  | .ok compiled =>
    let (stats, d) := d.closeGraphs compiled (choose d)
    (.ok stats, d)

/-- Applies rules to every graph. -/
def reason (d : Dataset) (rules : List Rule) : Except RuleError ReasoningStats × Dataset :=
  d.reasonOver rules fun d => d.graphs.keys

/-- Applies rules to one graph. -/
def reasonIn (d : Dataset) (rules : List Rule) (graph : Term) : Except RuleError ReasoningStats × Dataset :=
  d.reasonOver rules fun d => (d.terms.find? graph).toList

end Dataset

end RdfDataset
