import RdfDataset.Reasoning.Premise

/-!
# Closing a graph under rules

First every rule is evaluated against the graph.  From then on only new triples matter: each is tried in the premise
atoms that its conclusion is linked to, until nothing is left to try.

* `Closure.seed` is the first round, `Closure.propagate` the rest, `closeGraph` both.  Every evaluation begins with an
  environment of its own.
* `Engine` is a run that keeps one environment for each rule and uses it again and again; `Engine.closeGraph` is what
  datasets are closed with.
* A triple is added at most once, and only finitely many can be made of the numbers at hand; `stepBound` bounds the
  number of tries accordingly.
-/

namespace RdfDataset

/-- A new triple to be tried in a premise atom. -/
structure Task where
  link : Link
  fact : Triple Nat
  deriving DecidableEq, Repr

variable [Arrangement]

/-- A graph on its way to being closed. -/
structure Closure where
  index : GraphIndex
  /-- What is left to try; the newest comes first. -/
  tasks : List Task := []
  /-- How many triples have been added. -/
  derived : Nat := 0
  /-- How many tries have been made. -/
  propagations : Nat := 0

namespace Closure

/-- Adds a conclusion, and the tasks that follow from it if it is new. -/
def assert (c : Closure) (conclusion : Conclusion) (fact : Triple Nat) : Closure :=
  let (isNew, index) := c.index.insert fact
  if isNew then
    { c with
      index
      tasks := (conclusion.links.map (⟨·, fact⟩)).reverse ++ c.tasks
      derived := c.derived + 1 }
  else c

/-- Adds conclusions in order. -/
def assertAll (c : Closure) (drawn : List (Conclusion × Triple Nat)) : Closure :=
  drawn.foldl (fun c (conclusion, fact) => c.assert conclusion fact) c

/-- Evaluates every rule once. -/
def seed (rules : List CompiledRule) (c : Closure) : Closure :=
  rules.foldl (fun c rule =>
    c.assertAll (solve c.index rule.conclusion rule.premise (.unbound rule.variableCount)).1) c

/-- Tries a triple in a premise atom: the other atoms of the premise have to be in the graph. -/
def follow (rules : List CompiledRule) (c : Closure) (task : Task) : Closure :=
  match rules[task.link.rule]? with
  | none => c
  | some rule =>
    let (fits, env, _) := (Env.unbound rule.variableCount).bind task.link.base task.fact
    if fits then c.assertAll (solve c.index rule.conclusion task.link.others env).1 else c

/-- Does the tasks that are left, the newest first. -/
def propagate (rules : List CompiledRule) : Nat → Closure → Closure
  | 0, c => c
  | steps + 1, c =>
    match c.tasks with
    | [] => c
    | task :: tasks =>
      propagate rules steps
        (follow rules { c with tasks, propagations := c.propagations + 1 } task)

end Closure

/-- The number of atoms in all premises. -/
def premiseAtoms (rules : List CompiledRule) : Nat :=
  total <| rules.map fun rule => rule.premise.length

/-- The number of atoms in all premises and conclusions. -/
def allAtoms (rules : List CompiledRule) : Nat :=
  total <| rules.map fun rule => rule.premise.length + rule.conclusion.length

/-- A bound on the tasks: every triple added brings at most one for each premise atom, and its three numbers occur
in the graph or in the rules. -/
def stepBound (rules : List CompiledRule) (index : GraphIndex) : Nat :=
  Nat.pow (3 * index.size + 3 * allAtoms rules) 3 * premiseAtoms rules

/-- Closes a graph under rules. -/
def closeGraph (rules : List CompiledRule) (index : GraphIndex) : Closure :=
  Closure.propagate rules (stepBound rules index) (Closure.seed rules { index })

/-! ### Shared environments -/

/-- A graph on its way to being closed, and one environment for each rule, which all evaluations of the rule share. -/
structure Engine where
  closure : Closure
  bindings : List Env

namespace Engine

/-- A run begins without values of variables. -/
def start (rules : List CompiledRule) (index : GraphIndex) : Engine where
  closure := { index }
  bindings := rules.map fun rule => .unbound rule.variableCount

/-- The environment of a rule. -/
def env (e : Engine) (rule : Nat) : Env :=
  e.bindings[rule]?.getD []

/-- Evaluates a rule in its environment. -/
def seedRule (e : Engine) (rule : CompiledRule) (number : Nat) : Engine :=
  let (drawn, env) := solve e.closure.index rule.conclusion rule.premise (e.env number)
  { closure := e.closure.assertAll drawn
    bindings := e.bindings.set number env }

/-- Evaluates every rule once. -/
def seed (rules : List CompiledRule) (e : Engine) : Engine :=
  rules.zipIdx.foldl (fun e (rule, number) => e.seedRule rule number) e

/-- Tries a triple in a premise atom, in the environment of the rule.  The values that this has entered are taken out
again, whether the atom fits or not. -/
def follow (rules : List CompiledRule) (e : Engine) (task : Task) : Engine :=
  match rules[task.link.rule]? with
  | none => e
  | some rule =>
    let (fits, env, trail) := (e.env task.link.rule).bind task.link.base task.fact
    let (drawn, env) := if fits then solve e.closure.index rule.conclusion task.link.others env else ([], env)
    { closure := e.closure.assertAll drawn
      bindings := e.bindings.set task.link.rule (env.undo trail) }

/-- Does the tasks that are left, the newest first. -/
def propagate (rules : List CompiledRule) : Nat → Engine → Engine
  | 0, e => e
  | steps + 1, e =>
    match e.closure.tasks with
    | [] => e
    | task :: tasks =>
      propagate rules steps
        (follow rules { e with closure := { e.closure with tasks, propagations := e.closure.propagations + 1 } } task)

/-- Closes a graph under rules. -/
def closeGraph (rules : List CompiledRule) (index : GraphIndex) : Closure :=
  (propagate rules (stepBound rules index) (seed rules (start rules index))).closure

end Engine

end RdfDataset
