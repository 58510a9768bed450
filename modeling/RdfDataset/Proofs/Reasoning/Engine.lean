import RdfDataset.Proofs.Reasoning.Premise
import RdfDataset.Reasoning.Basic

/-!
# One environment for each rule

A run keeps one environment for each rule and evaluates the rule in it again and again.  Whatever an evaluation enters it
takes out again, also where an atom does not fit, so every evaluation begins without values of variables.

* `Engine.IsUnbound`: no environment has a value; `Engine.IsUnbound.seedRule` and `Engine.IsUnbound.follow` keep it.
* `Engine.closeGraph_eq`: a run comes to the same closure as one that begins every evaluation with a new environment.
* `Dataset.closeGraph_of_none` and `Dataset.closeGraph_of_some`: what closing one graph of a dataset does.
-/

namespace RdfDataset

variable [Arrangement]

namespace Engine

variable {rules : List CompiledRule} {e : Engine}

/-- The environment of each rule is as at the beginning. -/
def IsUnbound (rules : List CompiledRule) (e : Engine) : Prop :=
  e.bindings = rules.map fun rule => .unbound rule.variableCount

namespace IsUnbound

variable (he : e.IsUnbound rules) {rule : CompiledRule} {number : Nat}
include he

theorem env (hrule : rules[number]? = some rule) : e.env number = .unbound rule.variableCount := by
  rw [Engine.env, he, List.getElem?_map, hrule]
  rfl

/-- Nothing changes when a rule gets back the environment that it had. -/
theorem set_env (hrule : rules[number]? = some rule) : e.bindings.set number (.unbound rule.variableCount) = e.bindings := by
  refine List.ext_getElem? fun other => ?_
  rw [List.getElem?_set, he]
  split
  · rename_i heq
    subst heq
    obtain ⟨hlength, heq⟩ := List.getElem?_eq_some_iff.1 hrule
    simp [hlength, heq]
  · rfl

/-- Evaluating a rule draws its conclusions from an empty environment, and leaves it empty. -/
theorem seedRule (hrule : rules[number]? = some rule) :
    (e.seedRule rule number).IsUnbound rules ∧ (e.seedRule rule number).closure =
      e.closure.assertAll
        (solve e.closure.index rule.conclusion rule.premise (.unbound rule.variableCount)).1 := by
  unfold Engine.seedRule
  dsimp only
  rw [solve_snd, he.env hrule, he.set_env hrule]
  exact ⟨he, rfl⟩

/-- So does trying a triple, whether it fits or not. -/
theorem follow (task : Task) :
    (follow rules e task).IsUnbound rules ∧ (follow rules e task).closure = e.closure.follow rules task := by
  unfold Engine.follow Closure.follow
  cases hrule : rules[task.link.rule]? with
  | none => exact ⟨he, rfl⟩
  | some rule =>
    have hback := Env.undo_bind (.unbound rule.variableCount) task.link.base task.fact
    dsimp only
    rw [he.env hrule]
    by_cases hfits : ((Env.unbound rule.variableCount).bind task.link.base task.fact).1 = true
    · simp only [if_pos hfits]
      rw [solve_snd, hback, he.set_env hrule]
      exact ⟨he, trivial⟩
    · simp only [if_neg hfits]
      rw [hback, he.set_env hrule]
      exact ⟨he, rfl⟩

/-- The first round, over the rules from some number on. -/
private theorem seed_from {todo : List CompiledRule} {start : Nat}
    (htodo : ∀ i rule, todo[i]? = some rule → rules[start + i]? = some rule) :
    ((todo.zipIdx start).foldl (fun e x => e.seedRule x.1 x.2) e).IsUnbound rules ∧
      ((todo.zipIdx start).foldl (fun e x => e.seedRule x.1 x.2) e).closure = Closure.seed todo e.closure := by
  induction todo generalizing e start with
  | nil => exact ⟨he, rfl⟩
  | cons rule todo ih =>
    have hrule : rules[start]? = some rule := htodo 0 rule rfl
    obtain ⟨hunbound, hclosure⟩ := he.seedRule hrule
    have hrest : ∀ i other, todo[i]? = some other → rules[start + 1 + i]? = some other := by
      intro i other hother
      rw [Nat.add_assoc, Nat.add_comm 1]
      exact htodo (i + 1) other hother
    obtain ⟨hunbound', hclosure'⟩ := ih hunbound hrest
    rw [hclosure] at hclosure'
    exact ⟨hunbound', hclosure'⟩

theorem seed : (seed rules e).IsUnbound rules ∧ (seed rules e).closure = Closure.seed rules e.closure := by
  have hall : ∀ i rule, rules[i]? = some rule → rules[0 + i]? = some rule := by
    intro i rule h
    rwa [Nat.zero_add]
  exact he.seed_from hall

theorem propagate (steps : Nat) : (propagate rules steps e).closure = Closure.propagate rules steps e.closure := by
  induction steps generalizing e with
  | zero => rfl
  | succ steps ih =>
    unfold Engine.propagate Closure.propagate
    cases htasks : e.closure.tasks with
    | nil => rfl
    | cons task tasks =>
      have hnext : IsUnbound rules
          { e with closure := { e.closure with tasks, propagations := e.closure.propagations + 1 } } := he
      obtain ⟨hunbound, hclosure⟩ := hnext.follow task
      dsimp only
      rw [ih hunbound, hclosure]

end IsUnbound

/-- Sharing environments makes no difference: each evaluation finds its environment empty. -/
theorem closeGraph_eq (rules : List CompiledRule) (index : GraphIndex) :
    closeGraph rules index = RdfDataset.closeGraph rules index := by
  have hstart : (start rules index).IsUnbound rules := rfl
  obtain ⟨hunbound, hclosure⟩ := hstart.seed
  rw [closeGraph, hunbound.propagate, hclosure]
  rfl

end Engine

namespace Dataset

variable {d : Dataset} {graph : Nat} (rules : List CompiledRule) (stats : ReasoningStats)

theorem closeGraph_of_none (h : d.graphs[graph]? = none) : d.closeGraph rules stats graph = (stats, d) := by
  rw [Dataset.closeGraph, h]

/-- A graph of the dataset is closed and counted. -/
theorem closeGraph_of_some {index : GraphIndex} (h : d.graphs[graph]? = some index) :
    d.closeGraph rules stats graph =
      ({ stats with
          graphs := stats.graphs + 1
          derived := stats.derived + (RdfDataset.closeGraph rules index).derived
          propagations := stats.propagations + (RdfDataset.closeGraph rules index).propagations },
        { d with graphs := d.graphs.insert graph (RdfDataset.closeGraph rules index).index }) := by
  rw [Dataset.closeGraph, h, ← Engine.closeGraph_eq]

end Dataset

end RdfDataset
