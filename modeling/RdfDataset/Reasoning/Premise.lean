import RdfDataset.GraphIndex
import RdfDataset.Rule.Compile

/-!
# Evaluating premises

The atoms of a premise are matched one after the other against the triples of a graph.  Values of variables are
entered into an environment on the way and taken out again on the way back.

* `Env.bind` enters the values that an atom needs to be a given triple, and keeps a trail of them for `Env.undo`.
* `solve` gives the conclusions of all ways to match a premise, and the environment as it was before.
-/

namespace RdfDataset

/-- The values of the variables of a rule, by their numbers. -/
abbrev Env := List (Option Nat)

namespace Env

/-- No variable has a value. -/
def unbound (count : Nat) : Env :=
  List.replicate count none

/-- The value of a slot. -/
def value (env : Env) : Slot → Option Nat
  | .const id => some id
  | .var number => (env[number]?).join

/-- Enters values slot by slot, up to the first that disagrees.  The trail lists the variables that got a value. -/
def bindSlots (env : Env) (trail : List Nat) : List (Slot × Nat) → Bool × Env × List Nat
  | [] => (true, env, trail)
  | (slot, id) :: rest =>
    match slot, env.value slot with
    | _, some known => if known = id then env.bindSlots trail rest else (false, env, trail)
    | .var number, none => bindSlots (env.set number (some id)) (trail ++ [number]) rest
    | .const _, none => (false, env, trail)

/-- Enters the values with which an atom is a given triple, and says whether there are any. -/
def bind (env : Env) (atom : Atom) (fact : Triple Nat) : Bool × Env × List Nat :=
  env.bindSlots [] (atom.toList.zip fact.toList)

/-- Takes the values of a trail out again. -/
def undo (env : Env) (trail : List Nat) : Env :=
  trail.foldl (fun env number => env.set number none) env

/-- The triple of an atom, if all its slots have values. -/
def instantiate (env : Env) (atom : Atom) : Option (Triple Nat) :=
  (atom.map env.value).sequence

end Env

variable [Arrangement]

/-- The conclusions drawn, in order, for every way in which the atoms of a premise are triples of the graph. -/
def solve (index : GraphIndex) (conclusions : List Conclusion) :
    List Atom → Env → List (Conclusion × Triple Nat) × Env
  | [], env => (conclusions.filterMap fun c => (env.instantiate c.atom).map (c, ·), env)
  | atom :: rest, env =>
    (index.matching (atom.map env.value)).foldl (fun (drawn, env) fact =>
      let (fits, env, trail) := env.bind atom fact
      let (more, env) := if fits then solve index conclusions rest env else ([], env)
      (drawn ++ more, env.undo trail)) ([], env)

end RdfDataset
