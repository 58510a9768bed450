import RdfDataset.Rule.Basic

/-!
# Compiled rules

For reasoning, the terms of a rule become slots: numbers of constants, and numbers of variables counted within the
rule.  Every triple that a rule can conclude is linked to the premise atoms that it can satisfy, so that a new triple
is only tried where it can matter.

* `Rule.compile` turns one rule into slots, `compileRules` all rules, together with their links.
* `unifiable` says whether a conclusion atom can satisfy a premise atom.
-/

namespace RdfDataset

/-- A position of a compiled pattern. -/
inductive Slot
  | const (id : Nat)
  | var (number : Nat)
  deriving DecidableEq, Repr, Inhabited

/-- A compiled pattern. -/
abbrev Atom := Triple Slot

/-- A premise atom that a new triple may satisfy, and the other atoms of the same premise. -/
structure Link where
  rule : Nat
  base : Atom
  others : List Atom
  deriving DecidableEq, Repr, Inhabited

/-- A conclusion atom and the premise atoms that it can satisfy. -/
structure Conclusion where
  atom : Atom
  links : List Link
  deriving DecidableEq, Repr, Inhabited

structure CompiledRule where
  premise : List Atom
  conclusion : List Conclusion
  /-- How many variables the rule has. -/
  variableCount : Nat
  deriving DecidableEq, Repr, Inhabited

/-- What is known while a rule is compiled: its variables so far, in the order of their numbers, and the numbers of
terms. -/
structure Scope where
  names : List String
  terms : Interner

/-- Compilation goes on with the numbers that it has given even when it fails. -/
abbrev Compile := ExceptT RuleError (StateM Scope)

namespace Compile

/-- The slot of a constant. -/
def constant (t : Term) : Compile Slot := do
  let scope ← get
  let (id, terms) := scope.terms.intern t
  set { scope with terms }
  return .const id

/-- The slot of a term in the premise, where a new variable gets the next number. -/
def premiseSlot (rule : Nat) : Term → Compile Slot
  | .var name => do
    let scope ← get
    match scope.names.idxOf? name with
    | some number => return .var number
    | none =>
      set { scope with names := scope.names ++ [name] }
      return .var scope.names.length
  | .defaultGraph => throw (.defaultGraph rule)
  | t => constant t

/-- The slot of a term in the conclusion, where every variable has to be known. -/
def conclusionSlot (rule : Nat) : Term → Compile Slot
  | .var name => do
    match (← get).names.idxOf? name with
    | some number => return .var number
    | none => throw (.unboundVariable rule name)
  | .defaultGraph => throw (.defaultGraph rule)
  | t => constant t

/-- The atom of a pattern, position by position. -/
def atom (slot : Term → Compile Slot) (pattern : TriplePattern) : Compile Atom := do
  let s ← slot pattern.subject
  let p ← slot pattern.predicate
  let o ← slot pattern.object
  return ⟨s, p, o⟩

end Compile

/-- Compiles one rule, without links. -/
def Rule.compile (number : Nat) (rule : Rule) : Compile CompiledRule := do
  if rule.premise.isEmpty then throw (.emptyPremise number)
  modify fun scope => { scope with names := [] }
  let premise ← rule.premise.mapM (Compile.atom (Compile.premiseSlot number))
  let conclusion ← rule.conclusion.mapM (Compile.atom (Compile.conclusionSlot number))
  return { premise, conclusion := conclusion.map (⟨·, []⟩), variableCount := (← get).names.length }

/-- Two slots can have the same value unless they are different constants. -/
def Slot.unifiable : Slot → Slot → Bool
  | .const a, .const b => a == b
  | _, _ => true

/-- Two atoms can be the same triple unless they have different constants in some position. -/
def unifiable (a b : Atom) : Bool :=
  a.subject.unifiable b.subject && a.predicate.unifiable b.predicate && a.object.unifiable b.object

/-- The premise atoms that a conclusion atom can satisfy, rule by rule. -/
def linksOf (premises : List (List Atom)) (atom : Atom) : List Link :=
  premises.zipIdx.flatMap fun (premise, rule) =>
    premise.zipIdx.filterMap fun (base, position) =>
      if unifiable atom base then some ⟨rule, base, premise.eraseIdx position⟩ else none

/-- Links the conclusions of all rules. -/
def linkRules (rules : List CompiledRule) : List CompiledRule :=
  let premises := rules.map CompiledRule.premise
  rules.map fun rule =>
    { rule with conclusion := rule.conclusion.map fun c => ⟨c.atom, linksOf premises c.atom⟩ }

/-- Compiles and links rules, and gives the numbers of terms after that, whether it succeeds or not. -/
def compileRules (rules : List Rule) (terms : Interner) : Except RuleError (List CompiledRule) × Interner :=
  let compile : Compile (List CompiledRule) := rules.zipIdx.mapM fun (rule, number) => rule.compile number
  let (compiled, scope) := compile.run { names := [], terms }
  (compiled.map linkRules, scope.terms)

end RdfDataset
