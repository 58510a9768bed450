import RdfDataset.Proofs.GraphIndex.Keys
import RdfDataset.Proofs.Reasoning.Closure

/-!
# The numbers that reasoning works with

Reasoning makes no numbers of its own.  Whatever rules it is given, well scoped or not, it only adds triples of the
numbers that are in the graph or in the conclusions, and it counts every triple that it adds.

* `Triple.Over`, `GraphIndex.Over` and `CompiledRule.Over`: all numbers are among some given ones.
* `GraphIndex.Coherent.over_of_mem_solve`: what a premise evaluates to is made of these numbers.
* `Closure.Within` holds on the way to a closed graph; `Closure.Within.assert` is one triple.
* `closeGraph_within`: a closed graph is coherent, is over the same numbers, and is the old graph if nothing was
  derived.
* `closeGraph_induction`: closing a graph keeps what adding a triple keeps; `closeGraph_keysIn`: no level of its trees
  gets another number.
-/

namespace RdfDataset

variable {U : Set Nat}

/-- All numbers of a triple are among some given ones. -/
def Triple.Over (U : Set Nat) (t : Triple Nat) : Prop :=
  ∀ n ∈ t.toList, n ∈ U

/-- All constants of an atom are among some numbers. -/
def AtomOver (U : Set Nat) (atom : Atom) : Prop :=
  ∀ id, .const id ∈ atom.toList → id ∈ U

/-- All constants in the conclusions of a rule are among some numbers. -/
def CompiledRule.Over (U : Set Nat) (rule : CompiledRule) : Prop :=
  ∀ c ∈ rule.conclusion, AtomOver U c.atom

namespace Env

/-- All known values are among some numbers. -/
def Over (U : Set Nat) (env : Env) : Prop :=
  ∀ number id, env.value (.var number) = some id → id ∈ U

theorem over_unbound (count : Nat) : (unbound count).Over U := by
  intro number id h
  simp only [value, unbound, List.getElem?_replicate] at h
  split at h <;> cases h

private theorem Over.set {env : Env} (h : env.Over U) (number : Nat) {id : Nat} (hid : id ∈ U) :
    Over U (env.set number (some id)) := by
  intro other known hvalue
  simp only [value, List.getElem?_set] at hvalue
  split at hvalue
  · split at hvalue
    · obtain rfl := Option.some.inj hvalue
      exact hid
    · cases hvalue
  · exact h other known hvalue

private theorem Over.bindSlots {env : Env} (h : env.Over U) (trail : List Nat) {pairs : List (Slot × Nat)}
    (hpairs : ∀ x ∈ pairs, x.2 ∈ U) : (env.bindSlots trail pairs).2.1.Over U := by
  induction pairs generalizing env trail with
  | nil => exact h
  | cons pair rest ih =>
    obtain ⟨slot, id⟩ := pair
    have hrest : ∀ x ∈ rest, x.2 ∈ U := fun x hx => hpairs x (List.mem_cons_of_mem _ hx)
    cases hvalue : env.value slot with
    | some known =>
      rw [bindSlots_of_value hvalue]
      split
      · exact ih h trail hrest
      · exact h
    | none =>
      cases slot with
      | const c => cases hvalue
      | var number =>
        rw [bindSlots_of_unknown hvalue]
        exact ih (h.set number (hpairs _ List.mem_cons_self)) _ hrest

/-- Matching an atom with a fact makes no numbers known but those of the fact. -/
theorem Over.bind {env : Env} (h : env.Over U) (atom : Atom) {fact : Triple Nat} (hfact : fact.Over U) :
    (env.bind atom fact).2.1.Over U :=
  h.bindSlots [] fun x hx => hfact x.2 (List.of_mem_zip hx).2

theorem Over.value {env : Env} (h : env.Over U) {slot : Slot} (hslot : ∀ id, slot = .const id → id ∈ U) {id : Nat}
    (hvalue : env.value slot = some id) : id ∈ U := by
  cases slot with
  | const c =>
    obtain rfl := Option.some.inj hvalue
    exact hslot c rfl
  | var number => exact h number id hvalue

theorem Over.instantiate {env : Env} (h : env.Over U) {atom : Atom} (hatom : AtomOver U atom) {fact : Triple Nat}
    (hfact : env.instantiate atom = some fact) : fact.Over U := by
  rw [instantiate_eq_some] at hfact
  obtain ⟨s, p, o⟩ := atom
  simp only [Triple.toList, List.zip_cons_cons, List.zip_nil_right, List.forall_mem_cons] at hfact
  obtain ⟨hs, hp, ho, -⟩ := hfact
  have hslot : ∀ slot ∈ [s, p, o], ∀ id, env.value slot = some id → id ∈ U := by
    intro slot hslot id
    refine h.value ?_
    rintro c rfl
    exact hatom c hslot
  simp only [List.forall_mem_cons] at hslot
  simp only [Triple.Over, Triple.toList, List.forall_mem_cons]
  exact ⟨hslot.1 _ hs, hslot.2.1 _ hp, hslot.2.2.1 _ ho, by simp⟩

end Env

variable [Arrangement]

/-- All triples of a graph are of some numbers. -/
def GraphIndex.Over (U : Set Nat) (g : GraphIndex) : Prop :=
  ∀ t, g.contains t = true → t.Over U

/-- What a premise evaluates to is made of the numbers of the graph, the environment and the conclusions. -/
theorem GraphIndex.Coherent.over_of_mem_solve {index : GraphIndex} (hindex : index.Coherent) (hover : index.Over U)
    {conclusions : List Conclusion} (hconclusions : ∀ c ∈ conclusions, AtomOver U c.atom) {atoms : List Atom}
    {env : Env} (henv : env.Over U) {drawn : Conclusion × Triple Nat}
    (h : drawn ∈ (solve index conclusions atoms env).1) : drawn.2.Over U := by
  induction atoms generalizing env with
  | nil =>
    simp only [solve, List.mem_filterMap, Option.map_eq_some_iff] at h
    obtain ⟨c, hc, fact, hfact, rfl⟩ := h
    exact henv.instantiate (hconclusions c hc) hfact
  | cons atom rest ih =>
    rw [solve_cons, List.mem_flatMap] at h
    obtain ⟨found, hfound, h⟩ := h
    unfold solveWith at h
    split at h
    · exact ih (henv.bind atom (hover found (hindex.mem_matching.1 hfound).1)) h
    · cases h

namespace Closure

/-- What holds of a graph on its way from another one to being closed, whatever the rules are: its trees agree, it and
the triples left to be tried are over some numbers, and as long as nothing has been derived it is the other graph. -/
structure Within (U : Set Nat) (start : GraphIndex) (c : Closure) : Prop where
  coherent : c.index.Coherent
  numbers : c.index.Over U
  tasks : ∀ task ∈ c.tasks, task.fact.Over U
  unchanged : c.derived = 0 → c.index = start

variable {start : GraphIndex} {c : Closure}

theorem Within.assert (h : c.Within U start) (conclusion : Conclusion) {fact : Triple Nat} (hfact : fact.Over U) :
    (c.assert conclusion fact).Within U start := by
  by_cases hold : c.index.contains fact = true
  · rwa [assert_of_contains hold]
  · obtain ⟨hindex, htasks⟩ := assert_of_not_contains conclusion (eq_false_of_ne_true hold)
    constructor
    · rw [hindex]
      exact h.coherent.insert fact
    · intro t ht
      rcases contains_assert.1 ht with rfl | ht
      · exact hfact
      · exact h.numbers t ht
    · intro task htask
      rw [htasks, List.mem_append, List.mem_reverse, List.mem_map] at htask
      rcases htask with ⟨link, -, rfl⟩ | htask
      · exact hfact
      · exact h.tasks task htask
    · have hnew : (c.index.insert fact).1 = true := by simpa using hold
      have hderived : (c.assert conclusion fact).derived = c.derived + 1 := by
        rw [Closure.assert]
        dsimp only
        rw [if_pos hnew]
      rw [hderived]
      exact fun h => absurd h (Nat.succ_ne_zero _)

theorem Within.assertAll (h : c.Within U start) {drawn : List (Conclusion × Triple Nat)}
    (hdrawn : ∀ x ∈ drawn, x.2.Over U) : (c.assertAll drawn).Within U start := by
  induction drawn generalizing c with
  | nil => exact h
  | cons x drawn ih =>
    exact ih (h.assert x.1 (hdrawn x List.mem_cons_self)) fun y hy => hdrawn y (List.mem_cons_of_mem x hy)

variable {rules : List CompiledRule} (hrules : ∀ rule ∈ rules, rule.Over U)
include hrules

theorem Within.seed (h : c.Within U start) : (c.seed rules).Within U start := by
  induction rules generalizing c with
  | nil => exact h
  | cons rule rules ih =>
    refine ih (fun other hother => hrules other (List.mem_cons_of_mem rule hother)) (h.assertAll fun x hx => ?_)
    exact h.coherent.over_of_mem_solve h.numbers (hrules rule List.mem_cons_self) (Env.over_unbound _) hx

theorem Within.follow (h : c.Within U start) {task : Task} (htask : task.fact.Over U) :
    (c.follow rules task).Within U start := by
  unfold Closure.follow
  split
  · exact h
  · rename_i rule hrule
    dsimp only
    split
    · refine h.assertAll fun x hx => ?_
      have henv := (Env.over_unbound (U := U) rule.variableCount).bind task.link.base htask
      exact h.coherent.over_of_mem_solve h.numbers (hrules rule (List.mem_of_getElem? hrule)) henv hx
    · exact h

theorem Within.propagate (h : c.Within U start) (steps : Nat) : (c.propagate rules steps).Within U start := by
  induction steps generalizing c with
  | zero => exact h
  | succ steps ih =>
    rw [Closure.propagate.eq_def]
    dsimp only
    cases htasks : c.tasks with
    | nil => exact h
    | cons task tasks =>
      have hall : ∀ other ∈ task :: tasks, other.fact.Over U := htasks ▸ h.tasks
      have hnext : Within U start { c with tasks, propagations := c.propagations + 1 } :=
        ⟨h.coherent, h.numbers, fun other hother => hall other (List.mem_cons_of_mem task hother), h.unchanged⟩
      exact ih (hnext.follow hrules (hall task List.mem_cons_self))

end Closure

/-- Closing a graph keeps it coherent and over the same numbers, and changes nothing if nothing is derived. -/
theorem closeGraph_within {rules : List CompiledRule} (hrules : ∀ rule ∈ rules, rule.Over U) {index : GraphIndex}
    (hindex : index.Coherent) (hover : index.Over U) : (closeGraph rules index).Within U index := by
  have hstart : Closure.Within U index { index } := ⟨hindex, hover, by simp, fun _ => rfl⟩
  exact (hstart.seed hrules).propagate hrules _

/-! ### Closing a graph -/

section Close

variable {P : GraphIndex → Prop} (hinsert : ∀ (g : GraphIndex) (t : Triple Nat), P g → P (g.insert t).2)
  {rules : List CompiledRule} {c : Closure}
include hinsert

namespace Closure

private theorem assertAll_induction (h : P c.index) (drawn : List (Conclusion × Triple Nat)) :
    P (c.assertAll drawn).index := by
  induction drawn generalizing c with
  | nil => exact h
  | cons x drawn ih =>
    refine ih (c := c.assert x.1 x.2) ?_
    by_cases hold : c.index.contains x.2 = true
    · rwa [assert_of_contains hold]
    · rw [(assert_of_not_contains x.1 (eq_false_of_ne_true hold)).1]
      exact hinsert c.index x.2 h

private theorem seed_induction (h : P c.index) : P (c.seed rules).index := by
  induction rules generalizing c with
  | nil => exact h
  | cons rule rules ih => exact ih (assertAll_induction hinsert h _)

private theorem follow_induction (h : P c.index) (task : Task) : P (c.follow rules task).index := by
  unfold follow
  split
  · exact h
  · dsimp only
    split
    · exact assertAll_induction hinsert h _
    · exact h

private theorem propagate_induction (h : P c.index) (steps : Nat) : P (c.propagate rules steps).index := by
  induction steps generalizing c with
  | zero => exact h
  | succ steps ih =>
    rw [propagate.eq_def]
    dsimp only
    cases c.tasks with
    | nil => exact h
    | cons task tasks =>
      exact ih (follow_induction hinsert (c := { c with tasks, propagations := c.propagations + 1 }) h task)

end Closure

/-- Closing a graph keeps what adding a triple keeps. -/
theorem closeGraph_induction (rules : List CompiledRule) {index : GraphIndex} (h : P index) :
    P (closeGraph rules index).index :=
  Closure.propagate_induction hinsert (Closure.seed_induction hinsert (c := { index }) h) _

end Close

/-- Closing a graph puts no other numbers into the levels of its trees.  Adding a triple keeps this as long as the graph
that comes about is over these numbers, and so is the one that all additions lead to. -/
theorem closeGraph_keysIn {rules : List CompiledRule} (hrules : ∀ rule ∈ rules, rule.Over U) {index : GraphIndex}
    (hindex : index.Coherent) (hkeys : index.KeysIn U) : (closeGraph rules index).index.KeysIn U := by
  have hinsert : ∀ (g : GraphIndex) (t : Triple Nat), (g.Over U → g.KeysIn U) →
      (g.insert t).2.Over U → (g.insert t).2.KeysIn U := by
    intro g t hg hover
    have hold : g.Over U := fun u hu => hover u ((GraphIndex.contains_insert g t u).2 (.inr hu))
    exact (hg hold).insert (hover t ((GraphIndex.contains_insert g t t).2 (.inl rfl)))
  refine closeGraph_induction (P := fun g => g.Over U → g.KeysIn U) hinsert rules (fun _ => hkeys) ?_
  exact (closeGraph_within hrules hindex fun t ht => hkeys.mem_of_contains ht).numbers

end RdfDataset
