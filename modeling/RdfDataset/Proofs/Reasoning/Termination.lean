import RdfDataset.Proofs.GraphIndex.Replay
import RdfDataset.Proofs.Reasoning.Universe
import RdfDataset.Proofs.Rule.Compile

/-!
# Reasoning comes to an end

Every triple that is drawn on the way to a closed graph is made of the numbers at hand.  A triple is added once, and
brings at most one task for each premise atom; so the tasks run out, however the rules depend on each other.

* `Closure.drawnBySeed` and `Closure.drawnByTasks`: all that is drawn, new or not, in order.
* `GraphIndex.added`: the triples that are new when some are added one after the other.
* `Closure.Draws`: what drawing conclusions does to a graph and its tasks; `Closure.Draws.trans`, one after the other.
* `Closure.draws_seed`, `Closure.draws_follow` and `Closure.draws_propagate`: the first round, one task and any number.
* `closeGraph_terminates`: after the tasks that the numbers at hand can bring there are none left.
-/

namespace RdfDataset

section

variable [Arrangement]

/-! ### Triples that are new -/

namespace GraphIndex

/-- The triples that are not there yet when they are added, one after the other. -/
def added (g : GraphIndex) : List (Triple Nat) → List (Triple Nat)
  | [] => []
  | t :: ts => if (g.insert t).1 then t :: (g.insert t).2.added ts else (g.insert t).2.added ts

variable {g : GraphIndex}

theorem added_append (ts us : List (Triple Nat)) :
    g.added (ts ++ us) = g.added ts ++ (runSteps insert g ts).2.added us := by
  induction ts generalizing g with
  | nil => rfl
  | cons t ts ih =>
    rw [List.cons_append, added, added, ih]
    split <;> rfl

theorem mem_added {ts : List (Triple Nat)} {t : Triple Nat} : t ∈ g.added ts ↔ t ∈ ts ∧ g.contains t = false := by
  induction ts generalizing g with
  | nil => simp [added]
  | cons u ts ih =>
    have hinsert : (g.insert u).2.contains t = false ↔ t ≠ u ∧ g.contains t = false := by
      rw [← Bool.not_eq_true, contains_insert, not_or, Bool.not_eq_true]
    have hnew : (g.insert u).1 = true ↔ g.contains u = false := by simp [insert_fst]
    rw [added]
    by_cases heq : t = u
    · subst heq
      split
      · simp_all
      · simp_all
    · split
      · simp [ih, hinsert, heq]
      · simp [ih, hinsert, heq]

theorem nodup_added (g : GraphIndex) (ts : List (Triple Nat)) : (g.added ts).Nodup := by
  induction ts generalizing g with
  | nil => exact List.nodup_nil
  | cons t ts ih =>
    rw [added]
    split
    · refine List.nodup_cons.2 ⟨fun hmem => ?_, ih _⟩
      have hold := (mem_added.1 hmem).2
      rw [(contains_insert g t t).2 (.inl rfl)] at hold
      cases hold
    · exact ih _

end GraphIndex

/-- Whatever a premise evaluates to comes with one of the conclusions. -/
theorem fst_mem_of_mem_solve {index : GraphIndex} {conclusions : List Conclusion} {atoms : List Atom} {env : Env}
    {drawn : Conclusion × Triple Nat} (h : drawn ∈ (solve index conclusions atoms env).1) : drawn.1 ∈ conclusions := by
  induction atoms generalizing env with
  | nil =>
    simp only [solve, List.mem_filterMap, Option.map_eq_some_iff] at h
    obtain ⟨c, hc, _, -, rfl⟩ := h
    exact hc
  | cons atom rest ih =>
    rw [solve_cons, List.mem_flatMap] at h
    obtain ⟨found, -, h⟩ := h
    unfold solveWith at h
    split at h
    · exact ih h
    · cases h

namespace Closure

/-! ### What is drawn -/

/-- All that is drawn when every rule is evaluated once. -/
def drawnBySeed : List CompiledRule → Closure → List (Conclusion × Triple Nat)
  | [], _ => []
  | rule :: rules, c =>
    let drawn := (solve c.index rule.conclusion rule.premise (.unbound rule.variableCount)).1
    drawn ++ drawnBySeed rules (c.assertAll drawn)

/-- All that is drawn when a triple is tried in a premise atom. -/
def drawnByTask (rules : List CompiledRule) (c : Closure) (task : Task) : List (Conclusion × Triple Nat) :=
  match rules[task.link.rule]? with
  | none => []
  | some rule =>
    let (fits, env, _) := (Env.unbound rule.variableCount).bind task.link.base task.fact
    if fits then (solve c.index rule.conclusion task.link.others env).1 else []

/-- All that is drawn by the tasks that are done. -/
def drawnByTasks (rules : List CompiledRule) : Nat → Closure → List (Conclusion × Triple Nat)
  | 0, _ => []
  | steps + 1, c =>
    match c.tasks with
    | [] => []
    | task :: tasks =>
      let c := { c with tasks, propagations := c.propagations + 1 }
      c.drawnByTask rules task ++ drawnByTasks rules steps (follow rules c task)

variable {rules : List CompiledRule} {c c' c'' : Closure}

theorem follow_eq_assertAll (c : Closure) (task : Task) :
    follow rules c task = c.assertAll (c.drawnByTask rules task) := by
  unfold follow drawnByTask
  cases rules[task.link.rule]? with
  | none => rfl
  | some rule =>
    dsimp only
    split <;> rfl

/-! ### What drawing does -/

/-- From one state to another some conclusions are drawn, of some numbers: the triples are added in order, those that
are new are counted, and each of them brings at most a given number of tasks; of these none is lost but those that are
done. -/
structure Draws (U : Set Nat) (k : Nat) (c c' : Closure) (drawn : List (Conclusion × Triple Nat)) : Prop where
  numbers : ∀ x ∈ drawn, x.2.Over U
  links : ∀ x ∈ drawn, x.1.links.length ≤ k
  index : c'.index = (runSteps GraphIndex.insert c.index (drawn.map Prod.snd)).2
  derived : c'.derived = c.derived + (c.index.added (drawn.map Prod.snd)).length
  tasks : c'.tasks.length + c'.propagations + c.derived * k ≤ c.tasks.length + c.propagations + c'.derived * k

variable {U : Set Nat} {k : Nat} {start : GraphIndex}

theorem Draws.refl (c : Closure) : Draws U k c c [] :=
  ⟨by simp, by simp, rfl, rfl, le_refl _⟩

theorem Draws.trans {drawn drawn' : List (Conclusion × Triple Nat)} (h : Draws U k c c' drawn)
    (h' : Draws U k c' c'' drawn') : Draws U k c c'' (drawn ++ drawn') where
  numbers := List.forall_mem_append.2 ⟨h.numbers, h'.numbers⟩
  links := List.forall_mem_append.2 ⟨h.links, h'.links⟩
  index := by rw [List.map_append, runSteps_append_snd, ← h.index, h'.index]
  derived := by
    rw [List.map_append, GraphIndex.added_append, List.length_append, ← h.index, h'.derived, h.derived]
    omega
  tasks := by
    have hfirst := h.tasks
    have hsecond := h'.tasks
    omega

/-- The triples that are new are different triples of the given numbers. -/
theorem Draws.derived_le {numbers : Finset Nat} {drawn : List (Conclusion × Triple Nat)}
    (h : Draws (numbers : Set Nat) k c c' drawn) : c'.derived ≤ c.derived + numbers.card ^ 3 := by
  have hcard : (c.index.added (drawn.map Prod.snd)).length ≤ numbers.card ^ 3 := by
    rw [← List.toFinset_card_of_nodup (GraphIndex.nodup_added _ _)]
    refine card_le_of_subset_triplesOver fun t ht => ?_
    obtain ⟨x, hx, rfl⟩ := List.mem_map.1 (GraphIndex.mem_added.1 (List.mem_toFinset.1 ht)).1
    exact h.numbers x hx
  rw [h.derived]
  omega

/-- On the way from a graph every task, done or not, has been brought by one of them. -/
theorem Draws.tasks_le {numbers : Finset Nat} {drawn : List (Conclusion × Triple Nat)}
    (h : Draws (numbers : Set Nat) k { index := start } c drawn) :
    c.tasks.length + c.propagations ≤ numbers.card ^ 3 * k := by
  have htasks := h.tasks
  have hbound := Nat.mul_le_mul_right k h.derived_le
  simp only [List.length_nil, Nat.zero_mul, Nat.zero_add] at htasks hbound
  omega

/-- Taking the next task brings nothing. -/
theorem draws_next {task : Task} {tasks : List Task} (htasks : c.tasks = task :: tasks) :
    Draws U k c { c with tasks, propagations := c.propagations + 1 } [] where
  numbers := by simp
  links := by simp
  index := rfl
  derived := rfl
  tasks := by
    rw [htasks, List.length_cons]
    dsimp only
    omega

/-- What a triple brings that is not there yet: as many tasks as its conclusion has links. -/
theorem exists_queued (c : Closure) (conclusion : Conclusion) (fact : Triple Nat) :
    ∃ queued, (c.assert conclusion fact).tasks = queued ++ c.tasks ∧ queued.length ≤ conclusion.links.length ∧
      (c.index.contains fact = true → queued = []) := by
  by_cases hold : c.index.contains fact = true
  · rw [assert_of_contains hold]
    exact ⟨[], rfl, Nat.zero_le _, fun _ => rfl⟩
  · obtain ⟨-, htasks⟩ := assert_of_not_contains conclusion (eq_false_of_ne_true hold)
    exact ⟨_, htasks, by simp, fun h => absurd h hold⟩

theorem draws_assert (c : Closure) {conclusion : Conclusion} {fact : Triple Nat} (hfact : fact.Over U)
    (hlinks : conclusion.links.length ≤ k) : Draws U k c (c.assert conclusion fact) [(conclusion, fact)] := by
  by_cases hold : c.index.contains fact = true
  · rw [assert_of_contains hold]
    refine ⟨by simpa using hfact, by simpa using hlinks, ?_, ?_, le_refl _⟩
    · simp [runSteps, GraphIndex.insert_of_contains hold]
    · simp [GraphIndex.added, GraphIndex.insert_of_contains hold]
  · have hnew : (c.index.insert fact).1 = true := by simpa using hold
    obtain ⟨hindex, htasks⟩ := assert_of_not_contains conclusion (eq_false_of_ne_true hold)
    have hcounts : (c.assert conclusion fact).derived = c.derived + 1 ∧
        (c.assert conclusion fact).propagations = c.propagations := by
      rw [assert]
      dsimp only
      rw [if_pos hnew]
      exact ⟨rfl, rfl⟩
    refine ⟨by simpa using hfact, by simpa using hlinks, hindex, ?_, ?_⟩
    · rw [hcounts.1, List.map_singleton, GraphIndex.added, if_pos hnew]
      rfl
    · rw [hcounts.1, hcounts.2, htasks, List.length_append, List.length_reverse, List.length_map, Nat.add_mul]
      omega

theorem draws_assertAll (c : Closure) {drawn : List (Conclusion × Triple Nat)} (hover : ∀ x ∈ drawn, x.2.Over U)
    (hlinks : ∀ x ∈ drawn, x.1.links.length ≤ k) : Draws U k c (c.assertAll drawn) drawn := by
  induction drawn generalizing c with
  | nil => exact .refl c
  | cons x drawn ih =>
    obtain ⟨hx, hover⟩ := List.forall_mem_cons.1 hover
    obtain ⟨hk, hlinks⟩ := List.forall_mem_cons.1 hlinks
    have hfirst := draws_assert c hx hk
    exact hfirst.trans (ih (c.assert x.1 x.2) hover hlinks)

variable (hover : ∀ rule ∈ rules, rule.Over U)
  (hlinks : ∀ rule ∈ rules, ∀ conclusion ∈ rule.conclusion, conclusion.links.length ≤ k)
include hover hlinks

/-- What a rule concludes from some of its premise atoms is drawn. -/
private theorem draws_solve (h : c.Within U start) {rule : CompiledRule} (hrule : rule ∈ rules) {atoms : List Atom}
    {env : Env} (henv : env.Over U) {drawn : List (Conclusion × Triple Nat)}
    (hdrawn : drawn = (solve c.index rule.conclusion atoms env).1) :
    Draws U k c (c.assertAll drawn) drawn ∧ (c.assertAll drawn).Within U start := by
  subst hdrawn
  have hnumbers : ∀ x ∈ (solve c.index rule.conclusion atoms env).1, x.2.Over U :=
    fun x hx => h.coherent.over_of_mem_solve h.numbers (hover rule hrule) henv hx
  exact ⟨draws_assertAll c hnumbers fun x hx => hlinks rule hrule x.1 (fst_mem_of_mem_solve hx), h.assertAll hnumbers⟩

/-- The first round. -/
theorem draws_seed (h : c.Within U start) : Draws U k c (seed rules c) (drawnBySeed rules c) := by
  induction rules generalizing c with
  | nil => exact .refl c
  | cons rule others ih =>
    obtain ⟨hfirst, hwithin⟩ := draws_solve hover hlinks h List.mem_cons_self (Env.over_unbound _) rfl
    have hothers := ih (fun other hother => hover other (List.mem_cons_of_mem rule hother))
      (fun other hother => hlinks other (List.mem_cons_of_mem rule hother)) hwithin
    exact hfirst.trans hothers

/-- One task. -/
theorem draws_follow (h : c.Within U start) {task : Task} (htask : task.fact.Over U) :
    Draws U k c (follow rules c task) (c.drawnByTask rules task) := by
  rw [follow_eq_assertAll]
  cases hrule : rules[task.link.rule]? with
  | none =>
    have hnothing : c.drawnByTask rules task = [] := by rw [drawnByTask, hrule]
    rw [hnothing]
    exact .refl c
  | some rule =>
    have henv := (Env.over_unbound (U := U) rule.variableCount).bind task.link.base htask
    have hdrawn : c.drawnByTask rules task =
        if ((Env.unbound rule.variableCount).bind task.link.base task.fact).1 then
          (solve c.index rule.conclusion task.link.others
            ((Env.unbound rule.variableCount).bind task.link.base task.fact).2.1).1
        else [] := by
      rw [drawnByTask, hrule]
    split at hdrawn
    · exact (draws_solve hover hlinks h (List.mem_of_getElem? hrule) henv hdrawn).1
    · rw [hdrawn]
      exact .refl c

/-- Any number of tasks, one after the other. -/
theorem draws_propagate (h : c.Within U start) (steps : Nat) :
    Draws U k c (propagate rules steps c) (drawnByTasks rules steps c) := by
  induction steps generalizing c with
  | zero => exact .refl c
  | succ steps ih =>
    rw [propagate.eq_def, drawnByTasks.eq_def]
    dsimp only
    cases htasks : c.tasks with
    | nil => exact .refl c
    | cons task tasks =>
      have hall : ∀ other ∈ task :: tasks, other.fact.Over U := htasks ▸ h.tasks
      have hnext : Within U start { c with tasks, propagations := c.propagations + 1 } :=
        ⟨h.coherent, h.numbers, fun other hother => hall other (List.mem_cons_of_mem task hother), h.unchanged⟩
      have htask := hall task List.mem_cons_self
      have hfollow := draws_follow hover hlinks hnext htask
      have hmore := ih (hnext.follow hover htask)
      exact (draws_next htasks).trans (hfollow.trans hmore)

omit hover hlinks

/-! ### How long it takes -/

theorem propagations_assertAll (c : Closure) (drawn : List (Conclusion × Triple Nat)) :
    (c.assertAll drawn).propagations = c.propagations := by
  induction drawn generalizing c with
  | nil => rfl
  | cons x drawn ih =>
    have hfirst : (c.assert x.1 x.2).propagations = c.propagations := by
      rw [assert]
      dsimp only
      split <;> rfl
    exact (ih (c.assert x.1 x.2)).trans hfirst

theorem propagate_of_tasks_eq_nil (htasks : c.tasks = []) (steps : Nat) : propagate rules steps c = c := by
  cases steps with
  | zero => rfl
  | succ steps => rw [propagate, htasks]

/-- As long as there are tasks, one is done in each step. -/
theorem tasks_eq_nil_or_propagations_eq (rules : List CompiledRule) (steps : Nat) (c : Closure) :
    (propagate rules steps c).tasks = [] ∨ (propagate rules steps c).propagations = c.propagations + steps := by
  induction steps generalizing c with
  | zero => exact .inr rfl
  | succ steps ih =>
    rw [propagate.eq_def]
    dsimp only
    cases htasks : c.tasks with
    | nil => exact .inl htasks
    | cons task tasks =>
      have hfollow : (follow rules { c with tasks, propagations := c.propagations + 1 } task).propagations =
          c.propagations + 1 := by
        rw [follow_eq_assertAll, propagations_assertAll]
      refine (ih _).imp_right fun h => ?_
      dsimp only at h ⊢
      rw [h, hfollow]
      omega

theorem propagate_add (rules : List CompiledRule) (m n : Nat) (c : Closure) :
    propagate rules (m + n) c = propagate rules n (propagate rules m c) := by
  induction m generalizing c with
  | zero => rw [Nat.zero_add, propagate]
  | succ m ih =>
    cases htasks : c.tasks with
    | nil => rw [propagate_of_tasks_eq_nil htasks, propagate_of_tasks_eq_nil htasks, propagate_of_tasks_eq_nil htasks]
    | cons task tasks =>
      rw [Nat.succ_add, propagate.eq_def, propagate.eq_def rules (m + 1)]
      dsimp only
      rw [htasks]
      exact ih _

/-- Once there are no tasks left, more steps change nothing. -/
theorem propagate_eq_of_le {m n : Nat} (htasks : (propagate rules m c).tasks = []) (hle : m ≤ n) :
    propagate rules n c = propagate rules m c := by
  obtain ⟨more, rfl⟩ := Nat.exists_eq_add_of_le hle
  rw [propagate_add, propagate_of_tasks_eq_nil htasks]

end Closure

/-! ### The numbers at hand -/

theorem rule_over_numbersOf {rules : List CompiledRule} (index : GraphIndex) {rule : CompiledRule}
    (hrule : rule ∈ rules) : rule.Over (numbersOf rules index : Set Nat) := by
  intro c hc id hid
  simp only [numbersOf, Finset.coe_union, Set.mem_union, Finset.mem_coe, List.mem_toFinset]
  refine .inr ?_
  simp only [constantsOf, atomsOf, List.mem_flatMap, List.mem_append, List.mem_map, List.mem_filterMap]
  exact ⟨c.atom, ⟨rule, hrule, .inr ⟨c, hc, rfl⟩⟩, .const id, hid, rfl⟩

theorem GraphIndex.Coherent.over_numbersOf {index : GraphIndex} (hindex : index.Coherent) (rules : List CompiledRule) :
    index.Over (numbersOf rules index : Set Nat) := by
  intro t ht n hn
  simp only [numbersOf, Finset.coe_union, Set.mem_union, Finset.mem_coe, Finset.mem_biUnion, List.mem_toFinset]
  exact .inl ⟨t, hindex.mem_triples.2 ht, hn⟩

omit [Arrangement] in
theorem length_links_of_compileRules {rules : List Rule} {terms : Interner} {compiled : List CompiledRule}
    (hcompiled : (compileRules rules terms).1 = .ok compiled) :
    ∀ rule ∈ compiled, ∀ c ∈ rule.conclusion, c.links.length ≤ premiseAtoms compiled := by
  intro rule hrule c hc
  rw [compileRules] at hcompiled
  obtain ⟨unlinked, -, rfl⟩ := map_eq_ok.1 hcompiled
  rw [links_of_mem_linkRules hrule hc]
  exact length_linksOf_le _ c.atom

/-- Let rules be compiled, whether they feed each other or themselves or not, and let the numbers at hand be those of
the graph and those in the rules.  However many tasks are done, all that is drawn is made of these numbers.  What is drawn
is added in order; the triples that are new are all different and so no more than the numbers can make; and what is
drawn brings no task if it is not new, and otherwise at most one for each premise atom.  So after as many tasks there
are none left, and the graph is closed. -/
theorem closeGraph_terminates {rules : List Rule} {terms : Interner} {compiled : List CompiledRule}
    (hcompiled : (compileRules rules terms).1 = .ok compiled) {index : GraphIndex} (hindex : index.Coherent)
    (steps : Nat) :
    let numbers := numbersOf compiled index
    let seeded := Closure.seed compiled { index }
    let drawn := Closure.drawnBySeed compiled { index } ++ Closure.drawnByTasks compiled steps seeded
    let added := index.added (drawn.map Prod.snd)
    let c := Closure.propagate compiled steps seeded
    (∀ x ∈ drawn, ∀ n ∈ x.2.toList, n ∈ numbers) ∧
      c.index = (runSteps GraphIndex.insert index (drawn.map Prod.snd)).2 ∧
      c.derived = added.length ∧ added.Nodup ∧ added.length ≤ numbers.card ^ 3 ∧
      (∀ x ∈ drawn, ∀ before : Closure, ∃ queued, (before.assert x.1 x.2).tasks = queued ++ before.tasks ∧
        queued.length ≤ premiseAtoms compiled ∧ (before.index.contains x.2 = true → queued = [])) ∧
      c.propagations ≤ numbers.card ^ 3 * premiseAtoms compiled ∧
      (numbers.card ^ 3 * premiseAtoms compiled ≤ steps → c.tasks = [] ∧ c = closeGraph compiled index) := by
  intro numbers seeded drawn added c
  have hover : ∀ rule ∈ compiled, rule.Over (numbers : Set Nat) := fun rule hrule => rule_over_numbersOf index hrule
  have hlinks := length_links_of_compileRules hcompiled
  have hstart : Closure.Within (numbers : Set Nat) index { index } :=
    ⟨hindex, hindex.over_numbersOf compiled, by simp, fun _ => rfl⟩
  have hseed := Closure.draws_seed hover hlinks hstart
  have hwithin := hstart.seed hover
  have hdraws : ∀ steps, Closure.Draws (numbers : Set Nat) (premiseAtoms compiled) { index }
      (Closure.propagate compiled steps seeded)
      (Closure.drawnBySeed compiled { index } ++ Closure.drawnByTasks compiled steps seeded) :=
    fun steps => hseed.trans (Closure.draws_propagate hover hlinks hwithin steps)
  have hends : (Closure.propagate compiled (numbers.card ^ 3 * premiseAtoms compiled) seeded).tasks = [] := by
    have hlimit := (hdraws (numbers.card ^ 3 * premiseAtoms compiled)).tasks_le
    obtain htasks | hdone :=
      Closure.tasks_eq_nil_or_propagations_eq compiled (numbers.card ^ 3 * premiseAtoms compiled) seeded
    · exact htasks
    · -- otherwise every task that can have been brought has been done
      exact List.eq_nil_of_length_eq_zero (by omega)
  have hsteps : numbers.card ^ 3 * premiseAtoms compiled ≤ stepBound compiled index :=
    Nat.mul_le_mul_right _ (Nat.pow_le_pow_left (card_numbersOf_le hindex) 3)
  have hderived : c.derived = added.length := (hdraws steps).derived.trans (Nat.zero_add _)
  refine ⟨(hdraws steps).numbers, (hdraws steps).index, hderived, GraphIndex.nodup_added _ _, ?_, ?_, ?_, ?_⟩
  · rw [← hderived]
    exact (hdraws steps).derived_le.trans (le_of_eq (Nat.zero_add _))
  · intro x hx before
    obtain ⟨queued, hqueued, hlength, hold⟩ := before.exists_queued x.1 x.2
    exact ⟨queued, hqueued, hlength.trans ((hdraws steps).links x hx), hold⟩
  · exact (Nat.le_add_left _ _).trans (hdraws steps).tasks_le
  · intro hle
    have hsame : c = Closure.propagate compiled (numbers.card ^ 3 * premiseAtoms compiled) seeded :=
      Closure.propagate_eq_of_le hends hle
    rw [hsame]
    exact ⟨hends, (Closure.propagate_eq_of_le hends hsteps).symm⟩

end

/-- Two relations that each follow from the other, one of them the other way round, are closed over one triple. -/
theorem closeGraph_terminates_mutual :
    let rules : List Rule :=
      [⟨[⟨.var "x", .iri "a:p", .var "y"⟩], [⟨.var "y", .iri "a:q", .var "x"⟩]⟩,
        ⟨[⟨.var "x", .iri "a:q", .var "y"⟩], [⟨.var "x", .iri "a:p", .var "y"⟩]⟩]
    let index := (GraphIndex.insert {} ⟨3, 1, 4⟩).2
    ∃ compiled, (compileRules rules {}).1 = .ok compiled ∧ index.Coherent ∧
      let c := Closure.propagate compiled ((numbersOf compiled index).card ^ 3 * 2) (Closure.seed compiled { index })
      c.tasks = [] ∧ c = closeGraph compiled index ∧ c.derived ≤ (numbersOf compiled index).card ^ 3 := by
  intro rules index
  obtain ⟨compiled, hcompiled, hatoms⟩ :
      ∃ compiled, (compileRules rules {}).1 = .ok compiled ∧ premiseAtoms compiled = 2 := ⟨_, rfl, rfl⟩
  have hindex : index.Coherent := GraphIndex.coherent_empty.insert _
  obtain ⟨-, -, hderived, -, hcard, -, -, hends⟩ :=
    closeGraph_terminates hcompiled hindex ((numbersOf compiled index).card ^ 3 * 2)
  rw [hatoms] at hends
  obtain ⟨htasks, hclosed⟩ := hends (le_refl _)
  exact ⟨compiled, hcompiled, hindex, htasks, hclosed, hderived ▸ hcard⟩

end RdfDataset
