import RdfDataset.Proofs.Reasoning.Premise
import RdfDataset.Reasoning.Closure

/-!
# Closing a graph

Closing a graph under rules gives the least set of triples that contains those of the graph and is closed under the
rules.

* `ClosedUnder`: a set of triples contains what the rules conclude from it.
* `mem_linksOf`: a conclusion is linked to every premise atom that it can satisfy.
* `Closure.Grows`: what adding conclusions does; every new triple is left to be tried where it matters.
* `Closure.Invariant` holds while the tasks are done; `Closure.Invariant.follow` is one step.
* `contains_closeGraph`: what is in the graph in the end, when nothing is left to be tried.
-/

namespace RdfDataset

/-! ### Rules and sets of triples -/

/-- A set of triples contains what the rules conclude from it. -/
def ClosedUnder (rules : List CompiledRule) (T : Set (Triple Nat)) : Prop :=
  ∀ rule ∈ rules, ∀ ρ : Nat → Nat, (∀ atom ∈ rule.premise, atom.map (Slot.under ρ) ∈ T) →
    ∀ c ∈ rule.conclusion, c.atom.map (Slot.under ρ) ∈ T

/-- The variables of a rule are numbered, and its conclusion only uses those of its premise. -/
structure CompiledRule.WellScoped (rule : CompiledRule) : Prop where
  premise : ∀ atom ∈ rule.premise, InScope rule.variableCount atom
  conclusion : ∀ c ∈ rule.conclusion, ∀ number, .var number ∈ c.atom.toList →
    ∃ atom ∈ rule.premise, .var number ∈ atom.toList

/-- What compiling gives: the rules are well scoped, and each conclusion is linked to all premises. -/
structure Linked (rules : List CompiledRule) : Prop where
  wellScoped : ∀ rule ∈ rules, rule.WellScoped
  links : ∀ rule ∈ rules, ∀ c ∈ rule.conclusion, c.links = linksOf (rules.map CompiledRule.premise) c.atom

/-! ### Links -/

private theorem unifiable_slot {a b : Slot} {ρ ρ' : Nat → Nat} (h : a.under ρ = b.under ρ') : a.unifiable b = true := by
  cases a with
  | var m => rfl
  | const m =>
    cases b with
    | var n => rfl
    | const n => simpa [Slot.unifiable, Slot.under] using h

/-- Atoms that are the same triple under some valuations can be unified. -/
theorem unifiable_of_map_eq {a b : Atom} {ρ ρ' : Nat → Nat} (h : a.map (Slot.under ρ) = b.map (Slot.under ρ')) :
    unifiable a b = true := by
  simp only [Triple.map, Triple.mk.injEq] at h
  simp only [unifiable, Bool.and_eq_true]
  exact ⟨⟨unifiable_slot h.1, unifiable_slot h.2.1⟩, unifiable_slot h.2.2⟩

theorem mem_linksOf {premises : List (List Atom)} {atom : Atom} {link : Link} :
    link ∈ linksOf premises atom ↔ ∃ premise position, premises[link.rule]? = some premise ∧
      premise[position]? = some link.base ∧ link.others = premise.eraseIdx position ∧
      unifiable atom link.base = true := by
  obtain ⟨number, base, others⟩ := link
  simp only [linksOf, List.mem_flatMap, List.mem_filterMap, Prod.exists, List.mk_mem_zipIdx_iff_getElem?,
    Option.ite_none_right_eq_some, Option.some.injEq, Link.mk.injEq]
  constructor
  · rintro ⟨premise, number, hpremise, base, position, hbase, hunifiable, rfl, rfl, rfl⟩
    exact ⟨premise, position, hpremise, hbase, rfl, hunifiable⟩
  · rintro ⟨premise, position, hpremise, hbase, rfl, hunifiable⟩
    exact ⟨premise, number, hpremise, base, position, hbase, hunifiable, rfl, rfl, rfl⟩

private theorem sum_length_zipIdx (premises : List (List Atom)) (start : Nat) :
    ((premises.zipIdx start).map fun x => x.1.length).sum = (premises.map List.length).sum := by
  rw [← Function.comp_def List.length Prod.fst, ← List.map_map, List.zipIdx_map_fst]

/-- There are at most as many links as premise atoms. -/
theorem length_linksOf_le (rules : List CompiledRule) (atom : Atom) :
    (linksOf (rules.map CompiledRule.premise) atom).length ≤ premiseAtoms rules := by
  rw [linksOf, List.length_flatMap]
  calc _ ≤ (((rules.map CompiledRule.premise).zipIdx).map fun x => x.1.length).sum := by
        refine List.sum_le_sum fun x _ => ?_
        exact (List.length_filterMap_le _ _).trans (le_of_eq List.length_zipIdx)
    _ = premiseAtoms rules := by
        rw [sum_length_zipIdx, List.map_map]
        rfl

variable [Arrangement]

/-! ### Adding conclusions -/

/-- A conclusion and a triple that it gives for some valuation for which the premise is in the graph. -/
def Follows (rules : List CompiledRule) (index : GraphIndex) (drawn : Conclusion × Triple Nat) : Prop :=
  ∃ rule ∈ rules, drawn.1 ∈ rule.conclusion ∧ ∃ ρ, drawn.1.atom.map (Slot.under ρ) = drawn.2 ∧
    ∀ atom ∈ rule.premise, index.contains (atom.map (Slot.under ρ)) = true

/-- A triple that is tried where it is a premise atom of a rule. -/
def pending (number : Nat) (rule : CompiledRule) (position : Nat) (base : Atom) (ρ : Nat → Nat) : Task :=
  ⟨⟨number, base, rule.premise.eraseIdx position⟩, base.map (Slot.under ρ)⟩

/-- A task whose link is one of the rules and whose triple is in the graph. -/
def Task.IsSound (rules : List CompiledRule) (index : GraphIndex) (task : Task) : Prop :=
  index.contains task.fact = true ∧ ∃ rule position, rules[task.link.rule]? = some rule ∧
    rule.premise[position]? = some task.link.base ∧ task.link.others = rule.premise.eraseIdx position

theorem Task.IsSound.mono {rules : List CompiledRule} {index index' : GraphIndex}
    (h : ∀ t, index.contains t = true → index'.contains t = true)
    {task : Task} (htask : task.IsSound rules index) : task.IsSound rules index' :=
  ⟨h _ htask.1, htask.2⟩

namespace Closure

/-- What adding conclusions does: the graph grows only by what follows, each new triple is left to be tried wherever
it is a premise atom, and each brings at most one task for each premise atom. -/
structure Grows (rules : List CompiledRule) (c c' : Closure) : Prop where
  coherent : c'.index.Coherent
  contains : ∀ t, c.index.contains t = true → c'.index.contains t = true
  sound : ∀ T, ClosedUnder rules T → (∀ t, c.index.contains t = true → t ∈ T) →
    ∀ t, c'.index.contains t = true → t ∈ T
  tasks : ∀ task ∈ c.tasks, task ∈ c'.tasks
  isSound : ∀ task ∈ c'.tasks, task ∈ c.tasks ∨ task.IsSound rules c'.index
  tried : ∀ {number rule position base}, rules[number]? = some rule → rule.premise[position]? = some base →
    ∀ ρ, c'.index.contains (base.map (Slot.under ρ)) = true → c.index.contains (base.map (Slot.under ρ)) = false →
      pending number rule position base ρ ∈ c'.tasks
  count : c'.tasks.length + c.index.triples.card * premiseAtoms rules ≤
    c.tasks.length + c'.index.triples.card * premiseAtoms rules

variable {rules : List CompiledRule} {c c' c'' : Closure}

theorem Grows.refl (hc : c.index.Coherent) : Grows rules c c where
  coherent := hc
  contains _ h := h
  sound _ _ h := h
  tasks _ h := h
  isSound _ h := .inl h
  tried _ _ ρ h h' := by
    rw [h] at h'
    cases h'
  count := le_refl _

theorem Grows.trans (h : Grows rules c c') (h' : Grows rules c' c'') : Grows rules c c'' where
  coherent := h'.coherent
  contains t ht := h'.contains t (h.contains t ht)
  sound T hT ht := h'.sound T hT (h.sound T hT ht)
  tasks task htask := h'.tasks task (h.tasks task htask)
  isSound task htask := by
    rcases h'.isSound task htask with htask | htask
    · exact (h.isSound task htask).imp_right (Task.IsSound.mono h'.contains)
    · exact .inr htask
  tried {number rule position base} hrule hbase ρ hnew hold := by
    by_cases hmid : c'.index.contains (base.map (Slot.under ρ)) = true
    · exact h'.tasks _ (h.tried hrule hbase ρ hmid hold)
    · exact h'.tried hrule hbase ρ hnew (eq_false_of_ne_true hmid)
  count := by
    have := h.count
    have := h'.count
    omega

theorem assert_of_contains {conclusion : Conclusion} {fact : Triple Nat} (h : c.index.contains fact = true) :
    c.assert conclusion fact = c := by
  rw [assert, GraphIndex.insert_of_contains h]
  rfl

theorem assert_of_not_contains (conclusion : Conclusion) {fact : Triple Nat} (h : c.index.contains fact = false) :
    (c.assert conclusion fact).index = (c.index.insert fact).2 ∧
      (c.assert conclusion fact).tasks = (conclusion.links.map (⟨·, fact⟩)).reverse ++ c.tasks := by
  have hnew : (c.index.insert fact).1 = true := by rw [GraphIndex.insert_fst, h, Bool.not_false]
  rw [assert]
  dsimp only
  rw [if_pos hnew]
  exact ⟨rfl, rfl⟩

/-- What is in the graph after a conclusion has been added. -/
theorem contains_assert {conclusion : Conclusion} {fact t : Triple Nat} :
    (c.assert conclusion fact).index.contains t = true ↔ t = fact ∨ c.index.contains t = true := by
  by_cases h : c.index.contains fact = true
  · rw [assert_of_contains h]
    refine ⟨.inr, ?_⟩
    rintro (rfl | ht)
    · exact h
    · exact ht
  · rw [(assert_of_not_contains _ (eq_false_of_ne_true h)).1, GraphIndex.contains_insert]

/-- Adding what follows makes the graph grow as it should. -/
private theorem grows_assert (hrules : Linked rules) (hc : c.index.Coherent) {conclusion : Conclusion}
    {fact : Triple Nat} (h : Follows rules c.index (conclusion, fact)) : Grows rules c (c.assert conclusion fact) := by
  by_cases hold : c.index.contains fact = true
  · rw [assert_of_contains hold]
    exact .refl hc
  · obtain ⟨hindex, htasks⟩ := assert_of_not_contains conclusion (eq_false_of_ne_true hold)
    obtain ⟨rule, hrule, hconclusion, ρ, hfact, hpremise⟩ := h
    dsimp only at hconclusion hfact
    have hlinks := hrules.links rule hrule conclusion hconclusion
    exact {
      coherent := by
        rw [hindex]
        exact hc.insert fact
      contains := fun t ht => contains_assert.2 (.inr ht)
      sound := by
        intro T hT hsub t ht
        rcases contains_assert.1 ht with rfl | ht
        · rw [← hfact]
          exact hT rule hrule ρ (fun atom hatom => hsub _ (hpremise atom hatom)) conclusion hconclusion
        · exact hsub t ht
      tasks := by
        intro task htask
        rw [htasks]
        exact List.mem_append_right _ htask
      isSound := by
        intro task htask
        rw [htasks, List.mem_append, List.mem_reverse, List.mem_map] at htask
        rcases htask with ⟨link, hlink, rfl⟩ | htask
        · rw [hlinks, mem_linksOf] at hlink
          obtain ⟨premise, position, hpremise, hbase, hothers, -⟩ := hlink
          rw [List.getElem?_map, Option.map_eq_some_iff] at hpremise
          obtain ⟨other, hother, rfl⟩ := hpremise
          exact .inr ⟨contains_assert.2 (.inl rfl), other, position, hother, hbase, hothers⟩
        · exact .inl htask
      tried := by
        intro number other position base hother hbase σ hnew hmissing
        -- the new triple is the conclusion, which is linked to the atom because both are this triple
        have heq : base.map (Slot.under σ) = fact := by
          rcases contains_assert.1 hnew with heq | hthere
          · exact heq
          · rw [hthere] at hmissing
            cases hmissing
        rw [htasks, List.mem_append, List.mem_reverse, List.mem_map]
        refine .inl ⟨⟨number, base, other.premise.eraseIdx position⟩, ?_, by rw [pending, heq]⟩
        rw [hlinks, mem_linksOf]
        refine ⟨other.premise, position, ?_, hbase, rfl, ?_⟩
        · rw [List.getElem?_map, hother, Option.map_some]
        · exact unifiable_of_map_eq (hfact.trans heq.symm)
      count := by
        -- one triple more, and no more tasks than there are premise atoms to link it to
        have hcard : (c.assert conclusion fact).index.triples.card = c.index.triples.card + 1 := by
          rw [hindex, hc.triples_insert, Finset.card_insert_of_notMem]
          rwa [hc.mem_triples]
        have hlength := length_linksOf_le rules conclusion.atom
        rw [htasks, hcard, List.length_append, List.length_reverse, List.length_map, hlinks, Nat.add_mul]
        omega }

theorem Follows.mono {index index' : GraphIndex} (h : ∀ t, index.contains t = true → index'.contains t = true)
    {drawn : Conclusion × Triple Nat} (hdrawn : Follows rules index drawn) : Follows rules index' drawn := by
  obtain ⟨rule, hrule, hconclusion, ρ, hfact, hpremise⟩ := hdrawn
  exact ⟨rule, hrule, hconclusion, ρ, hfact, fun atom hatom => h _ (hpremise atom hatom)⟩

/-- The same for several conclusions, all of which are in the graph afterwards. -/
theorem grows_assertAll (hrules : Linked rules) (hc : c.index.Coherent) {drawn : List (Conclusion × Triple Nat)}
    (h : ∀ x ∈ drawn, Follows rules c.index x) :
    Grows rules c (c.assertAll drawn) ∧ ∀ x ∈ drawn, (c.assertAll drawn).index.contains x.2 = true := by
  induction drawn generalizing c with
  | nil => exact ⟨.refl hc, by simp⟩
  | cons x drawn ih =>
    have hfirst := grows_assert hrules hc (h x List.mem_cons_self)
    obtain ⟨hrest, hall⟩ := ih hfirst.coherent fun y hy =>
      Follows.mono hfirst.contains (h y (List.mem_cons_of_mem x hy))
    refine ⟨hfirst.trans hrest, fun y hy => ?_⟩
    rcases List.mem_cons.1 hy with rfl | hy
    · exact hrest.contains _ (contains_assert.2 (.inl rfl))
    · exact hall y hy

/-! ### Trying rules -/

/-- All that a rule concludes is in the graph or left to be tried. -/
def Settled (c : Closure) (number : Nat) (rule : CompiledRule) : Prop :=
  ∀ ρ, (∀ atom ∈ rule.premise, c.index.contains (atom.map (Slot.under ρ)) = true) →
    (∀ k ∈ rule.conclusion, c.index.contains (k.atom.map (Slot.under ρ)) = true) ∨
      ∃ position base, rule.premise[position]? = some base ∧ pending number rule position base ρ ∈ c.tasks

/-- After a graph has grown, a rule is settled if it is for the valuations that were possible before: for all others
some premise atom is new. -/
theorem Grows.settled (h : Grows rules c c') {number : Nat} {rule : CompiledRule} (hrule : rules[number]? = some rule)
    (hold : ∀ ρ, (∀ atom ∈ rule.premise, c.index.contains (atom.map (Slot.under ρ)) = true) →
      (∀ k ∈ rule.conclusion, c'.index.contains (k.atom.map (Slot.under ρ)) = true) ∨
        ∃ position base, rule.premise[position]? = some base ∧ pending number rule position base ρ ∈ c'.tasks) :
    c'.Settled number rule := by
  intro ρ hpremise
  by_cases hall : ∀ atom ∈ rule.premise, c.index.contains (atom.map (Slot.under ρ)) = true
  · exact hold ρ hall
  · simp only [not_forall] at hall
    obtain ⟨atom, hatom, hnew⟩ := hall
    obtain ⟨position, hposition⟩ := List.getElem?_of_mem hatom
    exact .inr ⟨position, atom, hposition,
      h.tried hrule hposition ρ (hpremise atom hatom) (eq_false_of_ne_true hnew)⟩

/-- A settled rule stays settled while the graph grows. -/
theorem Settled.mono (h : Grows rules c c') {number : Nat} {rule : CompiledRule} (hrule : rules[number]? = some rule)
    (hsettled : c.Settled number rule) : c'.Settled number rule := by
  refine h.settled hrule fun ρ hpremise => ?_
  rcases hsettled ρ hpremise with hall | ⟨position, base, hbase, htask⟩
  · exact .inl fun k hk => h.contains _ (hall k hk)
  · exact .inr ⟨position, base, hbase, h.tasks _ htask⟩

omit [Arrangement] in
private theorem slot_of_conclusion {rule : CompiledRule} (hrule : rule.WellScoped) {k : Conclusion}
    (hk : k ∈ rule.conclusion) {slot : Slot} (hslot : slot ∈ k.atom.toList) :
    (∃ id, slot = .const id) ∨ ∃ atom ∈ rule.premise, slot ∈ atom.toList := by
  cases slot with
  | const id => exact .inl ⟨id, rfl⟩
  | var number => exact .inr (hrule.conclusion k hk number hslot)

/-- What seeding with one rule does. -/
private theorem grows_seed_one (hrules : Linked rules) (hc : c.index.Coherent) {number : Nat} {rule : CompiledRule}
    (hrule : rules[number]? = some rule) :
    let c' := c.assertAll (solve c.index rule.conclusion rule.premise (.unbound rule.variableCount)).1
    Grows rules c c' ∧ c'.Settled number rule := by
  have hmem := List.mem_of_getElem? hrule
  have hscope : ∀ atom ∈ rule.premise, InScope (Env.unbound rule.variableCount).length atom := by
    intro atom hatom
    rw [Env.unbound, List.length_replicate]
    exact (hrules.wellScoped rule hmem).premise atom hatom
  obtain ⟨hgrows, hall⟩ := grows_assertAll hrules hc fun x hx => by
    obtain ⟨hconclusion, ρ, -, hfact, hpremise⟩ := hc.exists_of_mem_solve hscope hx
    exact ⟨rule, hmem, hconclusion, ρ, hfact, hpremise⟩
  refine ⟨hgrows, hgrows.settled hrule fun ρ hpremise => .inl fun k hk => ?_⟩
  refine hall _ (hc.mem_solve hscope (Env.unbound_below _ ρ) hpremise hk fun slot hslot => ?_)
  rcases slot_of_conclusion (hrules.wellScoped rule hmem) hk hslot with ⟨id, rfl⟩ | hbound
  · exact .inl ⟨id, rfl⟩
  · exact .inr hbound

/-- After seeding with all rules each of them is settled, also those that were tried before the last triples came. -/
theorem grows_seed (hrules : Linked rules) (hc : c.index.Coherent) :
    Grows rules c (seed rules c) ∧
      ∀ {number rule}, rules[number]? = some rule → (seed rules c).Settled number rule := by
  -- the rules are split into those that have been tried, which stay settled, and those still to be tried
  suffices hfrom : ∀ todo tried c, rules = tried ++ todo → c.index.Coherent →
      (∀ {number rule}, tried[number]? = some rule → c.Settled number rule) →
      Grows rules c (seed todo c) ∧
        ∀ {number rule}, rules[number]? = some rule → (seed todo c).Settled number rule by
    exact hfrom rules [] c rfl hc (by simp)
  intro todo
  induction todo with
  | nil =>
    intro tried c hsplit hc hsettled
    rw [List.append_nil] at hsplit
    exact ⟨.refl hc, fun h => hsettled (hsplit ▸ h)⟩
  | cons rule todo ih =>
    intro tried c hsplit hc hsettled
    have hrule : rules[tried.length]? = some rule := by simp [hsplit]
    obtain ⟨hone, hnow⟩ := grows_seed_one hrules hc hrule
    obtain ⟨hrest, hall⟩ := ih (tried ++ [rule])
      (c.assertAll (solve c.index rule.conclusion rule.premise (.unbound rule.variableCount)).1) (by simp [hsplit])
      hone.coherent fun {number other} hother => by
        by_cases hnumber : number < tried.length
        · rw [List.getElem?_append_left hnumber] at hother
          refine Settled.mono hone ?_ (hsettled hother)
          rw [hsplit, List.getElem?_append_left hnumber, hother]
        · -- this is the rule that has just been tried
          obtain ⟨rfl, rfl⟩ : number = tried.length ∧ rule = other := by
            rw [List.getElem?_append_right (Nat.le_of_not_lt hnumber), List.getElem?_singleton] at hother
            split at hother
            · exact ⟨by omega, Option.some.inj hother⟩
            · cases hother
          exact hnow
    exact ⟨hone.trans hrest, hall⟩

omit [Arrangement] in
private theorem mem_of_mem_premise {premise : List Atom} {position : Nat} {base atom : Atom}
    (hbase : premise[position]? = some base) : atom ∈ premise ↔ atom = base ∨ atom ∈ premise.eraseIdx position := by
  obtain ⟨hlength, rfl⟩ := List.getElem?_eq_some_iff.1 hbase
  rw [← (List.getElem_cons_eraseIdx_perm hlength).mem_iff, List.mem_cons]

/-- What trying a triple does: the graph grows, and for all valuations that make the atom this triple the rule's
conclusions are in it. -/
private theorem grows_follow (hrules : Linked rules) (hc : c.index.Coherent) {task : Task}
    (htask : task.IsSound rules c.index) :
    Grows rules c (follow rules c task) ∧ ∀ {rule position} ρ, rules[task.link.rule]? = some rule →
      task = pending task.link.rule rule position task.link.base ρ → rule.premise[position]? = some task.link.base →
      (∀ atom ∈ rule.premise, c.index.contains (atom.map (Slot.under ρ)) = true) →
      ∀ k ∈ rule.conclusion, (follow rules c task).index.contains (k.atom.map (Slot.under ρ)) = true := by
  obtain ⟨⟨number, base, others⟩, fact⟩ := task
  obtain ⟨hfact, rule, position, hrule, hbase, hothers⟩ := htask
  dsimp only at hfact hrule hbase hothers
  subst hothers
  have hmem := List.mem_of_getElem? hrule
  have hwell := hrules.wellScoped rule hmem
  generalize hunbound : Env.unbound rule.variableCount = env
  have hlength : env.length = rule.variableCount := by rw [← hunbound, Env.unbound, List.length_replicate]
  have hbelow : ∀ ρ, env.Below ρ := fun ρ => hunbound ▸ Env.unbound_below _ ρ
  have hfollow : follow rules c ⟨⟨number, base, rule.premise.eraseIdx position⟩, fact⟩ =
      if (env.bind base fact).1 then
        c.assertAll (solve c.index rule.conclusion (rule.premise.eraseIdx position) (env.bind base fact).2.1).1
      else c := by
    rw [follow, hrule]
    dsimp only
    rw [hunbound]
  have hbaseScope : InScope env.length base := by
    rw [hlength]
    exact hwell.premise base (List.mem_of_getElem? hbase)
  have hscope : ∀ atom ∈ rule.premise.eraseIdx position, InScope (env.bind base fact).2.1.length atom := by
    intro atom hatom
    rw [Env.length_bind, hlength]
    exact hwell.premise atom (List.mem_of_mem_eraseIdx hatom)
  rw [hfollow]
  by_cases hfits : (env.bind base fact).1 = true
  · rw [if_pos hfits]
    have hvalues := Env.map_value_bind hbaseScope hfits
    obtain ⟨hgrows, hall⟩ := grows_assertAll hrules hc fun x hx => by
      obtain ⟨hconclusion, ρ, hρ, hdrawn, hpremise⟩ := hc.exists_of_mem_solve hscope hx
      refine ⟨rule, hmem, hconclusion, ρ, hdrawn, fun atom hatom => ?_⟩
      rcases (mem_of_mem_premise hbase).1 hatom with rfl | hatom
      · have heq : atom.map (Slot.under ρ) = fact := map_under_eq.2 fun y hy => hρ.value (hvalues y hy)
        rw [heq]
        exact hfact
      · exact hpremise atom hatom
    refine ⟨hgrows, fun {rule' position'} ρ hrule' htask hbase' hpremise k hk => ?_⟩
    obtain rfl : rule = rule' := Option.some.inj (hrule.symm.trans hrule')
    simp only [pending, Task.mk.injEq, Link.mk.injEq, true_and] at htask
    obtain ⟨-, hfactEq⟩ := htask
    -- the valuation is still possible after the atom has been matched, so evaluating the rest finds it
    obtain ⟨-, hρ⟩ := Env.bind_of_below (hbelow ρ) hfactEq.symm
    have hothers : ∀ atom ∈ rule.premise.eraseIdx position, c.index.contains (atom.map (Slot.under ρ)) = true :=
      fun atom hatom => hpremise atom (List.mem_of_mem_eraseIdx hatom)
    have hbound : ∀ slot ∈ k.atom.toList, (∃ id, (env.bind base fact).2.1.value slot = some id) ∨
        ∃ atom ∈ rule.premise.eraseIdx position, slot ∈ atom.toList := by
      intro slot hslot
      rcases slot_of_conclusion hwell hk hslot with ⟨id, rfl⟩ | ⟨atom, hatom, hmemSlot⟩
      · exact .inl ⟨id, rfl⟩
      · rcases (mem_of_mem_premise hbase).1 hatom with rfl | hatom
        · exact .inl (Env.exists_value_of_mem hvalues hmemSlot)
        · exact .inr ⟨atom, hatom, hmemSlot⟩
    exact hall (k, k.atom.map (Slot.under ρ)) (hc.mem_solve hscope hρ hothers hk hbound)
  · -- the atom fits no valuation that makes it this triple, so there is nothing to conclude
    rw [if_neg hfits]
    refine ⟨.refl hc, fun {rule' position'} ρ hrule' htask _ _ => ?_⟩
    simp only [pending, Task.mk.injEq] at htask
    exact absurd (Env.bind_of_below (hbelow ρ) htask.2.symm).1 hfits

/-! ### Doing all tasks -/

/-- What holds of a graph on its way to being closed. -/
structure Invariant (rules : List CompiledRule) (index : GraphIndex) (c : Closure) : Prop where
  coherent : c.index.Coherent
  contains : ∀ t, index.contains t = true → c.index.contains t = true
  sound : ∀ T, ClosedUnder rules T → (∀ t, index.contains t = true → t ∈ T) →
    ∀ t, c.index.contains t = true → t ∈ T
  isSound : ∀ task ∈ c.tasks, task.IsSound rules c.index
  settled : ∀ {number rule}, rules[number]? = some rule → c.Settled number rule

theorem invariant_seed (hrules : Linked rules) {index : GraphIndex} (hindex : index.Coherent) :
    Invariant rules index (seed rules { index }) := by
  obtain ⟨hgrows, hsettled⟩ := grows_seed (c := { index }) hrules hindex
  refine ⟨hgrows.coherent, hgrows.contains, hgrows.sound, fun task htask => ?_, hsettled⟩
  rcases hgrows.isSound task htask with h | h
  · cases h
  · exact h

/-- Doing one task keeps the invariant, and the task is not left to be done. -/
theorem Invariant.follow (hrules : Linked rules) {index : GraphIndex} (h : Invariant rules index c) {task : Task}
    {tasks : List Task} (htasks : c.tasks = task :: tasks) :
    let c' := Closure.follow rules { c with tasks, propagations := c.propagations + 1 } task
    Invariant rules index c' ∧
      c'.tasks.length + c.index.triples.card * premiseAtoms rules + 1 ≤
        c.tasks.length + c'.index.triples.card * premiseAtoms rules := by
  have htask : task.IsSound rules c.index := h.isSound task (by simp [htasks])
  obtain ⟨hgrows, hdone⟩ :=
    grows_follow (c := { c with tasks, propagations := c.propagations + 1 }) hrules h.coherent htask
  generalize Closure.follow rules { c with tasks, propagations := c.propagations + 1 } task = c' at hgrows hdone
  refine ⟨⟨hgrows.coherent, fun t ht => hgrows.contains t (h.contains t ht), fun T hT hsub => ?_,
    fun other hother => ?_, fun {number rule} hrule => hgrows.settled hrule fun ρ hpremise => ?_⟩, ?_⟩
  · exact hgrows.sound T hT (h.sound T hT hsub)
  · rcases hgrows.isSound other hother with hold | hnew
    · exact Task.IsSound.mono hgrows.contains (h.isSound other (by simp [htasks, hold]))
    · exact hnew
  · rcases h.settled hrule ρ hpremise with hall | ⟨position, base, hbase, hpending⟩
    · exact .inl fun k hk => hgrows.contains _ (hall k hk)
    · -- either this valuation was left to the task that has just been done, or it is left to a later one
      rw [htasks, List.mem_cons] at hpending
      rcases hpending with rfl | hpending
      · exact .inl (hdone ρ hrule rfl hbase hpremise)
      · exact .inr ⟨position, base, hbase, hgrows.tasks _ hpending⟩
  · have hcount := hgrows.count
    rw [htasks, List.length_cons]
    dsimp only at hcount
    omega

/-- When nothing is left to be tried the graph is closed under the rules. -/
theorem Invariant.closedUnder {index : GraphIndex} (h : Invariant rules index c) (htasks : c.tasks = []) :
    ClosedUnder rules {t | c.index.contains t = true} := by
  intro rule hrule ρ hpremise k hk
  obtain ⟨number, hnumber⟩ := List.getElem?_of_mem hrule
  rcases h.settled hnumber ρ hpremise with hall | ⟨position, base, -, hpending⟩
  · exact hall k hk
  · rw [htasks] at hpending
    cases hpending

/-- As long as there are steps for all tasks that the triples still missing can bring, no task is left. -/
theorem Invariant.propagate (hrules : Linked rules) {index : GraphIndex} {bound : Nat}
    (hbound : ∀ c, Invariant rules index c → c.index.triples.card ≤ bound) {steps : Nat} (h : Invariant rules index c)
    (hsteps : c.tasks.length + bound * premiseAtoms rules ≤ steps + c.index.triples.card * premiseAtoms rules) :
    Invariant rules index (propagate rules steps c) ∧ (propagate rules steps c).tasks = [] := by
  -- each step lowers the tasks by one, and each new triple, which brings tasks, raises the right-hand side by as many
  induction steps generalizing c with
  | zero =>
    have hcard := Nat.mul_le_mul_right (premiseAtoms rules) (hbound c h)
    refine ⟨h, List.eq_nil_of_length_eq_zero ?_⟩
    rw [Closure.propagate]
    omega
  | succ steps ih =>
    rw [Closure.propagate.eq_def]
    dsimp only
    cases htasks : c.tasks with
    | nil => exact ⟨h, htasks⟩
    | cons task tasks =>
      obtain ⟨hnext, hcount⟩ := h.follow hrules htasks
      exact ih hnext (by omega)

end Closure

/-! ### The bound -/

/-- The numbers of the constants in some atoms. -/
def constantsOf (atoms : List Atom) : List Nat :=
  atoms.flatMap fun atom => atom.toList.filterMap fun
    | .const id => some id
    | .var _ => none

omit [Arrangement] in
theorem length_constantsOf_le (atoms : List Atom) : (constantsOf atoms).length ≤ 3 * atoms.length := by
  induction atoms with
  | nil => simp [constantsOf]
  | cons atom atoms ih =>
    have hatom := List.length_filterMap_le (fun | Slot.const id => some id | .var _ => none) atom.toList
    have hthree : atom.toList.length = 3 := rfl
    simp only [constantsOf, List.flatMap_cons, List.length_append, List.length_cons] at ih ⊢
    omega

/-- The atoms of the premises and conclusions of rules. -/
def atomsOf (rules : List CompiledRule) : List Atom :=
  rules.flatMap fun rule => rule.premise ++ rule.conclusion.map Conclusion.atom

omit [Arrangement] in
theorem length_atomsOf (rules : List CompiledRule) : (atomsOf rules).length = allAtoms rules := by
  simp [atomsOf, allAtoms, List.length_flatMap]

/-- The numbers that occur in a graph and as constants of rules. -/
def numbersOf (rules : List CompiledRule) (index : GraphIndex) : Finset Nat :=
  (index.triples.biUnion fun t => t.toList.toFinset) ∪ (constantsOf (atomsOf rules)).toFinset

theorem card_numbersOf_le {rules : List CompiledRule} {index : GraphIndex} (hindex : index.Coherent) :
    (numbersOf rules index).card ≤ 3 * index.size + 3 * allAtoms rules := by
  have htriples : (index.triples.biUnion fun t => t.toList.toFinset).card ≤ index.triples.card * 3 :=
    Finset.card_biUnion_le_card_mul _ _ 3 fun t _ => List.toFinset_card_le t.toList
  have hconstants := List.toFinset_card_le (constantsOf (atomsOf rules))
  have hlength := length_constantsOf_le (atomsOf rules)
  have hunion := Finset.card_union_le (index.triples.biUnion fun t => t.toList.toFinset)
    (constantsOf (atomsOf rules)).toFinset
  rw [length_atomsOf] at hlength
  rw [hindex.card_triples] at htriples
  unfold numbersOf
  omega

/-- The triples of some numbers. -/
def triplesOver (numbers : Finset Nat) : Set (Triple Nat) :=
  {t | ∀ n ∈ t.toList, n ∈ numbers}

omit [Arrangement] in
theorem card_le_of_subset_triplesOver {triples : Finset (Triple Nat)} {numbers : Finset Nat}
    (h : ∀ t ∈ triples, t ∈ triplesOver numbers) : triples.card ≤ numbers.card ^ 3 := by
  have hle : triples.card ≤ (numbers ×ˢ numbers ×ˢ numbers).card := by
    refine Finset.card_le_card_of_injOn (fun t => (t.subject, t.predicate, t.object)) (fun t ht => ?_)
      fun t _ u _ heq => ?_
    · have hmem := h t ht
      simp only [Finset.coe_product, Set.mem_prod, Finset.mem_coe]
      exact ⟨hmem _ (by simp [Triple.toList]), hmem _ (by simp [Triple.toList]), hmem _ (by simp [Triple.toList])⟩
    · simp only [Prod.mk.injEq] at heq
      exact Triple.ext heq.1 heq.2.1 heq.2.2
  rw [Finset.card_product, Finset.card_product] at hle
  calc triples.card ≤ numbers.card * (numbers.card * numbers.card) := hle
    _ = numbers.card ^ 3 := by ring

omit [Arrangement] in
/-- A value of a slot is a constant, or that of a variable of the premise. -/
private theorem under_mem_of_premise {rule : CompiledRule} (hrule : rule.WellScoped) {numbers : Set Nat} {ρ : Nat → Nat}
    (hconstants : ∀ c ∈ rule.conclusion, ∀ id, .const id ∈ c.atom.toList → id ∈ numbers)
    (hpremise : ∀ atom ∈ rule.premise, ∀ n ∈ (atom.map (Slot.under ρ)).toList, n ∈ numbers) {c : Conclusion}
    (hc : c ∈ rule.conclusion) : ∀ n ∈ (c.atom.map (Slot.under ρ)).toList, n ∈ numbers := by
  intro n hn
  have hslot : ∃ slot ∈ c.atom.toList, slot.under ρ = n := by
    simpa [Triple.map, Triple.toList, eq_comm] using hn
  obtain ⟨slot, hslot, rfl⟩ := hslot
  cases slot with
  | const id => exact hconstants c hc id hslot
  | var number =>
    obtain ⟨atom, hatom, hvar⟩ := hrule.conclusion c hc number hslot
    refine hpremise atom hatom _ ?_
    simp only [Triple.toList, List.mem_cons, List.not_mem_nil, or_false] at hvar
    rcases hvar with h | h | h <;> simp [Triple.map, Triple.toList, ← h]

omit [Arrangement] in
/-- The rules make no new numbers. -/
theorem closedUnder_over {rules : List CompiledRule} (hrules : ∀ rule ∈ rules, rule.WellScoped) {numbers : Set Nat}
    (hconstants : ∀ id ∈ constantsOf (atomsOf rules), id ∈ numbers) :
    ClosedUnder rules {t | ∀ n ∈ t.toList, n ∈ numbers} := by
  intro rule hrule ρ hpremise c hc
  refine under_mem_of_premise (hrules rule hrule) (fun k hk id hid => hconstants id ?_) hpremise hc
  simp only [constantsOf, atomsOf, List.mem_flatMap, List.mem_append, List.mem_map, List.mem_filterMap]
  exact ⟨k.atom, ⟨rule, hrule, .inr ⟨k, hk, rfl⟩⟩, .const id, hid, rfl⟩

/-- In a graph on its way to being closed there are no more triples than the bound on the steps allows for. -/
theorem card_le_of_invariant {rules : List CompiledRule} (hrules : Linked rules) {index : GraphIndex}
    (hindex : index.Coherent) {c : Closure} (h : c.Invariant rules index) :
    c.index.triples.card ≤ (3 * index.size + 3 * allAtoms rules) ^ 3 := by
  have hclosed : ClosedUnder rules (triplesOver (numbersOf rules index)) :=
    closedUnder_over hrules.wellScoped fun id hid => by simp [numbersOf, hid]
  -- the triples over the numbers that occur are a set that is closed under the rules, so soundness bounds the graph
  have hwithin : ∀ t ∈ c.index.triples, t ∈ triplesOver (numbersOf rules index) := by
    intro t ht
    refine h.sound _ hclosed (fun u hu n hn => ?_) t (h.coherent.mem_triples.1 ht)
    rw [numbersOf, Finset.mem_union, Finset.mem_biUnion]
    exact .inl ⟨u, hindex.mem_triples.2 hu, List.mem_toFinset.2 hn⟩
  exact (card_le_of_subset_triplesOver hwithin).trans (Nat.pow_le_pow_left (card_numbersOf_le hindex) 3)

/-! ### The closed graph -/

/-- Closing a graph does all tasks. -/
theorem invariant_closeGraph {rules : List CompiledRule} (hrules : Linked rules) {index : GraphIndex}
    (hindex : index.Coherent) :
    (closeGraph rules index).Invariant rules index ∧ (closeGraph rules index).tasks = [] := by
  have hseed := Closure.invariant_seed hrules hindex
  have hgrows := (Closure.grows_seed (c := { index }) hrules hindex).1.count
  unfold closeGraph
  refine hseed.propagate hrules (fun c hc => card_le_of_invariant hrules hindex hc) ?_
  have hbound : stepBound rules index = (3 * index.size + 3 * allAtoms rules) ^ 3 * premiseAtoms rules := rfl
  simp only [List.length_nil] at hgrows
  omega

/-- A closed graph holds the triples that are in every set that contains those of the graph and is closed under the
rules. -/
theorem contains_closeGraph {rules : List CompiledRule} (hrules : Linked rules) {index : GraphIndex}
    (hindex : index.Coherent) {t : Triple Nat} :
    (closeGraph rules index).index.contains t = true ↔
      ∀ T, ClosedUnder rules T → (∀ u, index.contains u = true → u ∈ T) → t ∈ T := by
  obtain ⟨hinvariant, htasks⟩ := invariant_closeGraph hrules hindex
  constructor
  · exact fun h T hT hsub => hinvariant.sound T hT hsub t h
  · exact fun h => h _ (hinvariant.closedUnder htasks) hinvariant.contains

end RdfDataset
