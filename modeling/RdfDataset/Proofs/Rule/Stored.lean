import RdfDataset.Proofs.Dataset.BlankNode
import RdfDataset.Proofs.Dataset.Refused
import RdfDataset.Proofs.Reasoning.Derived
import RdfDataset.Proofs.Rule.Variant

/-!
# Rules that a dataset states

A dataset states one rule for each implication between two of its graphs.  The quads of these graphs come in no
particular order, and none is needed: variants of rules conclude the same.

* `Dataset.States`: some rules are those that a dataset states; `Dataset.Valid.states_storedRules` reads them.
* `Dataset.States.sameRules`: they are determined but for the order of rules and patterns.
* `Dataset.SameOutcome`: two runs of a reasoner fail both, or derive as much and end with the same quads.
* `Dataset.Reachable.sameOutcome_of_sameRules`: this is what variants of rules do.
-/

namespace RdfDataset

namespace Dataset

section

variable [Arrangement] {d : Dataset} {rules rules' : List Rule}

/-! ### Reading rules -/

/-- The statements in the default graph that one graph implies another. -/
def implications (d : Dataset) : Finset Quad :=
  d.quads.filter fun q => q.predicate = .iri Vocabulary.Log.implies ∧ q.graph = .defaultGraph

/-- An implication stands for a rule: its premise has each triple of the one graph once and nothing else, its conclusion
each triple of the other. -/
structure StandsFor (d : Dataset) (implication : Quad) (rule : Rule) : Prop where
  nodup_premise : rule.premise.Nodup
  mem_premise : ∀ pattern, pattern ∈ rule.premise ↔ pattern ∈ d.triplesIn implication.subject
  nodup_conclusion : rule.conclusion.Nodup
  mem_conclusion : ∀ pattern, pattern ∈ rule.conclusion ↔ pattern ∈ d.triplesIn implication.object

/-- A dataset states some rules: there is one for each implication, and there are no others. -/
def States (d : Dataset) (rules : List Rule) : Prop :=
  ∃ implications : List Quad, implications.Nodup ∧ implications.toFinset = d.implications ∧
    List.Forall₂ d.StandsFor implications rules

/-- A formula has each triple of its graph once. -/
theorem Valid.formula (hd : d.Valid) {graph : Term} (hgraph : graph.IsValid) :
    (d.formula graph).Nodup ∧ ∀ pattern, pattern ∈ d.formula graph ↔ pattern ∈ d.triplesIn graph := by
  have hmem : ∀ q, q ∈ d.matching { graph := some graph } ↔ q ∈ d.quads ∧ q.graph = graph := by
    intro q
    rw [hd.mem_matching ⟨by simp, by simp, by simp, by simpa using hgraph⟩]
    simp [Pattern.Matches]
  constructor
  · refine (hd.nodup_matching _).map_on fun q hq q' hq' heq => ?_
    obtain ⟨hs, hp, ho⟩ := Triple.mk.inj heq
    have hsame : q.graph = q'.graph := ((hmem q).1 hq).2.trans ((hmem q').1 hq').2.symm
    cases q
    cases q'
    simp_all
  · intro pattern
    simp only [Dataset.formula, List.mem_map, hmem, triplesIn, Set.mem_ofPred_eq]
    constructor
    · rintro ⟨q, ⟨hq, rfl⟩, rfl⟩
      exact hq
    · intro hq
      exact ⟨_, ⟨hq, rfl⟩, rfl⟩

theorem Valid.standsFor (hd : d.Valid) {implication : Quad} (h : implication ∈ d.quads) :
    d.StandsFor implication ⟨d.formula implication.subject, d.formula implication.object⟩ := by
  obtain ⟨hsubject, -, hobject, -⟩ := Quad.isValid_iff.1 (hd.isValid_of_mem h)
  obtain ⟨hpremise, hpremise'⟩ := hd.formula hsubject
  obtain ⟨hconclusion, hconclusion'⟩ := hd.formula hobject
  exact ⟨hpremise, hpremise', hconclusion, hconclusion'⟩

/-- The implications are listed once each, and their rules are those that are read. -/
private theorem Valid.exists_implications (hd : d.Valid) :
    ∃ implications : List Quad, implications.Nodup ∧ implications.toFinset = d.implications ∧
      d.storedRules = implications.map fun q => ⟨d.formula q.subject, d.formula q.object⟩ := by
  refine ⟨_, hd.nodup_matching { predicate := some (.iri Vocabulary.Log.implies), graph := some .defaultGraph }, ?_, rfl⟩
  have himplies : (Term.iri Vocabulary.Log.implies).IsValid := Term.isValid_iri.2 (by decide)
  ext q
  rw [List.mem_toFinset, hd.mem_matching ⟨by simp, by simpa using himplies, by simp, by simp [Term.IsValid.defaultGraph]⟩,
    implications, Finset.mem_filter]
  simp [Pattern.Matches]

/-- The rules that are read are those that the dataset states. -/
theorem Valid.states_storedRules (hd : d.Valid) : d.States d.storedRules := by
  obtain ⟨implications, hnodup, hall, hrules⟩ := hd.exists_implications
  refine ⟨implications, hnodup, hall, ?_⟩
  rw [hrules, List.forall₂_map_right_iff, List.forall₂_same]
  intro q hq
  have hmem : q ∈ d.implications := hall ▸ List.mem_toFinset.2 hq
  exact hd.standsFor (Finset.mem_filter.1 hmem).1

/-- An implication stands for one rule only, but for the order of its patterns. -/
theorem StandsFor.variant {implication : Quad} {rule rule' : Rule} (h : d.StandsFor implication rule)
    (h' : d.StandsFor implication rule') : rule.Variant rule' := by
  refine .of_perm ?_ ?_
  · refine (List.perm_ext_iff_of_nodup h.nodup_premise h'.nodup_premise).2 fun pattern => ?_
    rw [h.mem_premise, h'.mem_premise]
  · refine (List.perm_ext_iff_of_nodup h.nodup_conclusion h'.nodup_conclusion).2 fun pattern => ?_
    rw [h.mem_conclusion, h'.mem_conclusion]

/-- All rules that a dataset states are the same as those that are read. -/
theorem Valid.sameRules_storedRules (hd : d.Valid) (h : d.States rules) : SameRules d.storedRules rules := by
  obtain ⟨others, hothers, hsame, hrules⟩ := h
  obtain ⟨implications, hnodup, hall, hstored⟩ := hd.exists_implications
  have hmem : ∀ q, q ∈ implications ↔ q ∈ others := by
    intro q
    rw [← List.mem_toFinset, ← List.mem_toFinset, hall, hsame]
  have hperm : implications.Perm others := (List.perm_ext_iff_of_nodup hnodup hothers).2 hmem
  -- the other rules, in the order of the implications that were listed first
  obtain ⟨sorted, hsorted, hperm'⟩ := List.perm_comp_forall₂ hperm hrules
  refine ⟨sorted, ?_, hperm'⟩
  rw [hstored, List.forall₂_map_left_iff]
  have hboth := (List.forall₂_and_left (p := (· ∈ implications)) implications sorted).2 ⟨fun _ h => h, hsorted⟩
  refine hboth.imp fun q rule hrule => ?_
  have himplication : q ∈ d.implications := hall ▸ List.mem_toFinset.2 hrule.1
  exact (hd.standsFor (Finset.mem_filter.1 himplication).1).variant hrule.2

/-- The rules that a valid dataset states are of valid terms. -/
theorem Valid.isValid_of_states (hd : d.Valid) (h : d.States rules) : ∀ rule ∈ rules, rule.IsValid := by
  obtain ⟨implications, -, -, hrules⟩ := h
  intro rule hrule
  obtain ⟨hlength, hget⟩ := List.forall₂_iff_get.1 hrules
  obtain ⟨place, hplace, rfl⟩ := List.getElem_of_mem hrule
  have hstands := hget place (hlength ▸ hplace) hplace
  rw [List.get_eq_getElem, List.get_eq_getElem] at hstands
  intro pattern hpattern
  obtain ⟨graph, hmem⟩ : ∃ graph, pattern ∈ d.triplesIn graph := by
    rcases List.mem_append.1 hpattern with hpattern | hpattern
    · exact ⟨_, (hstands.mem_premise pattern).1 hpattern⟩
    · exact ⟨_, (hstands.mem_conclusion pattern).1 hpattern⟩
  obtain ⟨hs, hp, ho, -⟩ := Quad.isValid_iff.1 (hd.isValid_of_mem hmem)
  simp only [Triple.toList, List.forall_mem_cons]
  exact ⟨hs, hp, ho, by simp⟩

/-! ### Runs of a reasoner -/

/-- Two runs of a reasoner both fail, or derive as much, and end with the same quads. -/
def SameOutcome (r r' : Except RuleError ReasoningStats × Dataset) : Prop :=
  r.1.toOption.map ReasoningStats.derived = r'.1.toOption.map ReasoningStats.derived ∧ r.2.quads = r'.2.quads

theorem quads_eq_of_triplesIn {d d' : Dataset} (h : ∀ graph, d.triplesIn graph = d'.triplesIn graph) :
    d.quads = d'.quads := by
  ext q
  have hmem := Set.ext_iff.1 (h q.graph) ⟨q.subject, q.predicate, q.object⟩
  exact hmem

/-- The sets of triples that contain a graph and are closed under rules are those that are closed under variants. -/
private theorem setOf_closed_eq (hsame : SameRules rules rules') (graph : Term) :
    {T | d.triplesIn graph ⊆ T ∧ ClosedUnderRules rules T} = {T | d.triplesIn graph ⊆ T ∧ ClosedUnderRules rules' T} := by
  ext T
  exact and_congr_right fun _ => hsame.closedUnderRules_iff T

section

variable (hd : d.Reachable) (hrules : ∀ rule ∈ rules, rule.IsValid) (hrules' : ∀ rule ∈ rules', rule.IsValid)
  (hsame : SameRules rules rules')
include hd hrules hrules' hsame

/-- Variants of rules have the same outcome if they end with the same quads whenever they can be used. -/
private theorem Reachable.sameOutcome_reasonOver {choose : Dataset → List Nat} (hchoose : ∀ d, (choose d).Nodup)
    (hquads : (∃ compiled, (compileRules rules d.terms).1 = .ok compiled) →
      (∃ compiled, (compileRules rules' d.terms).1 = .ok compiled) →
        (d.reasonOver rules choose).2.quads = (d.reasonOver rules' choose).2.quads) :
    SameOutcome (d.reasonOver rules choose) (d.reasonOver rules' choose) := by
  have hvalid := hd.valid
  have hsound := hd.sound
  have hboth : (∃ compiled, (compileRules rules d.terms).1 = .ok compiled) ↔
      ∃ compiled, (compileRules rules' d.terms).1 = .ok compiled := by
    rw [exists_compileRules_iff hsound.terms, exists_compileRules_iff hsound.terms]
    exact hsame.isUsable_iff
  by_cases hcompiles : ∃ compiled, (compileRules rules d.terms).1 = .ok compiled
  · have hcompiles' := hboth.1 hcompiles
    have hsame := hquads hcompiles hcompiles'
    obtain ⟨stats, hok⟩ := hvalid.reasonOver_isOk hrules hcompiles hchoose
    obtain ⟨stats', hok'⟩ := hvalid.reasonOver_isOk hrules' hcompiles' hchoose
    -- as much is derived as the dataset grows
    have hgrown := hsound.card_quads_reasonOver hchoose hok
    have hgrown' := hsound.card_quads_reasonOver hchoose hok'
    rw [← hsame] at hgrown'
    have hderived : stats.derived = stats'.derived := by omega
    refine ⟨?_, hsame⟩
    rw [hok, hok']
    exact congrArg some hderived
  · have hrefused : ∀ {rules : List Rule}, (¬∃ compiled, (compileRules rules d.terms).1 = .ok compiled) →
        (d.reasonOver rules choose).1.toOption = none ∧ (d.reasonOver rules choose).2.quads = d.quads := by
      intro rules hnone
      cases herror : (compileRules rules d.terms).1 with
      | ok compiled => exact absurd ⟨compiled, herror⟩ hnone
      | error e =>
        have hfails : (d.reasonOver rules choose).1 = .error e := reasonOver_eq_error_iff.2 herror
        have hmore := (hsound.withMoreTerms_of_error hfails).2
        rw [hfails]
        exact ⟨rfl, congrArg List.toFinset (hmore.matching {})⟩
    obtain ⟨hfails, hquads⟩ := hrefused hcompiles
    obtain ⟨hfails', hquads'⟩ := hrefused (mt hboth.2 hcompiles)
    exact ⟨by rw [hfails, hfails'], hquads.trans hquads'.symm⟩

theorem Reachable.sameOutcome_reason : SameOutcome (d.reason rules) (d.reason rules') := by
  refine hd.sameOutcome_reasonOver hrules hrules' hsame (fun d => d.graphs.nodup_keys) fun hcompiles hcompiles' => ?_
  refine quads_eq_of_triplesIn fun graph => ?_
  have hleast := hd.valid.isLeast_reason hrules hcompiles graph
  have hleast' := hd.valid.isLeast_reason hrules' hcompiles' graph
  rw [← setOf_closed_eq hsame] at hleast'
  exact hleast.unique hleast'

theorem Reachable.sameOutcome_reasonIn (graph : Term) :
    SameOutcome (d.reasonIn rules graph) (d.reasonIn rules' graph) := by
  have hnodup : ∀ (graph : Term) (d : Dataset), (d.terms.find? graph).toList.Nodup := by
    intro graph d
    cases d.terms.find? graph <;> simp
  refine hd.sameOutcome_reasonOver hrules hrules' hsame (hnodup graph) fun hcompiles hcompiles' => ?_
  refine quads_eq_of_triplesIn fun other => ?_
  by_cases hgraph : ∃ t : Term, t.IsValid ∧ t.id = graph.id
  · -- the graph is looked up by its id, so it may as well be the valid term with this id
    obtain ⟨t, ht, hid⟩ := hgraph
    have hchosen : ∀ rules, d.reasonIn rules graph = d.reasonIn rules t := by
      intro rules
      have hfind : (fun d : Dataset => (d.terms.find? graph).toList) = fun d => (d.terms.find? t).toList := by
        funext d
        rw [Interner.find?, Interner.find?, hid]
      rw [reasonIn, reasonIn, hfind]
    show (d.reasonIn rules graph).2.triplesIn other = (d.reasonIn rules' graph).2.triplesIn other
    rw [hchosen, hchosen]
    by_cases hother : other = t
    · subst hother
      have hleast := hd.valid.isLeast_reasonIn hrules hcompiles ht
      have hleast' := hd.valid.isLeast_reasonIn hrules' hcompiles' ht
      rw [← setOf_closed_eq hsame] at hleast'
      exact hleast.unique hleast'
    · rw [hd.valid.triplesIn_reasonIn hrules hcompiles ht hother,
        hd.valid.triplesIn_reasonIn hrules' hcompiles' ht hother]
  · have hnone : ∀ t : Term, t.IsValid → t.id ≠ graph.id := fun t ht hid => hgraph ⟨t, ht, hid⟩
    exact (hd.valid.triplesIn_reasonIn_of_id_ne hrules hcompiles hnone other).trans
      (hd.valid.triplesIn_reasonIn_of_id_ne hrules' hcompiles' hnone other).symm

end

/-- **What a dataset states is what its graphs have.**  The rules that are read from a dataset are one for each
implication in the default graph, with each triple of the one graph once in the premise and each triple of the other
once in the conclusion.  This determines the rules but for the order in which they and their patterns come.  And no order
of rules or patterns matters to a reasoner, nor do the names of variables: variants of rules both fail, or derive as much
and end with the same quads, in all graphs or in any one. -/
theorem Reachable.storedRules_spec (hd : d.Reachable) :
    d.States d.storedRules ∧
      (∀ rules, d.States rules → (∀ rule ∈ rules, rule.IsValid) ∧ SameRules d.storedRules rules) ∧
      ∀ rules rules' : List Rule, (∀ rule ∈ rules, rule.IsValid) → (∀ rule ∈ rules', rule.IsValid) →
        SameRules rules rules' → SameOutcome (d.reason rules) (d.reason rules') ∧
          ∀ graph, SameOutcome (d.reasonIn rules graph) (d.reasonIn rules' graph) := by
  refine ⟨hd.valid.states_storedRules, fun rules h => ?_, fun rules rules' hrules hrules' hsame => ?_⟩
  · exact ⟨hd.valid.isValid_of_states h, hd.valid.sameRules_storedRules h⟩
  · exact ⟨hd.sameOutcome_reason hrules hrules' hsame, hd.sameOutcome_reasonIn hrules hrules' hsame⟩

end

/-- Two rules change places, and in one of them two patterns and the names of two variables. -/
theorem storedRules_spec_swapped :
    let transitive : Rule :=
      ⟨[⟨.var "x", .iri "a:p", .var "y"⟩, ⟨.var "y", .iri "a:p", .var "z"⟩], [⟨.var "x", .iri "a:p", .var "z"⟩]⟩
    let swapped : Rule :=
      ⟨[⟨.var "y", .iri "a:p", .var "x"⟩, ⟨.var "z", .iri "a:p", .var "y"⟩], [⟨.var "z", .iri "a:p", .var "x"⟩]⟩
    let symmetric : Rule := ⟨[⟨.var "x", .iri "a:p", .var "y"⟩], [⟨.var "y", .iri "a:p", .var "x"⟩]⟩
    let d := ofList [⟨.var "x", .iri "a:p", .var "y", .iri "a:f"⟩, ⟨.var "y", .iri "a:p", .var "x", .iri "a:g"⟩,
      ⟨.iri "a:f", .iri Vocabulary.Log.implies, .iri "a:g", .defaultGraph⟩]
    d.States d.storedRules ∧ SameRules [transitive, symmetric] [symmetric, swapped] ∧
      SameOutcome (d.reason [transitive, symmetric]) (d.reason [symmetric, swapped]) := by
  intro transitive swapped symmetric d
  have hvar : ∀ name ∈ ["x", "y", "z"], (Term.var name).IsValid := by
    simp only [Term.isValid_var]
    decide
  have hiri : ∀ iri ∈ ["a:p", "a:f", "a:g", Vocabulary.Log.implies], (Term.iri iri).IsValid := by
    simp only [Term.isValid_iri]
    decide
  simp only [List.forall_mem_cons] at hvar hiri
  have hquads : ∀ q ∈ ([⟨.var "x", .iri "a:p", .var "y", .iri "a:f"⟩, ⟨.var "y", .iri "a:p", .var "x", .iri "a:g"⟩,
      ⟨.iri "a:f", .iri Vocabulary.Log.implies, .iri "a:g", .defaultGraph⟩] : List Quad), q.IsValid := by
    simp only [List.forall_mem_cons, Quad.isValid_iff]
    simp [hvar, hiri, Term.IsValid.defaultGraph]
  have hrules : ∀ rule ∈ [transitive, symmetric, swapped], rule.IsValid := by
    simp only [transitive, symmetric, swapped, Rule.IsValid, List.forall_mem_cons, List.cons_append, List.nil_append,
      Triple.toList]
    simp [hvar, hiri]
  simp only [List.forall_mem_cons] at hrules
  have hvariant : transitive.Variant swapped :=
    ⟨Equiv.swap "x" "z", (Equiv.swap "x" "z").injective.injOn, .swap _ _ _, .refl _⟩
  have hsame : SameRules [transitive, symmetric] [symmetric, swapped] :=
    ⟨[swapped, symmetric], .cons hvariant (.cons (.of_perm (.refl _) (.refl _)) .nil), .swap _ _ _⟩
  obtain ⟨hstates, -, houtcome⟩ := Reachable.storedRules_spec (.ofList hquads)
  refine ⟨hstates, hsame, (houtcome _ _ ?_ ?_ hsame).1⟩
  · simp [hrules]
  · simp [hrules]

end Dataset

end RdfDataset
