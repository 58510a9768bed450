import RdfDataset.Proofs.Dataset.Change
import RdfDataset.Proofs.Reasoning.Engine
import RdfDataset.Proofs.Rule.Compile
import RdfDataset.Reasoning.Basic

/-!
# What reasoning adds to a dataset

Reasoning turns the triples of a graph into the least set of triples that contains them and is closed under the rules.

* `ClosedUnderRules`: a set of triples of terms contains what the rules conclude from it, for all values of variables.
* `Dataset.triplesIn`: the triples of a graph.
* `isLeast_triplesIn`: closing the index of a graph closes its triples.
* `Usable`: rules have been compiled to what represents them; `Dataset.Consistent.isLeast_reason`: reasoning with them
  closes the triples of every graph of a consistent dataset.
* `Dataset.Valid.reasonOver`: reasoning keeps a dataset valid, whether the rules can be used or not.
-/

namespace RdfDataset

/-- A term of a rule for some values of the variables.  A quoted quad is a constant, also when there are variables in
it. -/
def Term.subst (σ : String → Term) : Term → Term
  | .var name => σ name
  | t => t

/-- A set of triples contains what rules conclude from it, for all values of their variables. -/
def ClosedUnderRules (rules : List Rule) (T : Set (Triple Term)) : Prop :=
  ∀ rule ∈ rules, ∀ σ : String → Term, (∀ pattern ∈ rule.premise, pattern.map (Term.subst σ) ∈ T) →
    ∀ pattern ∈ rule.conclusion, pattern.map (Term.subst σ) ∈ T

/-- Some numbers name the terms of a triple. -/
def Interner.Names (terms : Interner) (t : Triple Nat) (u : Triple Term) : Prop :=
  terms.resolve? t.subject = some u.subject ∧ terms.resolve? t.predicate = some u.predicate ∧
    terms.resolve? t.object = some u.object

namespace Interner.Names

variable {terms : Interner} {t t' : Triple Nat} {u u' : Triple Term}

theorem unique (h : terms.Names t u) (h' : terms.Names t u') : u = u' :=
  Triple.ext (Option.some.inj (h.1.symm.trans h'.1)) (Option.some.inj (h.2.1.symm.trans h'.2.1))
    (Option.some.inj (h.2.2.symm.trans h'.2.2))

theorem inj (hterms : terms.Sound) (h : terms.Names t u) (h' : terms.Names t' u) : t = t' :=
  Triple.ext (hterms.resolve?_inj h.1 h'.1) (hterms.resolve?_inj h.2.1 h'.2.1) (hterms.resolve?_inj h.2.2 h'.2.2)

theorem exists_of_mem (h : terms.Names t u) {n : Nat} (hn : n ∈ t.toList) : ∃ x, terms.resolve? n = some x := by
  simp only [Triple.toList, List.mem_cons, List.not_mem_nil, or_false] at hn
  rcases hn with rfl | rfl | rfl
  · exact ⟨_, h.1⟩
  · exact ⟨_, h.2.1⟩
  · exact ⟨_, h.2.2⟩

theorem exists_of_mem_terms (h : terms.Names t u) {x : Term} (hx : x ∈ u.toList) : ∃ n, terms.resolve? n = some x := by
  simp only [Triple.toList, List.mem_cons, List.not_mem_nil, or_false] at hx
  rcases hx with rfl | rfl | rfl
  · exact ⟨_, h.1⟩
  · exact ⟨_, h.2.1⟩
  · exact ⟨_, h.2.2⟩

end Interner.Names

/-! ### From slots to terms -/

section Represents

variable {terms : Interner} {names : List String} {rule : Rule} {c : CompiledRule}

/-- The values of a valuation name those of a substitution. -/
def ValuesNamed (terms : Interner) (names : List String) (ρ : Nat → Nat) (σ : String → Term) : Prop :=
  ∀ name number, names.idxOf? name = some number → terms.resolve? (ρ number) = some (σ name)

private theorem resolve?_under {ρ : Nat → Nat} {σ : String → Term} (h : ValuesNamed terms names ρ σ) {t : Term}
    {slot : Slot} (hslot : Stands names terms t slot) : terms.resolve? (slot.under ρ) = some (t.subst σ) := by
  cases hslot with
  | var hname => exact h _ _ hname
  | const hvar hid =>
    have hsubst : t.subst σ = t := by
      cases t with
      | var name => cases hvar
      | _ => rfl
    rw [hsubst]
    exact hid

/-- The triple of an atom names that of its pattern. -/
theorem names_map {ρ : Nat → Nat} {σ : String → Term} (h : ValuesNamed terms names ρ σ) {pattern : TriplePattern}
    {atom : Atom} (hatom : AtomStands names terms pattern atom) :
    terms.Names (atom.map (Slot.under ρ)) (pattern.map (Term.subst σ)) :=
  ⟨resolve?_under h hatom.1, resolve?_under h hatom.2.1, resolve?_under h hatom.2.2⟩

private theorem idxOf?_inj {name name' : String} {number : Nat} (h : names.idxOf? name = some number)
    (h' : names.idxOf? name' = some number) : name = name' := by
  rw [List.idxOf?_eq_some_iff] at h h'
  obtain ⟨_, hname, -⟩ := h
  obtain ⟨_, hname', -⟩ := h'
  exact hname.symm.trans hname'

private theorem lt_of_idxOf? {name : String} {number : Nat} (h : names.idxOf? name = some number) :
    number < names.length := by
  rw [List.idxOf?_eq_some_iff] at h
  exact h.1

/-- A variable of a compiled rule occurs in a pattern of the premise. -/
theorem CompiledRule.Represents.exists_var (h : c.Represents names terms rule) {name : String} {number : Nat}
    (hname : names.idxOf? name = some number) :
    ∃ pattern ∈ rule.premise, ∃ atom ∈ c.premise, AtomStands names terms pattern atom ∧
      .var name ∈ pattern.toList ∧ .var number ∈ atom.toList := by
  obtain ⟨atom, hatom, hvar⟩ := h.bound number (lt_of_idxOf? hname)
  obtain ⟨pattern, hpattern, hstands⟩ := h.exists_premise hatom
  obtain ⟨t, ht, hslot⟩ := hstands.exists_stands hvar
  cases hslot with
  | var hname' =>
    rw [idxOf?_inj hname' hname] at ht
    exact ⟨pattern, hpattern, atom, hatom, hstands, ht, hvar⟩

/-- A substitution that makes the premise triples with numbers is named by a valuation. -/
theorem exists_valuation (h : c.Represents names terms rule) {σ : String → Term}
    (hσ : ∀ pattern ∈ rule.premise, ∃ t, terms.Names t (pattern.map (Term.subst σ))) :
    ∃ ρ, ValuesNamed terms names ρ σ := by
  have hvalue : ∀ number, ∃ id, ∀ name, names.idxOf? name = some number → terms.resolve? id = some (σ name) := by
    intro number
    by_cases hname : ∃ name, names.idxOf? name = some number
    · -- the variable occurs in the premise, so its value occurs in a triple with numbers
      obtain ⟨name, hname⟩ := hname
      obtain ⟨pattern, hpattern, -, -, -, hvar, -⟩ := h.exists_var hname
      obtain ⟨t, ht⟩ := hσ pattern hpattern
      have hmem : σ name ∈ (pattern.map (Term.subst σ)).toList := by
        simp only [Triple.toList, List.mem_cons, List.not_mem_nil, or_false] at hvar
        rcases hvar with hvar | hvar | hvar <;> simp [Triple.map, Triple.toList, ← hvar, Term.subst]
      obtain ⟨id, hid⟩ := ht.exists_of_mem_terms hmem
      refine ⟨id, fun name' hname' => ?_⟩
      rw [idxOf?_inj hname' hname]
      exact hid
    · exact ⟨0, fun name hname' => absurd ⟨name, hname'⟩ hname⟩
  choose ρ hρ using hvalue
  exact ⟨ρ, fun name number hname => hρ number name hname⟩

/-- A valuation that makes the premise numbers of terms names a substitution. -/
theorem exists_substitution (h : c.Represents names terms rule) {ρ : Nat → Nat}
    (hρ : ∀ atom ∈ c.premise, ∃ u, terms.Names (atom.map (Slot.under ρ)) u) : ∃ σ, ValuesNamed terms names ρ σ := by
  have hvalue : ∀ name, ∃ t, ∀ number, names.idxOf? name = some number → terms.resolve? (ρ number) = some t := by
    intro name
    cases hname : names.idxOf? name with
    | none => exact ⟨.defaultGraph, fun number h => by cases h⟩
    | some number =>
      obtain ⟨-, -, atom, hatom, -, -, hvar⟩ := h.exists_var hname
      obtain ⟨u, hu⟩ := hρ atom hatom
      have hmem : ρ number ∈ (atom.map (Slot.under ρ)).toList := by
        simp only [Triple.toList, List.mem_cons, List.not_mem_nil, or_false] at hvar
        rcases hvar with hvar | hvar | hvar <;> simp [Triple.map, Triple.toList, ← hvar, Slot.under]
      obtain ⟨t, ht⟩ := hu.exists_of_mem hmem
      refine ⟨t, fun other hother => ?_⟩
      rw [← Option.some.inj hother]
      exact ht
  choose σ hσ using hvalue
  exact ⟨σ, hσ⟩

end Represents

/-! ### No triples -/

variable {rules : List Rule} {compiled : List CompiledRule}

/-- Without triples nothing follows, since every premise has atoms. -/
private theorem closedUnder_empty {terms : Interner} (hrepresent : RulesRepresent terms rules compiled) :
    ClosedUnder compiled ∅ := by
  intro c hc ρ hpremise
  obtain ⟨rule, -, names, hrule⟩ := hrepresent.exists_rule hc
  obtain ⟨pattern, hpattern⟩ := List.exists_mem_of_ne_nil _ hrule.nonempty
  obtain ⟨atom, hatom, -⟩ := hrule.exists_premise_atom hpattern
  exact absurd (hpremise atom hatom) (Set.notMem_empty _)

private theorem closedUnderRules_empty {terms : Interner} (hrepresent : RulesRepresent terms rules compiled) :
    ClosedUnderRules rules ∅ := by
  intro rule hrule σ hpremise
  obtain ⟨c, -, names, hc⟩ := hrepresent.exists_compiled hrule
  obtain ⟨pattern, hpattern⟩ := List.exists_mem_of_ne_nil _ hc.nonempty
  exact absurd (hpremise pattern hpattern) (Set.notMem_empty _)

variable [Arrangement]

/-! ### Triples of terms -/

/-- The triples of a graph. -/
def Dataset.triplesIn (d : Dataset) (graph : Term) : Set (Triple Term) :=
  {t | (⟨t.subject, t.predicate, t.object, graph⟩ : Quad) ∈ d.quads}

theorem Dataset.resolveQuad?_eq_some_iff_names {d : Dataset} {graph : Nat} {t : Triple Nat} {u : Triple Term}
    {g : Term} :
    d.resolveQuad? graph t = some ⟨u.subject, u.predicate, u.object, g⟩ ↔
      d.terms.Names t u ∧ d.terms.resolve? graph = some g := by
  rw [resolveQuad?_eq_some]
  exact ⟨fun h => ⟨⟨h.1, h.2.1, h.2.2.1⟩, h.2.2.2⟩, fun h => ⟨h.1.1, h.1.2.1, h.1.2.2, h.2⟩⟩

/-- The triples of a graph are those that the numbers in its index name. -/
theorem Dataset.Consistent.mem_triplesIn {d : Dataset} (hd : d.Consistent) {graph : Nat} {g : Term}
    (hgraph : d.terms.resolve? graph = some g) {u : Triple Term} :
    u ∈ d.triplesIn g ↔ ∃ t, (d.index graph).contains t = true ∧ d.terms.Names t u := by
  rw [triplesIn, Set.mem_ofPred_eq, hd.mem_quads]
  constructor
  · rintro ⟨n, t, ht, hq⟩
    obtain ⟨hnames, hn⟩ := resolveQuad?_eq_some_iff_names.1 hq
    rw [hd.sound.resolve?_inj hn hgraph] at ht
    exact ⟨t, ht, hnames⟩
  · rintro ⟨t, ht, hnames⟩
    exact ⟨graph, t, ht, resolveQuad?_eq_some_iff_names.2 ⟨hnames, hgraph⟩⟩

/-- A graph whose name has no number has no triples. -/
theorem Dataset.Consistent.triplesIn_eq_empty {d : Dataset} (hd : d.Consistent) {g : Term}
    (hgraph : ∀ n, d.terms.resolve? n ≠ some g) : d.triplesIn g = ∅ := by
  rw [Set.eq_empty_iff_forall_notMem]
  intro u hu
  obtain ⟨n, t, -, hq⟩ := hd.mem_quads.1 hu
  exact hgraph n (resolveQuad?_eq_some_iff_names.1 hq).2

/-! ### One graph -/

/-- An empty graph stays empty. -/
theorem contains_closeGraph_empty {terms : Interner} (hrepresent : RulesRepresent terms rules compiled)
    (hlinked : Linked compiled) (t : Triple Nat) : (closeGraph compiled {}).index.contains t = false := by
  rw [← Bool.not_eq_true]
  intro h
  refine (contains_closeGraph hlinked GraphIndex.coherent_empty).1 h ∅ (closedUnder_empty hrepresent) fun u hu => ?_
  rw [GraphIndex.contains_empty] at hu
  cases hu

/-- All numbers in a closed graph have terms. -/
theorem exists_names_of_contains_closeGraph {terms : Interner} (hrepresent : RulesRepresent terms rules compiled)
    (hlinked : Linked compiled) {index : GraphIndex} (hindex : index.Coherent)
    (hnamed : ∀ t, index.contains t = true → ∃ u, terms.Names t u) {t : Triple Nat}
    (ht : (closeGraph compiled index).index.contains t = true) : ∃ u, terms.Names t u := by
  have hclosed : ClosedUnder compiled {t | ∀ n ∈ t.toList, n ∈ {n | ∃ x, terms.resolve? n = some x}} :=
    closedUnder_over hlinked.wellScoped fun id hid => hrepresent.resolve?_constantsOf hid
  have hall := (contains_closeGraph hlinked hindex).1 ht _ hclosed fun u hu n hn => by
    obtain ⟨v, hv⟩ := hnamed u hu
    exact hv.exists_of_mem hn
  obtain ⟨s, hs⟩ := hall t.subject (by simp [Triple.toList])
  obtain ⟨p, hp⟩ := hall t.predicate (by simp [Triple.toList])
  obtain ⟨o, ho⟩ := hall t.object (by simp [Triple.toList])
  exact ⟨⟨s, p, o⟩, hs, hp, ho⟩

/-- Closing the index of a graph makes its triples the least set that contains them and is closed under the rules. -/
theorem isLeast_triplesIn {d d' : Dataset} (hd : d.Consistent) (hd' : d'.Consistent) (hterms : d'.terms = d.terms)
    (hrepresent : RulesRepresent d.terms rules compiled) (hlinked : Linked compiled) {graph : Nat} {g : Term}
    (hgraph : d.terms.resolve? graph = some g)
    (hclose : ∀ t, (d'.index graph).contains t = (closeGraph compiled (d.index graph)).index.contains t) :
    IsLeast {T | d.triplesIn g ⊆ T ∧ ClosedUnderRules rules T} (d'.triplesIn g) := by
  have hgraph' : d'.terms.resolve? graph = some g := by rwa [hterms]
  have hmem : ∀ u, u ∈ d'.triplesIn g ↔
      ∃ t, (closeGraph compiled (d.index graph)).index.contains t = true ∧ d.terms.Names t u := by
    intro u
    rw [hd'.mem_triplesIn hgraph', hterms]
    simp only [hclose]
  obtain ⟨hinvariant, htasks⟩ := invariant_closeGraph hlinked (hd.coherent graph)
  refine ⟨⟨fun u hu => ?_, fun rule hrule σ hpremise pattern hpattern => ?_⟩, fun T hT u hu => ?_⟩
  · obtain ⟨t, ht, hnames⟩ := (hd.mem_triplesIn hgraph).1 hu
    exact (hmem u).2 ⟨t, hinvariant.contains t ht, hnames⟩
  · -- what the rule concludes from named triples, the compiled rule concludes from their numbers
    obtain ⟨c, hc, names, hrepresents⟩ := hrepresent.exists_compiled hrule
    obtain ⟨ρ, hρ⟩ := exists_valuation hrepresents fun pattern hpattern => by
      obtain ⟨t, -, ht⟩ := (hmem _).1 (hpremise pattern hpattern)
      exact ⟨t, ht⟩
    have hatoms : ∀ atom ∈ c.premise,
        (closeGraph compiled (d.index graph)).index.contains (atom.map (Slot.under ρ)) = true := by
      intro atom hatom
      obtain ⟨other, hother, hstands⟩ := hrepresents.exists_premise hatom
      obtain ⟨t, ht, hnames⟩ := (hmem _).1 (hpremise other hother)
      rwa [(names_map hρ hstands).inj hd.sound hnames]
    obtain ⟨k, hk, hstands⟩ := hrepresents.exists_conclusion_atom hpattern
    exact (hmem _).2 ⟨_, hinvariant.closedUnder htasks c hc ρ hatoms k hk, names_map hρ hstands⟩
  · obtain ⟨t, ht, hnames⟩ := (hmem u).1 hu
    -- the numbers of the triples of the set are closed under the compiled rules
    have hclosed : ClosedUnder compiled {t | ∃ u ∈ T, d.terms.Names t u} := by
      intro c hc ρ hpremise k hk
      obtain ⟨rule, hrule, names, hrepresents⟩ := hrepresent.exists_rule hc
      obtain ⟨σ, hσ⟩ := exists_substitution hrepresents fun atom hatom => by
        obtain ⟨v, -, hv⟩ := hpremise atom hatom
        exact ⟨v, hv⟩
      obtain ⟨pattern, hpattern, hstands⟩ := hrepresents.exists_conclusion hk
      refine ⟨_, hT.2 rule hrule σ (fun other hother => ?_) pattern hpattern, names_map hσ hstands⟩
      obtain ⟨atom, hatom, hstands⟩ := hrepresents.exists_premise_atom hother
      obtain ⟨v, hv, hnames⟩ := hpremise atom hatom
      rwa [(names_map hσ hstands).unique hnames]
    obtain ⟨v, hv, hnames'⟩ := (contains_closeGraph hlinked (hd.coherent graph)).1 ht _ hclosed fun w hw => by
      obtain ⟨q, hq⟩ := hd.named hw
      have hwnames := (Dataset.resolveQuad?_eq_some_iff_names (u := ⟨q.subject, q.predicate, q.object⟩)).1 hq
      exact ⟨_, hT.1 ((hd.mem_triplesIn hgraph).2 ⟨w, hw, hwnames.1⟩), hwnames.1⟩
    rwa [hnames.unique hnames']

/-! ### Several graphs -/

namespace Dataset

variable {d : Dataset}

/-- Closing one graph of a dataset. -/
private theorem Consistent.closeGraph (hd : d.Consistent) (hrepresent : RulesRepresent d.terms rules compiled)
    (hlinked : Linked compiled) (stats : ReasoningStats) (graph : Nat) :
    (d.closeGraph compiled stats graph).2.Consistent ∧ (d.closeGraph compiled stats graph).2.terms = d.terms ∧
      (∀ t, ((d.closeGraph compiled stats graph).2.index graph).contains t =
        (RdfDataset.closeGraph compiled (d.index graph)).index.contains t) ∧
      ∀ n, n ≠ graph → (d.closeGraph compiled stats graph).2.index n = d.index n := by
  cases hget : d.graphs[graph]? with
  | none =>
    rw [closeGraph_of_none compiled stats hget]
    have hindex : d.index graph = {} := by rw [index, hget, Option.getD_none]
    refine ⟨hd, rfl, fun t => ?_, fun n _ => rfl⟩
    rw [hindex, contains_closeGraph_empty hrepresent hlinked, GraphIndex.contains_empty]
  | some index =>
    rw [closeGraph_of_some compiled stats hget]
    have hindex : d.index graph = index := by rw [Dataset.index, hget, Option.getD_some]
    obtain ⟨g, hg⟩ := hd.graph_named hget
    have hcoherent := hd.coherent graph
    rw [hindex] at hcoherent ⊢
    dsimp only
    refine ⟨hd.setIndex hd.sound (.refl _) rfl (invariant_closeGraph hlinked hcoherent).1.coherent ⟨g, hg⟩ ?_, rfl, ?_,
      fun n hn => ?_⟩
    · intro t ht
      obtain ⟨u, hu⟩ := exists_names_of_contains_closeGraph hrepresent hlinked hcoherent (fun v hv => by
        obtain ⟨q, hq⟩ := hd.named (hindex ▸ hv)
        exact ⟨_, ((resolveQuad?_eq_some_iff_names (u := ⟨q.subject, q.predicate, q.object⟩)).1 hq).1⟩) ht
      exact ⟨_, resolveQuad?_eq_some_iff_names.2 ⟨hu, hg⟩⟩
    · intro t
      rw [index_of_insert rfl, if_pos rfl]
    · rw [index_of_insert rfl, if_neg hn]

private theorem Consistent.closeAll (hd : d.Consistent) (hrepresent : RulesRepresent d.terms rules compiled)
    (hlinked : Linked compiled) {graphs : List Nat} (hgraphs : graphs.Nodup) (stats : ReasoningStats) :
    let d' := (graphs.foldl (fun (stats, d) graph => Dataset.closeGraph compiled stats d graph) (stats, d)).2
    d'.Consistent ∧ d'.terms = d.terms ∧
      (∀ n ∈ graphs, ∀ t, (d'.index n).contains t = (RdfDataset.closeGraph compiled (d.index n)).index.contains t) ∧
      ∀ n, n ∉ graphs → d'.index n = d.index n := by
  induction graphs generalizing d stats with
  | nil => exact ⟨hd, rfl, by simp, fun n _ => rfl⟩
  | cons graph graphs ih =>
    obtain ⟨hfresh, hgraphs⟩ := List.nodup_cons.1 hgraphs
    obtain ⟨hconsistent, hterms, hclosed, hothers⟩ := hd.closeGraph hrepresent hlinked stats graph
    rw [List.foldl_cons]
    dsimp only
    generalize d.closeGraph compiled stats graph = r at *
    obtain ⟨stats', d'⟩ := r
    dsimp only at *
    obtain ⟨hconsistent', hterms', hclosed', hothers'⟩ := ih hconsistent (hterms ▸ hrepresent) hgraphs stats'
    refine ⟨hconsistent', hterms'.trans hterms, fun n hn t => ?_, fun n hn => ?_⟩
    · -- no graph is closed twice, so each one is closed from what it was at first
      rcases List.mem_cons.1 hn with rfl | hlater
      · rw [hothers' n hfresh]
        exact hclosed t
      · have hne : n ≠ graph := fun h => hfresh (h ▸ hlater)
        rw [hclosed' n hlater, hothers n hne]
    · simp only [List.mem_cons, not_or] at hn
      rw [hothers' n hn.2, hothers n hn.1]

end Dataset

/-- What it takes to reason with rules: compiling them keeps all numbers and gives their compiled forms, linked. -/
structure Usable (rules : List Rule) (terms : Interner) (compiled : List CompiledRule) : Prop where
  eq_ok : (compileRules rules terms).1 = .ok compiled
  sound : (compileRules rules terms).2.Sound
  keeps : terms.Extends (compileRules rules terms).2
  linked : Linked compiled
  represent : RulesRepresent (compileRules rules terms).2 rules compiled

omit [Arrangement] in
/-- Rules of valid terms can be reasoned with if they can be compiled. -/
theorem Interner.Valid.usable {terms : Interner} (hterms : terms.Valid) (hrules : ∀ rule ∈ rules, rule.IsValid)
    (h : (compileRules rules terms).1 = .ok compiled) : Usable rules terms compiled := by
  obtain ⟨hvalid, hkeeps, hok⟩ := compileRules_spec hrules hterms
  obtain ⟨hlinked, hrepresent⟩ := hok compiled h
  exact ⟨h, hvalid.sound, hkeeps, hlinked, hrepresent⟩

namespace Dataset

variable {d : Dataset}

/-- Compiling rules keeps a dataset consistent and its quads as they are. -/
private theorem Consistent.compile (hd : d.Consistent) (hrules : Usable rules d.terms compiled) :
    Consistent { d with terms := (compileRules rules d.terms).2 } ∧
      quads { d with terms := (compileRules rules d.terms).2 } = d.quads := by
  have hconsistent : Consistent { d with terms := (compileRules rules d.terms).2 } :=
    hd.extend hrules.sound hrules.keeps rfl
  exact ⟨hconsistent, hd.quads_extend hconsistent hrules.keeps rfl⟩

private theorem reasonOver_of_error {choose : Dataset → List Nat} {e : RuleError}
    (h : (compileRules rules d.terms).1 = .error e) :
    d.reasonOver rules choose = (.error e, { d with terms := (compileRules rules d.terms).2 }) := by
  unfold reasonOver
  dsimp only
  rw [h]

/-- Reasoning with compiled rules closes the chosen graphs. -/
private theorem Consistent.reasonOver_of_usable (hd : d.Consistent) (hrules : Usable rules d.terms compiled)
    {choose : Dataset → List Nat} (hchoose : ∀ d, (choose d).Nodup) :
    let d₁ := { d with terms := (compileRules rules d.terms).2 }
    let d' := (d.reasonOver rules choose).2
    (∃ stats, (d.reasonOver rules choose).1 = .ok stats) ∧ d'.Consistent ∧ d'.terms = d₁.terms ∧
      (∀ n ∈ choose d₁, ∀ t,
        (d'.index n).contains t = (RdfDataset.closeGraph compiled (d₁.index n)).index.contains t) ∧
      ∀ n, n ∉ choose d₁ → d'.index n = d₁.index n := by
  obtain ⟨hconsistent, -⟩ := hd.compile hrules
  have hrepresent := hrules.represent
  generalize hd₁ : ({ d with terms := (compileRules rules d.terms).2 } : Dataset) = d₁ at hconsistent
  have hterms₁ : (compileRules rules d.terms).2 = d₁.terms := by rw [← hd₁]
  rw [hterms₁] at hrepresent
  have hreason : d.reasonOver rules choose =
      (.ok (d₁.closeGraphs compiled (choose d₁)).1, (d₁.closeGraphs compiled (choose d₁)).2) := by
    unfold reasonOver
    dsimp only
    rw [hrules.eq_ok, hd₁]
  obtain ⟨hall, hterms, hclosed, hothers⟩ :=
    hconsistent.closeAll hrepresent hrules.linked (hchoose d₁) { rules := compiled.length }
  dsimp only
  rw [hreason]
  unfold closeGraphs
  dsimp only
  generalize (choose d₁).foldl (fun (stats, d) graph => Dataset.closeGraph compiled stats d graph)
    (({ rules := compiled.length } : ReasoningStats), d₁) = r at *
  obtain ⟨stats, d'⟩ := r
  dsimp only at *
  exact ⟨⟨stats, rfl⟩, hall.extend hall.sound (.refl _) rfl, hterms, hclosed, hothers⟩

/-- Reasoning closes the triples of the graphs that are chosen, and of those that are empty. -/
private theorem Consistent.isLeast_reasonOver (hd : d.Consistent) (hrules : Usable rules d.terms compiled)
    {choose : Dataset → List Nat} (hchoose : ∀ d, (choose d).Nodup) {g : Term}
    (hg : ∀ n, (compileRules rules d.terms).2.resolve? n = some g →
      n ∈ choose { d with terms := (compileRules rules d.terms).2 } ∨ d.graphs[n]? = none) :
    IsLeast {T | d.triplesIn g ⊆ T ∧ ClosedUnderRules rules T} ((d.reasonOver rules choose).2.triplesIn g) := by
  obtain ⟨hcompiled, hquads⟩ := hd.compile hrules
  obtain ⟨-, hresult, hterms, hclosed, hothers⟩ := hd.reasonOver_of_usable hrules hchoose
  have hrepresent := hrules.represent
  have hsame : d.triplesIn g = triplesIn { d with terms := (compileRules rules d.terms).2 } g := by
    rw [triplesIn, triplesIn, hquads]
  rw [hsame]
  by_cases hnamed : ∃ n, (compileRules rules d.terms).2.resolve? n = some g
  · obtain ⟨n, hn⟩ := hnamed
    refine isLeast_triplesIn hcompiled hresult hterms hrepresent hrules.linked hn fun t => ?_
    by_cases hchosen : n ∈ choose { d with terms := (compileRules rules d.terms).2 }
    · exact hclosed n hchosen t
    · -- a graph that is not chosen is empty, and closing an empty graph adds nothing
      have hempty : index { d with terms := (compileRules rules d.terms).2 } n = {} := by
        have hnone := (hg n hn).resolve_left hchosen
        rw [index, hnone, Option.getD_none]
      rw [hothers n hchosen, hempty, GraphIndex.contains_empty, contains_closeGraph_empty hrepresent hrules.linked]
  · have hnone : ∀ n, (compileRules rules d.terms).2.resolve? n ≠ some g := fun n hn => hnamed ⟨n, hn⟩
    rw [hcompiled.triplesIn_eq_empty hnone, hresult.triplesIn_eq_empty (hterms ▸ hnone)]
    exact ⟨⟨subset_rfl, closedUnderRules_empty hrepresent⟩, fun T _ => Set.empty_subset T⟩

/-- Reasoning leaves alone the graphs that are not chosen. -/
private theorem Consistent.triplesIn_reasonOver (hd : d.Consistent) (hrules : Usable rules d.terms compiled)
    {choose : Dataset → List Nat} (hchoose : ∀ d, (choose d).Nodup) {g : Term}
    (hg : ∀ n, (compileRules rules d.terms).2.resolve? n = some g →
      n ∉ choose { d with terms := (compileRules rules d.terms).2 }) :
    (d.reasonOver rules choose).2.triplesIn g = d.triplesIn g := by
  obtain ⟨hcompiled, hquads⟩ := hd.compile hrules
  obtain ⟨-, hresult, hterms, -, hothers⟩ := hd.reasonOver_of_usable hrules hchoose
  have hsame : d.triplesIn g = triplesIn { d with terms := (compileRules rules d.terms).2 } g := by
    rw [triplesIn, triplesIn, hquads]
  rw [hsame]
  by_cases hnamed : ∃ n, (compileRules rules d.terms).2.resolve? n = some g
  · obtain ⟨n, hn⟩ := hnamed
    have hn' : (d.reasonOver rules choose).2.terms.resolve? n = some g := by
      rw [hterms]
      exact hn
    ext u
    rw [hresult.mem_triplesIn hn', hcompiled.mem_triplesIn hn, hothers n (hg n hn), hterms]
  · have hnone : ∀ n, (compileRules rules d.terms).2.resolve? n ≠ some g := fun n hn => hnamed ⟨n, hn⟩
    rw [hcompiled.triplesIn_eq_empty hnone, hresult.triplesIn_eq_empty (hterms ▸ hnone)]

private theorem nodup_keys (d : Dataset) : d.graphs.keys.Nodup :=
  d.graphs.nodup_keys

private theorem nodup_find? (graph : Term) (d : Dataset) : (d.terms.find? graph).toList.Nodup := by
  cases d.terms.find? graph <;> simp

/-- Reasoning with usable rules closes the triples of every graph. -/
theorem Consistent.isLeast_reason (hd : d.Consistent) (hrules : Usable rules d.terms compiled) :
    (∃ stats, (d.reason rules).1 = .ok stats) ∧
      ∀ g, IsLeast {T | d.triplesIn g ⊆ T ∧ ClosedUnderRules rules T} ((d.reason rules).2.triplesIn g) := by
  refine ⟨(hd.reasonOver_of_usable hrules nodup_keys).1, fun g => hd.isLeast_reasonOver hrules nodup_keys fun n _ => ?_⟩
  cases hget : d.graphs[n]? with
  | none => exact .inr rfl
  | some index =>
    left
    exact Table.mem_keys.2 (Table.mem_iff_exists.2 ⟨index, hget⟩)

/-! ### Valid datasets -/

/-- Reasoning keeps a dataset valid and all numbers in place, whether the rules can be used or not. -/
theorem Valid.reasonOver (hd : d.Valid) (hrules : ∀ rule ∈ rules, rule.IsValid) {choose : Dataset → List Nat}
    (hchoose : ∀ d, (choose d).Nodup) :
    (d.reasonOver rules choose).2.Valid ∧ d.terms.Extends (d.reasonOver rules choose).2.terms := by
  obtain ⟨hterms, hkeeps, -⟩ := compileRules_spec hrules hd.terms
  have hvalid : Valid { d with terms := (compileRules rules d.terms).2 } := hd.extend hterms hkeeps rfl
  cases h : (compileRules rules d.terms).1 with
  | error e =>
    rw [reasonOver_of_error h]
    exact ⟨hvalid, hkeeps⟩
  | ok compiled =>
    obtain ⟨-, hresult, hsame, -⟩ :=
      hd.toConsistent.reasonOver_of_usable (hd.terms.usable hrules h) hchoose
    refine ⟨hvalid.of_terms_eq hresult hsame, ?_⟩
    rw [hsame]
    exact hkeeps

section

variable (hd : d.Valid) (hrules : ∀ rule ∈ rules, rule.IsValid)
  (hcompiles : ∃ compiled, (compileRules rules d.terms).1 = .ok compiled)
include hd hrules hcompiles

/-- Reasoning does not fail with rules that can be compiled. -/
theorem Valid.reasonOver_isOk {choose : Dataset → List Nat} (hchoose : ∀ d, (choose d).Nodup) :
    ∃ stats, (d.reasonOver rules choose).1 = .ok stats := by
  obtain ⟨compiled, h⟩ := hcompiles
  exact (hd.toConsistent.reasonOver_of_usable (hd.terms.usable hrules h) hchoose).1

theorem Valid.reason_isOk : ∃ stats, (d.reason rules).1 = .ok stats :=
  hd.reasonOver_isOk hrules hcompiles nodup_keys

theorem Valid.reasonIn_isOk (g : Term) : ∃ stats, (d.reasonIn rules g).1 = .ok stats :=
  hd.reasonOver_isOk hrules hcompiles (nodup_find? g)

/-- Reasoning closes the triples of every graph. -/
theorem Valid.isLeast_reason (g : Term) :
    IsLeast {T | d.triplesIn g ⊆ T ∧ ClosedUnderRules rules T} ((d.reason rules).2.triplesIn g) := by
  obtain ⟨compiled, h⟩ := hcompiles
  exact (hd.toConsistent.isLeast_reason (hd.terms.usable hrules h)).2 g

/-- Reasoning in one graph closes its triples. -/
theorem Valid.isLeast_reasonIn {g : Term} (hg : g.IsValid) :
    IsLeast {T | d.triplesIn g ⊆ T ∧ ClosedUnderRules rules T} ((d.reasonIn rules g).2.triplesIn g) := by
  obtain ⟨compiled, h⟩ := hcompiles
  obtain ⟨hterms, -, -⟩ := compileRules_spec hrules hd.terms
  refine hd.toConsistent.isLeast_reasonOver (hd.terms.usable hrules h) (nodup_find? g) fun n hn => .inl ?_
  rw [Option.mem_toList]
  exact (hterms.find?_eq_some_iff hg).2 hn

/-- Reasoning in one graph leaves the triples of the others alone. -/
theorem Valid.triplesIn_reasonIn {g other : Term} (hg : g.IsValid) (hother : other ≠ g) :
    (d.reasonIn rules g).2.triplesIn other = d.triplesIn other := by
  obtain ⟨compiled, h⟩ := hcompiles
  obtain ⟨hterms, -, -⟩ := compileRules_spec hrules hd.terms
  refine hd.toConsistent.triplesIn_reasonOver (hd.terms.usable hrules h) (nodup_find? g) fun n hn hchosen => ?_
  rw [Option.mem_toList] at hchosen
  have hname := (hterms.find?_eq_some_iff hg).1 hchosen
  exact hother (Option.some.inj (hn.symm.trans hname))

/-- Nothing is taken for a graph that has the id of no valid term, so reasoning in it leaves all triples alone. -/
theorem Valid.triplesIn_reasonIn_of_id_ne {g : Term} (hg : ∀ t : Term, t.IsValid → t.id ≠ g.id) (other : Term) :
    (d.reasonIn rules g).2.triplesIn other = d.triplesIn other := by
  obtain ⟨compiled, h⟩ := hcompiles
  obtain ⟨hterms, -, -⟩ := compileRules_spec hrules hd.terms
  refine hd.toConsistent.triplesIn_reasonOver (hd.terms.usable hrules h) (nodup_find? g) fun n _ hchosen => ?_
  rw [Option.mem_toList] at hchosen
  obtain ⟨t, ht, hid⟩ := (hterms.sound g.id n).1 hchosen
  exact hg t (hterms.isValid ht) hid

end

/-- Reasoning keeps a dataset valid. -/
theorem Valid.reason (hd : d.Valid) (hrules : ∀ rule ∈ rules, rule.IsValid) :
    (d.reason rules).2.Valid ∧ d.terms.Extends (d.reason rules).2.terms :=
  hd.reasonOver hrules nodup_keys

theorem Valid.reasonIn (hd : d.Valid) (hrules : ∀ rule ∈ rules, rule.IsValid) (g : Term) :
    (d.reasonIn rules g).2.Valid ∧ d.terms.Extends (d.reasonIn rules g).2.terms :=
  hd.reasonOver hrules (nodup_find? g)

end Dataset

end RdfDataset
