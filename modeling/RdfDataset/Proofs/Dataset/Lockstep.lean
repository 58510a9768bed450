import RdfDataset.Proofs.Collection.Alike

/-!
# Changes in lockstep

The same change of two alike datasets says the same of both and leaves them alike, although one may prune where the
other does not, one may close graphs that the other does not have any more, and each goes through its graphs and quads
in an order of its own.

* `Dataset.Agree`: what two changes have in common.
* `Dataset.Alike.insert`, `Dataset.Alike.eraseIds`, `Dataset.Alike.freshBlank` and so on: one lemma for each change.
* `Dataset.closeGraphs_spec`: different graphs are closed independently; `Dataset.Alike.reasonOver` is a whole run.
-/

namespace RdfDataset

namespace Dataset

variable [Arrangement]

/-! ### Changes -/

/-- Two changes say the same and lead to alike datasets. -/
def Agree {α : Type} (r r' : α × Dataset) : Prop :=
  r'.1 = r.1 ∧ r.2.Alike r'.2

/-- Alike datasets that evolve stay alike if they go on with the same numbers, counter and triples. -/
theorem Alike.evolve {d d' e e' : Dataset} (h : d.Alike e) (hd : d.Evolves d') (he : e.Evolves e')
    (hterms : e'.terms = d'.terms) (hnext : e'.nextBlank = d'.nextBlank)
    (hcontains : ∀ graph t, (e'.index graph).contains t = (d'.index graph).contains t) : d'.Alike e' :=
  ⟨hd.sound, he.sound, hterms, hnext, by rw [hd.settings, he.settings, h.blankNodePrefix], hcontains⟩

/-- The numbers that the terms of a quad have once all of them have one, and the table in which they have them. -/
def numbered (terms : Interner) (q : Quad) : (Nat × Triple Nat) × Interner :=
  let (graph, terms) := terms.intern q.graph
  let (s, terms) := terms.intern q.subject
  let (p, terms) := terms.intern q.predicate
  let (o, terms) := terms.intern q.object
  ((graph, ⟨s, p, o⟩), terms)

/-- Adds a triple of numbers to a graph, with the table of the terms that they name. -/
def insertIds (d : Dataset) (graph : Nat) (t : Triple Nat) (terms : Interner) : Bool × Dataset :=
  (((d.index graph).insert t).1,
    { d with
      terms
      graphs := d.graphs.insert graph ((d.index graph).insert t).2
      knownSize := if ((d.index graph).insert t).1 then none else d.knownSize })

theorem insert_eq (d : Dataset) (q : Quad) :
    d.insert q = d.insertIds (numbered d.terms q).1.1 (numbered d.terms q).1.2 (numbered d.terms q).2 := by
  unfold Dataset.insert numbered
  rcases d.terms.intern q.graph with ⟨graph, terms₁⟩
  dsimp only
  rcases terms₁.intern q.subject with ⟨s, terms₂⟩
  dsimp only
  rcases terms₂.intern q.predicate with ⟨p, terms₃⟩
  dsimp only
  rcases terms₃.intern q.object with ⟨o, terms₄⟩
  rfl

namespace Alike

variable {d e : Dataset} (h : d.Alike e)
include h

theorem insert (q : Quad) : Agree (d.insert q) (e.insert q) := by
  have hevolves := h.left.insert q
  have hevolves' := h.right.insert q
  rw [insert_eq] at hevolves hevolves' ⊢
  rw [insert_eq, h.terms]
  rw [h.terms] at hevolves'
  generalize numbered d.terms q = r at *
  obtain ⟨⟨graph, t⟩, terms⟩ := r
  refine ⟨?_, h.evolve hevolves hevolves' rfl h.nextBlank fun n u => ?_⟩
  · rw [insertIds, insertIds, GraphIndex.insert_fst, GraphIndex.insert_fst, h.contains]
  have hindex : ∀ d : Dataset, (d.insertIds graph t terms).2.index n =
      if n = graph then ((d.index graph).insert t).2 else d.index n := fun d => index_of_insert rfl n
  rw [hindex, hindex]
  split
  · rw [Bool.eq_iff_iff, GraphIndex.contains_insert, GraphIndex.contains_insert, h.contains]
  · exact h.contains n u

theorem eraseIds (graph : Nat) (t : Triple Nat) : Agree (d.eraseIds graph t) (e.eraseIds graph t) := by
  obtain ⟨hterms, hnext⟩ := d.terms_eraseIds graph t
  obtain ⟨hterms', hnext'⟩ := e.terms_eraseIds graph t
  refine ⟨?_, h.evolve (h.left.eraseIds graph t) (h.right.eraseIds graph t) ?_ ?_ fun n u => ?_⟩
  · rw [eraseIds_fst, eraseIds_fst, h.contains]
  · rw [hterms, hterms', h.terms]
  · rw [hnext, hnext', h.nextBlank]
  · rw [Bool.eq_iff_iff, contains_eraseIds, contains_eraseIds, h.contains]

theorem erase (q : Quad) : Agree (d.erase q) (e.erase q) := by
  unfold Dataset.erase
  rw [h.quadIds?]
  split
  · exact h.eraseIds _ _
  · exact ⟨rfl, h⟩

/-- Steps that agree one by one agree when they are taken and counted one after the other. -/
theorem countSteps {α : Type} {step : Dataset → α → Bool × Dataset}
    (hstep : ∀ {d e : Dataset}, d.Alike e → ∀ a, Agree (step d a) (step e a)) (as : List α) (n : Nat) :
    Agree (Dataset.countSteps step as (n, d)) (Dataset.countSteps step as (n, e)) := by
  induction as generalizing d e n with
  | nil => exact ⟨rfl, h⟩
  | cons a as ih =>
    obtain ⟨hsame, hnext⟩ := hstep h a
    rw [Dataset.countSteps, Dataset.countSteps, hsame]
    exact ih hnext _

theorem insertMany (quads : List Quad) : Agree (d.insertMany quads) (e.insertMany quads) := by
  rw [Dataset.insertMany, Dataset.insertMany, ← countSteps_eq_foldl, ← countSteps_eq_foldl]
  exact h.countSteps (fun h q => h.insert q) quads 0

theorem eraseMany (quads : List Quad) : Agree (d.eraseMany quads) (e.eraseMany quads) := by
  rw [Dataset.eraseMany, Dataset.eraseMany, ← countSteps_eq_foldl, ← countSteps_eq_foldl]
  exact h.countSteps (fun h q => h.erase q) quads 0

/-- The quads that are taken out are found by both, in different orders. -/
theorem eraseMatching (pattern : Pattern) : Agree (d.eraseMatching pattern) (e.eraseMatching pattern) := by
  have hleft := h.left.eraseMatching pattern
  have hright := h.right.eraseMatching pattern
  have htold : ∀ {d : Dataset}, d.Consistent → ∀ q ∈ d.matching pattern, q.DistinguishedBy d.terms :=
    fun hd q hq => hd.distinguishedBy_of_mem (hd.mem_quads_of_mem_matching hq)
  have hfound : (e.matching pattern).toFinset = (d.matching pattern).toFinset :=
    List.toFinset_eq_of_perm _ _ (h.matching pattern)
  obtain ⟨-, hterms, hquads, hcount⟩ := h.left.consistent.eraseMany (htold h.left.consistent)
  obtain ⟨-, hterms', hquads', hcount'⟩ := h.right.consistent.eraseMany (htold h.right.consistent)
  rw [← h.left.consistent.eraseMatching_eq] at hterms hquads hcount
  rw [← h.right.consistent.eraseMatching_eq] at hterms' hquads' hcount'
  refine ⟨?_, .of_quads hleft.sound hright.sound ?_ ?_ ?_ ?_⟩
  · rw [hcount, hcount', h.quads, hfound]
  · rw [hterms, hterms', h.terms]
  · rw [nextBlank_eraseMatching, nextBlank_eraseMatching, h.nextBlank]
  · rw [hleft.settings, hright.settings, h.blankNodePrefix]
  · rw [hquads, hquads', h.quads, hfound]

theorem sized : d.size.2.Alike e.size.2 := by
  have hsame : ∀ d : Dataset, d.size.2.terms = d.terms ∧ ∀ graph, d.size.2.index graph = d.index graph := by
    intro d
    unfold Dataset.size
    split <;> exact ⟨rfl, fun _ => rfl⟩
  obtain ⟨hterms, hindex⟩ := hsame d
  obtain ⟨hterms', hindex'⟩ := hsame e
  refine h.evolve h.left.size h.right.size ?_ ?_ fun graph t => ?_
  · rw [hterms, hterms', h.terms]
  · rw [nextBlank_size, nextBlank_size, h.nextBlank]
  · rw [hindex, hindex', h.contains]

/-! ### Blank nodes and documents -/

theorem mint (label : String) : Agree (d.mint label) (e.mint label) := by
  unfold Dataset.mint
  cases Term.blank? label with
  | error x => exact ⟨rfl, h⟩
  | ok node =>
    obtain ⟨hsound, hkeeps, -⟩ := h.left.terms.intern node
    obtain ⟨hsound', hkeeps', -⟩ := h.right.terms.intern node
    refine ⟨rfl, h.evolve (h.left.extend hsound hkeeps rfl rfl rfl) (h.right.extend hsound' hkeeps' rfl rfl rfl) ?_
      h.nextBlank h.contains⟩
    exact congrArg (fun terms => (terms.intern node).2) h.terms

/-- The same labels are tried, from the same number on. -/
theorem freshBlank (suggestion : Option String) : Agree (d.freshBlank suggestion) (e.freshBlank suggestion) := by
  have hunused : e.isUnused = d.isUnused := by
    funext label
    rw [isUnused, isUnused, h.terms]
  have hlabel : e.countedLabel = d.countedLabel := by
    funext n
    rw [countedLabel, countedLabel, h.blankNodePrefix]
  unfold Dataset.freshBlank
  dsimp only
  rw [hunused, hlabel, h.terms, h.nextBlank]
  split
  · rename_i base _
    cases checkBlank base with
    | error x => exact ⟨rfl, h⟩
    | ok _ => exact h.mint _
  · have hnext : ∀ n, Alike { d with nextBlank := n } { e with nextBlank := n } := fun n =>
      h.evolve (h.left.extend h.left.terms (.refl _) rfl rfl rfl) (h.right.extend h.right.terms (.refl _) rfl rfl rfl)
        h.terms rfl h.contains
    have hminted := (hnext (firstNumber (d.isUnused ∘ d.countedLabel) (d.terms.size + 1) d.nextBlank + 1)).mint
      (d.countedLabel (firstNumber (d.isUnused ∘ d.countedLabel) (d.terms.size + 1) d.nextBlank))
    rwa [h.terms] at hminted

theorem resetBlankCounter : d.resetBlankCounter.Alike e.resetBlankCounter :=
  h.evolve h.left.resetBlankCounter h.right.resetBlankCounter h.terms rfl h.contains

theorem load (format : Format) (text : String) (base : Option String) :
    Agree (d.load format text base) (e.load format text base) := by
  unfold Dataset.load
  cases format.read text base with
  | error x => exact ⟨rfl, h⟩
  | ok quads => exact ⟨congrArg Except.ok (h.insertMany quads).1, (h.insertMany quads).2⟩

theorem loadFile (path : String) (text base : Option String) :
    Agree (d.loadFile path text base) (e.loadFile path text base) := by
  unfold Dataset.loadFile
  split
  · exact ⟨rfl, h⟩
  · exact ⟨rfl, h⟩
  · exact h.load _ _ base

end Alike

/-! ### Reasoning -/

variable {rules : List CompiledRule}

/-- Closing a graph that a dataset does not have does what closing an empty one would do. -/
theorem closeGraph_spec (hrules : ∀ rule ∈ rules, rule.premise ≠ []) (stats : ReasoningStats) (d : Dataset)
    (graph : Nat) :
    (d.closeGraph rules stats graph).1.rules = stats.rules ∧
      (d.closeGraph rules stats graph).1.derived =
        stats.derived + (RdfDataset.closeGraph rules (d.index graph)).derived ∧
      ∀ n, (d.closeGraph rules stats graph).2.index n =
        if n = graph then (RdfDataset.closeGraph rules (d.index graph)).index else d.index n := by
  cases hget : d.graphs[graph]? with
  | none =>
    have hindex : d.index graph = {} := by rw [Dataset.index, hget, Option.getD_none]
    have hclosed := closeGraph_of_forall_not_contains hrules GraphIndex.coherent_empty GraphIndex.contains_empty
    rw [closeGraph_of_none rules stats hget, hindex, hclosed]
    refine ⟨rfl, rfl, fun n => ?_⟩
    by_cases hn : n = graph
    · rw [if_pos hn, hn, hindex]
    · rw [if_neg hn]
  | some index =>
    have hindex : d.index graph = index := by rw [Dataset.index, hget, Option.getD_some]
    rw [closeGraph_of_some rules stats hget, hindex]
    exact ⟨rfl, rfl, index_of_insert rfl⟩

/-- Closing different graphs one after the other closes each from what it was at first. -/
private theorem foldl_closeGraph_spec (hrules : ∀ rule ∈ rules, rule.premise ≠ []) {graphs : List Nat}
    (hgraphs : graphs.Nodup) (stats : ReasoningStats) (d : Dataset) :
    let r := graphs.foldl (fun (stats, d) graph => d.closeGraph rules stats graph) (stats, d)
    r.1.rules = stats.rules ∧
      r.1.derived = stats.derived + (graphs.map fun n => (RdfDataset.closeGraph rules (d.index n)).derived).sum ∧
      ∀ n, r.2.index n = if n ∈ graphs then (RdfDataset.closeGraph rules (d.index n)).index else d.index n := by
  induction graphs generalizing stats d with
  | nil => exact ⟨rfl, rfl, by simp⟩
  | cons graph graphs ih =>
    obtain ⟨hfresh, hgraphs⟩ := List.nodup_cons.1 hgraphs
    obtain ⟨hcount, hderived, hindex⟩ := closeGraph_spec hrules stats d graph
    obtain ⟨hcount', hderived', hindex'⟩ := ih hgraphs (d.closeGraph rules stats graph).1
      (d.closeGraph rules stats graph).2
    -- no graph is closed twice, so the others are still as they were
    have hothers : ∀ n ∈ graphs, (d.closeGraph rules stats graph).2.index n = d.index n := by
      intro n hn
      have hne : n ≠ graph := fun heq => hfresh (heq ▸ hn)
      rw [hindex, if_neg hne]
    have hsum : (graphs.map fun n => (RdfDataset.closeGraph rules
        ((d.closeGraph rules stats graph).2.index n)).derived).sum =
          (graphs.map fun n => (RdfDataset.closeGraph rules (d.index n)).derived).sum := by
      refine congrArg List.sum (List.map_congr_left fun n hn => ?_)
      rw [hothers n hn]
    refine ⟨hcount'.trans hcount, ?_, fun n => ?_⟩
    · rw [List.map_cons, List.sum_cons, ← Nat.add_assoc, ← hderived, ← hsum]
      exact hderived'
    · refine (hindex' n).trans ?_
      by_cases hn : n ∈ graphs
      · rw [if_pos hn, if_pos (List.mem_cons_of_mem graph hn), hothers n hn]
      · rw [if_neg hn, hindex]
        simp only [List.mem_cons, hn, or_false]
        split
        · rename_i heq
          rw [heq]
        · rfl

theorem closeGraphs_spec (hrules : ∀ rule ∈ rules, rule.premise ≠ []) (d : Dataset) {graphs : List Nat}
    (hgraphs : graphs.Nodup) :
    (d.closeGraphs rules graphs).1.rules = rules.length ∧
      (d.closeGraphs rules graphs).1.derived =
        (graphs.map fun n => (RdfDataset.closeGraph rules (d.index n)).derived).sum ∧
      ∀ n, (d.closeGraphs rules graphs).2.index n =
        if n ∈ graphs then (RdfDataset.closeGraph rules (d.index n)).index else d.index n := by
  have hall := foldl_closeGraph_spec hrules hgraphs { rules := rules.length } d
  rw [Nat.zero_add] at hall
  exact hall

theorem reasonOver_eq (d : Dataset) (rules : List Rule) (choose : Dataset → List Nat) :
    d.reasonOver rules choose =
      match (compileRules rules d.terms).1 with
      | .error x => (.error x, { d with terms := (compileRules rules d.terms).2 })
      | .ok compiled =>
        let compiledOver := { d with terms := (compileRules rules d.terms).2 }
        let r := closeGraphs compiled compiledOver (choose compiledOver)
        (.ok r.1, r.2) :=
  rfl

namespace Alike

variable {d e : Dataset} (h : d.Alike e)
include h

/-- Graphs without triples may be closed or not, and the others in any order: this derives as much and leaves the same
triples. -/
theorem closeGraphs {sources : List Rule} {terms : Interner} (hterms : terms.Sound)
    (hcompiled : (compileRules sources terms).1 = .ok rules) {graphs graphs' : List Nat} (hgraphs : graphs.Nodup)
    (hgraphs' : graphs'.Nodup)
    (hsame : ∀ n t, (d.index n).contains t = true → (n ∈ graphs' ↔ n ∈ graphs)) :
    (e.closeGraphs rules graphs').1.rules = (d.closeGraphs rules graphs).1.rules ∧
      (e.closeGraphs rules graphs').1.derived = (d.closeGraphs rules graphs).1.derived ∧
      ∀ n t, ((e.closeGraphs rules graphs').2.index n).contains t =
        ((d.closeGraphs rules graphs).2.index n).contains t := by
  have hrules := premise_ne_nil_of_compileRules hterms hcompiled
  obtain ⟨hcount, hderived, hindex⟩ := closeGraphs_spec hrules d hgraphs
  obtain ⟨hcount', hderived', hindex'⟩ := closeGraphs_spec hrules e hgraphs'
  have hclosed := fun n => (h.index n).closeGraph hterms hcompiled
  -- a graph that only one of the datasets closes has no triples, so closing it changes nothing
  have hempty : ∀ n, ¬(n ∈ graphs' ↔ n ∈ graphs) →
      RdfDataset.closeGraph rules (d.index n) = { index := d.index n } ∧
        RdfDataset.closeGraph rules (e.index n) = { index := e.index n } := by
    intro n hn
    have hnone : ∀ t, (d.index n).contains t = false := fun t => eq_false_of_ne_true fun ht => hn (hsame n t ht)
    exact ⟨closeGraph_of_forall_not_contains hrules (h.left.consistent.coherent n) hnone,
      closeGraph_of_forall_not_contains hrules (h.right.consistent.coherent n) fun t => (h.contains n t).trans (hnone t)⟩
  refine ⟨hcount'.trans hcount.symm, ?_, fun n t => ?_⟩
  · rw [hderived, hderived', ← List.sum_toFinset _ hgraphs, ← List.sum_toFinset _ hgraphs']
    refine Finset.sum_congr_of_eq_on_inter (fun n hn hn' => ?_) (fun n hn hn' => ?_) fun n _ _ => (hclosed n).2
    · rw [List.mem_toFinset] at hn hn'
      rw [(hempty n fun hiff => hn' (hiff.1 hn)).2]
    · rw [List.mem_toFinset] at hn hn'
      rw [(hempty n fun hiff => hn' (hiff.2 hn)).1]
  · rw [hindex, hindex']
    by_cases hn : n ∈ graphs' ↔ n ∈ graphs
    · by_cases hmem : n ∈ graphs
      · rw [if_pos hmem, if_pos (hn.2 hmem)]
        exact (hclosed n).1.contains t
      · rw [if_neg hmem, if_neg (mt hn.1 hmem)]
        exact h.contains n t
    · obtain ⟨hleft, hright⟩ := hempty n hn
      rw [hleft, hright]
      simp only [ite_self]
      exact h.contains n t

/-- Reasoning uses the same rules and derives as much, if graphs that have triples are chosen alike. -/
theorem reasonOver (rules : List Rule) {choose : Dataset → List Nat} (hchoose : ∀ d, (choose d).Nodup)
    (hsame : ∀ {d e : Dataset}, d.Alike e → ∀ n t, (d.index n).contains t = true → (n ∈ choose e ↔ n ∈ choose d)) :
    (e.reasonOver rules choose).1.map (fun stats => (stats.rules, stats.derived)) =
        (d.reasonOver rules choose).1.map (fun stats => (stats.rules, stats.derived)) ∧
      (d.reasonOver rules choose).2.Alike (e.reasonOver rules choose).2 := by
  obtain ⟨hsound, hkeeps, -⟩ := compileRules_over rules h.left.terms
  obtain ⟨hevolves, hterms⟩ := h.left.reasonOver rules choose
  obtain ⟨hevolves', hterms'⟩ := h.right.reasonOver rules choose
  have hcompiled : Alike { d with terms := (compileRules rules d.terms).2 }
      { e with terms := (compileRules rules d.terms).2 } := by
    refine h.evolve (h.left.extend hsound hkeeps rfl rfl rfl) (h.right.extend hsound ?_ rfl rfl rfl) rfl h.nextBlank
      h.contains
    rw [h.terms]
    exact hkeeps
  have hsameTerms : (e.reasonOver rules choose).2.terms = (d.reasonOver rules choose).2.terms := by
    rw [hterms, hterms', h.terms]
  have hnext : (e.reasonOver rules choose).2.nextBlank = (d.reasonOver rules choose).2.nextBlank := by
    rw [nextBlank_reasonOver, nextBlank_reasonOver, h.nextBlank]
  have hd := d.reasonOver_eq rules choose
  have he := e.reasonOver_eq rules choose
  rw [h.terms] at he
  cases hresult : (compileRules rules d.terms).1 with
  | error x =>
    rw [hresult] at hd he
    rw [hd, he]
    exact ⟨rfl, hcompiled⟩
  | ok compiled =>
    rw [hresult] at hd he
    obtain ⟨hcount, hderived, hcontains⟩ := hcompiled.closeGraphs h.left.terms hresult (hchoose _) (hchoose _)
      (hsame hcompiled)
    rw [hd] at hevolves hsameTerms hnext ⊢
    rw [he] at hevolves' hsameTerms hnext ⊢
    refine ⟨?_, h.evolve hevolves hevolves' hsameTerms hnext hcontains⟩
    dsimp only [Except.map]
    rw [hcount, hderived]

theorem reason (rules : List Rule) :
    (e.reason rules).1.map (fun stats => (stats.rules, stats.derived)) =
        (d.reason rules).1.map (fun stats => (stats.rules, stats.derived)) ∧
      (d.reason rules).2.Alike (e.reason rules).2 := by
  refine h.reasonOver rules (fun d => d.graphs.nodup_keys) fun {d e} h n t ht => ?_
  have hkey : ∀ d : Dataset, (d.index n).contains t = true → n ∈ d.graphs.keys := by
    intro d ht
    obtain ⟨index, hget, -⟩ := contains_index_iff.1 ht
    exact Table.mem_keys.2 (Table.mem_iff_exists.2 ⟨index, hget⟩)
  exact iff_of_true (hkey e ((h.contains n t).trans ht)) (hkey d ht)

theorem reasonIn (rules : List Rule) (graph : Term) :
    (e.reasonIn rules graph).1.map (fun stats => (stats.rules, stats.derived)) =
        (d.reasonIn rules graph).1.map (fun stats => (stats.rules, stats.derived)) ∧
      (d.reasonIn rules graph).2.Alike (e.reasonIn rules graph).2 := by
  refine h.reasonOver rules (fun d => ?_) fun h n t _ => ?_
  · cases d.terms.find? graph <;> simp
  · rw [h.terms]

end Alike

end Dataset

end RdfDataset
