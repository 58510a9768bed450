import RdfDataset.Dataset.BlankNode
import RdfDataset.Dataset.Collection
import RdfDataset.Document.Reader
import RdfDataset.Proofs.Dataset.Quads
import RdfDataset.Proofs.Result

/-!
# Changing the quads of a dataset

Every change keeps a dataset valid and does to its quads what it does to a set.  Quads of a dataset are taken out of it
in the same way when its terms are not valid.

* `Dataset.Valid.insert` and `Dataset.Valid.erase`: one quad is added or taken out.
* `Dataset.Valid.insertMany`, `Dataset.Valid.eraseMany` and `Dataset.Valid.eraseMatching`: the same for many quads,
  counted by how far the set has grown or shrunk.
* `Dataset.insertMany_induction`, `Dataset.eraseMany_induction` and so on: what changing one quad keeps, changing many
  keeps.
* `Dataset.load_cases` and `Dataset.loadFile_cases`: what comes of a document.
* `Dataset.freshBlank_cases` and `Dataset.Valid.freshBlank`: new blank nodes leave the quads alone.
-/

namespace RdfDataset.Dataset

variable [Arrangement]

/-! ### Changes of one index -/

theorem index_of_insert {d d' : Dataset} {graph : Nat} {index : GraphIndex}
    (h : d'.graphs = d.graphs.insert graph index) (n : Nat) :
    d'.index n = if n = graph then index else d.index n := by
  unfold Dataset.index
  rw [h, Table.getElem?_insert]
  split <;> rfl

theorem index_of_erase {d d' : Dataset} {graph : Nat} (h : d'.graphs = d.graphs.erase graph) (n : Nat) :
    d'.index n = if n = graph then {} else d.index n := by
  unfold Dataset.index
  rw [h, Table.getElem?_erase]
  split <;> rfl

namespace Consistent

variable {d d' : Dataset}

/-- A dataset stays consistent when terms get numbers. -/
theorem extend (hd : d.Consistent) (hterms : d'.terms.Sound) (hkeeps : d.terms.Extends d'.terms)
    (hgraphs : d'.graphs = d.graphs) : d'.Consistent where
  sound := hterms
  coherent := by
    intro graph
    rw [index, hgraphs]
    exact hd.coherent graph
  graph_named := by
    intro graph index h
    rw [hgraphs] at h
    obtain ⟨t, ht⟩ := hd.graph_named h
    exact ⟨t, hkeeps _ _ ht⟩
  named := by
    intro graph t h
    rw [index, hgraphs] at h
    obtain ⟨q, hq⟩ := hd.named h
    exact ⟨q, resolveQuad?_of_extends hkeeps hq⟩

/-- A dataset stays consistent when terms get numbers and one graph gets a new index, whose numbers all name terms. -/
theorem setIndex (hd : d.Consistent) (hterms : d'.terms.Sound) (hkeeps : d.terms.Extends d'.terms) {graph : Nat}
    {index : GraphIndex} (hgraphs : d'.graphs = d.graphs.insert graph index) (hindex : index.Coherent)
    (hgraph : ∃ t, d'.terms.resolve? graph = some t)
    (hnamed : ∀ t, index.contains t = true → ∃ q, d'.resolveQuad? graph t = some q) : d'.Consistent where
  sound := hterms
  coherent := by
    intro n
    rw [index_of_insert hgraphs]
    split
    · exact hindex
    · exact hd.coherent n
  graph_named := by
    intro n index h
    rw [hgraphs, Table.getElem?_insert] at h
    split at h
    · rename_i heq
      rwa [heq]
    · obtain ⟨t, ht⟩ := hd.graph_named h
      exact ⟨t, hkeeps _ _ ht⟩
  named := by
    intro n t h
    rw [index_of_insert hgraphs] at h
    split at h
    · rename_i heq
      rw [heq]
      exact hnamed t h
    · obtain ⟨q, hq⟩ := hd.named h
      exact ⟨q, resolveQuad?_of_extends hkeeps hq⟩

/-- A dataset stays consistent when it drops a graph. -/
theorem dropIndex (hd : d.Consistent) (hterms : d'.terms = d.terms) {graph : Nat}
    (hgraphs : d'.graphs = d.graphs.erase graph) : d'.Consistent where
  sound := by
    rw [hterms]
    exact hd.sound
  coherent := by
    intro n
    rw [index_of_erase hgraphs]
    split
    · exact GraphIndex.coherent_empty
    · exact hd.coherent n
  graph_named := by
    intro n index h
    rw [hgraphs, Table.getElem?_erase] at h
    split at h
    · cases h
    · rw [hterms]
      exact hd.graph_named h
  named := by
    intro n t h
    rw [index_of_erase hgraphs] at h
    split at h
    · rw [GraphIndex.contains_empty] at h
      cases h
    · obtain ⟨q, hq⟩ := hd.named h
      have hkeeps : d.terms.Extends d'.terms := by
        rw [hterms]
        exact .refl _
      exact ⟨q, resolveQuad?_of_extends hkeeps hq⟩

/-- A quad is there when its numbers are, also when they have been given to it later. -/
theorem mem_quads_of_keeps (hd : d.Consistent) (hkeeps : d.terms.Extends d'.terms) (hd' : d'.Consistent) {graph : Nat}
    {t : Triple Nat} {q : Quad} (hq : d'.resolveQuad? graph t = some q) :
    q ∈ d.quads ↔ (d.index graph).contains t = true := by
  rw [hd.mem_quads]
  constructor
  · rintro ⟨graph', t', h, hold⟩
    obtain ⟨rfl, rfl⟩ := Prod.mk.inj (hd'.resolveQuad?_inj hq (resolveQuad?_of_extends hkeeps hold))
    exact h
  · intro h
    obtain ⟨q', hq'⟩ := hd.named h
    have heq := resolveQuad?_of_extends hkeeps hq'
    rw [hq] at heq
    obtain rfl := Option.some.inj heq
    exact ⟨graph, t, h, hq'⟩

theorem mem_quads_iff (hd : d.Consistent) {graph : Nat} {t : Triple Nat} {q : Quad}
    (hq : d.resolveQuad? graph t = some q) : q ∈ d.quads ↔ (d.index graph).contains t = true :=
  hd.mem_quads_of_keeps (.refl _) hd hq

/-- The quads stay the same when only terms get numbers. -/
theorem quads_extend (hd : d.Consistent) (hd' : d'.Consistent) (hkeeps : d.terms.Extends d'.terms)
    (hgraphs : d'.graphs = d.graphs) : d'.quads = d.quads := by
  have hindex : ∀ graph, d'.index graph = d.index graph := by
    intro graph
    rw [index, hgraphs]
    rfl
  ext q
  constructor
  · intro h
    obtain ⟨graph, t, ht, hq⟩ := hd'.mem_quads.1 h
    rw [hindex] at ht
    exact (hd.mem_quads_of_keeps hkeeps hd' hq).2 ht
  · intro h
    obtain ⟨graph, t, ht, hq⟩ := hd.mem_quads.1 h
    rw [← hindex] at ht
    exact (hd'.mem_quads_iff (resolveQuad?_of_extends hkeeps hq)).2 ht

end Consistent

namespace Valid

variable {d d' : Dataset}

theorem empty (settings : Settings) : Valid { settings } where
  sound := Interner.sound_empty
  terms := Interner.valid_empty
  coherent := by
    intro graph
    simpa [index] using GraphIndex.coherent_empty
  graph_named := by simp
  named := by simp [index, GraphIndex.contains_empty]

theorem quads_empty (settings : Settings) : quads { settings } = ∅ := by
  ext q
  rw [(empty settings).mem_quads]
  simp [index, GraphIndex.contains_empty]

/-- A dataset stays valid when terms get numbers. -/
theorem extend (hd : d.Valid) (hterms : d'.terms.Valid) (hkeeps : d.terms.Extends d'.terms)
    (hgraphs : d'.graphs = d.graphs) : d'.Valid where
  toConsistent := hd.toConsistent.extend hterms.sound hkeeps hgraphs
  terms := hterms

/-- A dataset stays valid when terms get numbers and one graph gets a new index, whose numbers all name terms. -/
theorem setIndex (hd : d.Valid) (hterms : d'.terms.Valid) (hkeeps : d.terms.Extends d'.terms) {graph : Nat}
    {index : GraphIndex} (hgraphs : d'.graphs = d.graphs.insert graph index) (hindex : index.Coherent)
    (hgraph : ∃ t, d'.terms.resolve? graph = some t)
    (hnamed : ∀ t, index.contains t = true → ∃ q, d'.resolveQuad? graph t = some q) : d'.Valid where
  toConsistent := hd.toConsistent.setIndex hterms.sound hkeeps hgraphs hindex hgraph hnamed
  terms := hterms

/-- A dataset stays valid when it stays consistent and keeps its terms. -/
theorem of_terms_eq (hd : d.Valid) (hd' : d'.Consistent) (hterms : d'.terms = d.terms) : d'.Valid where
  toConsistent := hd'
  terms := by
    rw [hterms]
    exact hd.terms

end Valid

/-! ### One quad -/

/-- What adding a quad does: its terms get numbers and these go into the index of its graph. -/
private theorem exists_insert {d : Dataset} (hd : d.Valid) {q : Quad} (hq : q.IsValid) :
    ∃ graph t terms, terms.Valid ∧ d.terms.Extends terms ∧ ({ d with terms } : Dataset).resolveQuad? graph t = some q ∧
      d.insert q =
        (((d.index graph).insert t).1,
          { d with
            terms
            graphs := d.graphs.insert graph ((d.index graph).insert t).2
            knownSize := if ((d.index graph).insert t).1 then none else d.knownSize }) := by
  obtain ⟨hs, hp, ho, hg⟩ := Quad.isValid_iff.1 hq
  rcases hrg : d.terms.intern q.graph with ⟨graph, terms₁⟩
  rcases hrs : terms₁.intern q.subject with ⟨s, terms₂⟩
  rcases hrp : terms₂.intern q.predicate with ⟨p, terms₃⟩
  rcases hro : terms₃.intern q.object with ⟨o, terms₄⟩
  obtain ⟨v₁, k₁, n₁⟩ := hd.terms.of_intern_eq hg hrg
  obtain ⟨v₂, k₂, n₂⟩ := v₁.of_intern_eq hs hrs
  obtain ⟨v₃, k₃, n₃⟩ := v₂.of_intern_eq hp hrp
  obtain ⟨v₄, k₄, n₄⟩ := v₃.of_intern_eq ho hro
  refine ⟨graph, ⟨s, p, o⟩, terms₄, v₄, ((k₁.trans k₂).trans k₃).trans k₄, ?_, ?_⟩
  · rw [resolveQuad?_eq_some]
    exact ⟨(k₃.trans k₄) _ _ n₂, k₄ _ _ n₃, n₄, ((k₂.trans k₃).trans k₄) _ _ n₁⟩
  · simp only [Dataset.insert, hrg, hrs, hrp, hro]

/-- Adding a quad keeps the dataset valid and all numbers in place, adds the quad to the others, and says whether it
was missing. -/
theorem Valid.insert {d : Dataset} (hd : d.Valid) {q : Quad} (hq : q.IsValid) :
    (d.insert q).2.Valid ∧ d.terms.Extends (d.insert q).2.terms ∧ (d.insert q).2.quads = Insert.insert q d.quads ∧
      (d.insert q).1 = decide (q ∉ d.quads) := by
  obtain ⟨graph, t, terms, hterms, hkeeps, hnumbers, heq⟩ := exists_insert hd hq
  rw [heq]
  generalize hd' : ({ d with
    terms
    graphs := d.graphs.insert graph ((d.index graph).insert t).2
    knownSize := if ((d.index graph).insert t).1 then none else d.knownSize } : Dataset) = d'
  have hgraphs : d'.graphs = d.graphs.insert graph ((d.index graph).insert t).2 := by rw [← hd']
  have hterms' : d'.terms = terms := by rw [← hd']
  have hnumbers : d'.resolveQuad? graph t = some q := by
    rw [resolveQuad?_eq_some] at hnumbers ⊢
    rwa [hterms']
  have hkeeps : d.terms.Extends d'.terms := by rwa [hterms']
  have hvalid : d'.Valid := by
    refine hd.setIndex (by rwa [hterms']) hkeeps hgraphs ((hd.coherent graph).insert t) ?_ ?_
    · exact ⟨_, (resolveQuad?_eq_some.1 hnumbers).2.2.2⟩
    · intro u hu
      rw [GraphIndex.contains_insert] at hu
      rcases hu with rfl | hu
      · exact ⟨q, hnumbers⟩
      · obtain ⟨q', hq'⟩ := hd.named hu
        exact ⟨q', resolveQuad?_of_extends hkeeps hq'⟩
  refine ⟨hvalid, hkeeps, ?_, ?_⟩
  · ext q'
    rw [Finset.mem_insert]
    constructor
    · intro h
      obtain ⟨n, u, hu, hq'⟩ := hvalid.mem_quads.1 h
      rw [hd.mem_quads_of_keeps hkeeps hvalid.toConsistent hq']
      rw [index_of_insert hgraphs] at hu
      split at hu
      · rename_i heq
        subst heq
        rw [GraphIndex.contains_insert] at hu
        rcases hu with rfl | hu
        · exact .inl (Option.some.inj (hq'.symm.trans hnumbers))
        · exact .inr hu
      · exact .inr hu
    · rintro (rfl | h)
      · rw [hvalid.mem_quads_iff hnumbers, index_of_insert hgraphs, if_pos rfl, GraphIndex.contains_insert]
        exact .inl rfl
      · obtain ⟨n, u, hu, hq'⟩ := hd.mem_quads.1 h
        rw [hvalid.mem_quads_iff (resolveQuad?_of_extends hkeeps hq'), index_of_insert hgraphs]
        split
        · rename_i heq
          subst heq
          exact (GraphIndex.contains_insert _ _ _).2 (.inr hu)
        · exact hu
  · rw [GraphIndex.insert_fst, Bool.eq_iff_iff, decide_eq_true_iff,
      hd.mem_quads_of_keeps hkeeps hvalid.toConsistent hnumbers]
    simp

theorem eraseIds_of_not_contains {d : Dataset} {graph : Nat} {t : Triple Nat}
    (h : (d.index graph).contains t = false) : d.eraseIds graph t = (false, d) := by
  unfold eraseIds
  cases hget : d.graphs[graph]? with
  | none => rfl
  | some index =>
    rw [Dataset.index, hget, Option.getD_some] at h
    dsimp only
    rw [GraphIndex.erase_of_not_contains _ h]
    rfl

/-- Taking numbers out of the index of a graph that has them. -/
theorem eraseIds_of_contains {d : Dataset} {graph : Nat} {t : Triple Nat}
    (h : (d.index graph).contains t = true) :
    let index := ((d.index graph).erase d.settings.pruneEmptyLevels t).2
    d.eraseIds graph t =
      (true,
        { d with
          graphs :=
            if d.settings.pruneEmptyLevels && index.isEmpty then d.graphs.erase graph else d.graphs.insert graph index
          knownSize := none }) := by
  obtain ⟨index, hget, ht⟩ := contains_index_iff.1 h
  have hindex : d.index graph = index := by rw [Dataset.index, hget, Option.getD_some]
  have herase : (index.erase d.settings.pruneEmptyLevels t).1 = true := by rw [GraphIndex.erase_fst, ht]
  unfold eraseIds
  rw [hget, hindex]
  dsimp only
  rw [if_pos herase]

theorem eraseIds_fst (d : Dataset) (graph : Nat) (t : Triple Nat) :
    (d.eraseIds graph t).1 = (d.index graph).contains t := by
  by_cases h : (d.index graph).contains t = true
  · rw [eraseIds_of_contains h, h]
  · rw [eraseIds_of_not_contains (eq_false_of_ne_true h), eq_false_of_ne_true h]

/-- Taking numbers out of the index of a graph takes out nothing else, whether the index goes with them or not. -/
theorem contains_eraseIds (d : Dataset) (graph : Nat) (t : Triple Nat) (n : Nat) (u : Triple Nat) :
    ((d.eraseIds graph t).2.index n).contains u = true ↔ (d.index n).contains u = true ∧ ¬(n = graph ∧ u = t) := by
  by_cases h : (d.index graph).contains t = true
  · rw [eraseIds_of_contains h]
    generalize hrest : ((d.index graph).erase d.settings.pruneEmptyLevels t).2 = rest
    have hcontains : ∀ u, rest.contains u = true ↔ (d.index graph).contains u = true ∧ u ≠ t := by
      intro u
      rw [← hrest, GraphIndex.contains_erase]
    dsimp only
    split
    · rename_i hempty
      rw [Bool.and_eq_true, GraphIndex.isEmpty_iff] at hempty
      rw [index_of_erase rfl]
      split
      · rename_i hn
        subst hn
        rw [GraphIndex.contains_empty, ← hempty.2 u, hcontains]
        simp
      · simp_all
    · rw [index_of_insert rfl]
      split
      · rename_i hn
        subst hn
        rw [hcontains]
        simp
      · simp_all
  · rw [eraseIds_of_not_contains (eq_false_of_ne_true h)]
    refine ⟨fun hu => ⟨hu, ?_⟩, fun hu => hu.1⟩
    rintro ⟨rfl, rfl⟩
    exact h hu

theorem terms_eraseIds (d : Dataset) (graph : Nat) (t : Triple Nat) :
    (d.eraseIds graph t).2.terms = d.terms ∧ (d.eraseIds graph t).2.nextBlank = d.nextBlank := by
  by_cases h : (d.index graph).contains t = true
  · rw [eraseIds_of_contains h]
    exact ⟨rfl, rfl⟩
  · rw [eraseIds_of_not_contains (eq_false_of_ne_true h)]
    exact ⟨rfl, rfl⟩

/-- Taking numbers out of the index of a graph keeps the dataset consistent. -/
theorem Consistent.eraseIds {d : Dataset} (hd : d.Consistent) (graph : Nat) (t : Triple Nat) :
    (d.eraseIds graph t).2.Consistent := by
  by_cases h : (d.index graph).contains t = true
  · rw [eraseIds_of_contains h]
    dsimp only
    split
    · exact hd.dropIndex rfl rfl
    · refine hd.setIndex hd.sound (.refl _) rfl ((hd.coherent graph).erase _ t) ?_ fun u hu => ?_
      · obtain ⟨index, hget, -⟩ := contains_index_iff.1 h
        exact hd.graph_named hget
      · exact hd.named ((GraphIndex.contains_erase _ _ t u).1 hu).1
  · rw [eraseIds_of_not_contains (eq_false_of_ne_true h)]
    exact hd

/-- Taking out the numbers of a quad takes out the quad, and says whether it was there. -/
theorem Consistent.quads_eraseIds {d : Dataset} (hd : d.Consistent) {graph : Nat} {t : Triple Nat} {q : Quad}
    (hq : d.resolveQuad? graph t = some q) :
    (d.eraseIds graph t).2.quads = d.quads.erase q ∧ (d.eraseIds graph t).1 = decide (q ∈ d.quads) := by
  have hresolve : ∀ n u, (d.eraseIds graph t).2.resolveQuad? n u = d.resolveQuad? n u := by
    intro n u
    rw [resolveQuad?, (d.terms_eraseIds graph t).1]
    rfl
  constructor
  · ext q'
    rw [Finset.mem_erase, (hd.eraseIds graph t).mem_quads, hd.mem_quads]
    simp only [hresolve, contains_eraseIds]
    constructor
    · rintro ⟨n, u, ⟨hu, hne⟩, hq'⟩
      refine ⟨?_, n, u, hu, hq'⟩
      rintro rfl
      exact hne (Prod.mk.inj (hd.resolveQuad?_inj hq' hq))
    · rintro ⟨hne, n, u, hu, hq'⟩
      refine ⟨n, u, ⟨hu, ?_⟩, hq'⟩
      rintro ⟨rfl, rfl⟩
      exact hne (Option.some.inj (hq'.symm.trans hq))
  · rw [eraseIds_fst, Bool.eq_iff_iff, decide_eq_true_iff, hd.mem_quads_iff hq]

theorem terms_erase (d : Dataset) (q : Quad) : (d.erase q).2.terms = d.terms := by
  unfold Dataset.erase
  split
  · exact (d.terms_eraseIds _ _).1
  · rfl

/-- Taking out a quad that is not taken for another one keeps the dataset consistent, takes the quad away from the
others, and says whether it was there. -/
theorem Consistent.erase {d : Dataset} (hd : d.Consistent) {q : Quad} (hq : q.DistinguishedBy d.terms) :
    (d.erase q).2.Consistent ∧ (d.erase q).2.quads = d.quads.erase q ∧ (d.erase q).1 = decide (q ∈ d.quads) := by
  unfold Dataset.erase
  cases hids : d.quadIds? q with
  | none =>
    have hmissing : q ∉ d.quads := by
      intro h
      obtain ⟨graph, t, -, hq'⟩ := hd.mem_quads.1 h
      rw [(hd.quadIds?_eq_some_iff hq).2 hq'] at hids
      cases hids
    exact ⟨hd, (Finset.erase_eq_of_notMem hmissing).symm, by simp [hmissing]⟩
  | some ids =>
    have hresolve := (hd.quadIds?_eq_some_iff hq).1 hids
    exact ⟨hd.eraseIds ids.1 ids.2, hd.quads_eraseIds hresolve⟩

/-- Taking out a valid quad keeps the dataset valid and all numbers in place, takes the quad away from the others, and
says whether it was there. -/
theorem Valid.erase {d : Dataset} (hd : d.Valid) {q : Quad} (hq : q.IsValid) :
    (d.erase q).2.Valid ∧ (d.erase q).2.terms = d.terms ∧ (d.erase q).2.quads = d.quads.erase q ∧
      (d.erase q).1 = decide (q ∈ d.quads) := by
  obtain ⟨hconsistent, hquads⟩ := hd.toConsistent.erase (hd.distinguishedBy hq)
  exact ⟨hd.of_terms_eq hconsistent (d.terms_erase q), d.terms_erase q, hquads⟩

/-! ### Many quads -/

/-- Takes steps in order and counts those that change something. -/
def countSteps {α : Type} (step : Dataset → α → Bool × Dataset) : List α → Nat × Dataset → Nat × Dataset
  | [], r => r
  | x :: xs, (n, d) => countSteps step xs (if (step d x).1 then n + 1 else n, (step d x).2)

theorem countSteps_eq_foldl {α : Type} (step : Dataset → α → Bool × Dataset) (xs : List α) (r : Nat × Dataset) :
    countSteps step xs r = xs.foldl (fun (count, d) x =>
      let (changed, d) := step d x
      (if changed then count + 1 else count, d)) r := by
  induction xs generalizing r with
  | nil => rfl
  | cons x xs ih =>
    rw [List.foldl_cons, ← ih]
    rfl

/-! ### What changes keep -/

section Induction

variable {P : Dataset → Prop} {d : Dataset} (hd : P d)
include hd

/-- All steps together keep what each of them keeps. -/
theorem countSteps_induction {α : Type} {step : Dataset → α → Bool × Dataset} (hstep : ∀ d a, P d → P (step d a).2)
    (as : List α) (n : Nat) : P (countSteps step as (n, d)).2 := by
  induction as generalizing d n with
  | nil => exact hd
  | cons a as ih => exact ih (hstep d a hd) _

theorem insertMany_induction (hinsert : ∀ d q, P d → P (d.insert q).2) (quads : List Quad) :
    P (d.insertMany quads).2 := by
  rw [Dataset.insertMany, ← countSteps_eq_foldl]
  exact countSteps_induction hd hinsert quads 0

variable (herase : ∀ d graph t, P d → P (d.eraseIds graph t).2)
include herase

theorem erase_induction (q : Quad) : P (d.erase q).2 := by
  unfold Dataset.erase
  split
  · exact herase d _ _ hd
  · exact hd

theorem eraseMany_induction (quads : List Quad) : P (d.eraseMany quads).2 := by
  rw [Dataset.eraseMany, ← countSteps_eq_foldl]
  exact countSteps_induction hd (fun _ q hd => erase_induction hd herase q) quads 0

theorem eraseMatching_induction (pattern : Pattern) : P (d.eraseMatching pattern).2 := by
  unfold Dataset.eraseMatching
  split
  · exact hd
  · rename_i ids _
    have hsteps : P (countSteps (fun d x => d.eraseIds x.1 x.2) (d.matchingIds ids) (0, d)).2 :=
      countSteps_induction hd (fun d x hd => herase d x.1 x.2 hd) _ 0
    rwa [countSteps_eq_foldl] at hsteps

theorem extractLists_induction (options : ExtractOptions) : P (d.extractLists options).2 := by
  unfold Dataset.extractLists
  dsimp only
  split
  · exact hd
  · exact hd
  · dsimp only
    split
    · exact eraseMany_induction hd herase _
    · exact hd

end Induction

/-! ### What many changes come to -/

private theorem insertMany_from {d : Dataset} (hd : d.Valid) {qs : List Quad} (hqs : ∀ q ∈ qs, q.IsValid) (n : Nat) :
    (countSteps Dataset.insert qs (n, d)).2.Valid ∧
      d.terms.Extends (countSteps Dataset.insert qs (n, d)).2.terms ∧
      (countSteps Dataset.insert qs (n, d)).2.quads = d.quads ∪ qs.toFinset ∧
      (countSteps Dataset.insert qs (n, d)).1 + d.quads.card =
        n + (countSteps Dataset.insert qs (n, d)).2.quads.card := by
  induction qs generalizing d n with
  | nil => exact ⟨hd, .refl _, by simp [countSteps], rfl⟩
  | cons q qs ih =>
    obtain ⟨hvalid, hkeeps, hquads, hnew⟩ := hd.insert (hqs q List.mem_cons_self)
    have hstep : countSteps Dataset.insert (q :: qs) (n, d) =
        countSteps Dataset.insert qs (if q ∈ d.quads then n else n + 1, (d.insert q).2) := by
      rw [countSteps, hnew]
      simp only [decide_eq_true_eq, ite_not]
    obtain ⟨hvalid', hkeeps', hquads', hcount⟩ :=
      ih hvalid (fun q' hq' => hqs q' (List.mem_cons_of_mem q hq')) (if q ∈ d.quads then n else n + 1)
    rw [hstep]
    refine ⟨hvalid', hkeeps.trans hkeeps', ?_, ?_⟩
    · rw [hquads', hquads, List.toFinset_cons, Finset.union_insert, Finset.insert_union]
    · rw [hquads] at hcount
      by_cases hq : q ∈ d.quads
      · rw [if_pos hq, Finset.insert_eq_of_mem hq] at hcount
        rwa [if_pos hq]
      · rw [if_neg hq, Finset.card_insert_of_notMem hq] at hcount
        rw [if_neg hq]
        omega

/-- Adding quads keeps the dataset valid and all numbers in place, adds all of them, and counts those that were
missing. -/
theorem Valid.insertMany {d : Dataset} (hd : d.Valid) {qs : List Quad} (hqs : ∀ q ∈ qs, q.IsValid) :
    (d.insertMany qs).2.Valid ∧ d.terms.Extends (d.insertMany qs).2.terms ∧
      (d.insertMany qs).2.quads = d.quads ∪ qs.toFinset ∧ (d.insertMany qs).1 = (qs.toFinset \ d.quads).card := by
  obtain ⟨hvalid, hkeeps, hquads, hcount⟩ := insertMany_from hd hqs 0
  rw [Dataset.insertMany, ← countSteps_eq_foldl]
  refine ⟨hvalid, hkeeps, hquads, ?_⟩
  have hunion := Finset.card_sdiff_add_card qs.toFinset d.quads
  rw [hquads, Finset.union_comm] at hcount
  omega

/-- The quads of a dataset that is made from a list. -/
theorem quads_ofList {qs : List Quad} (hqs : ∀ q ∈ qs, q.IsValid) : (ofList qs).quads = qs.toFinset := by
  obtain ⟨-, -, h, -⟩ := (Valid.empty {}).insertMany hqs
  rw [Valid.quads_empty, Finset.empty_union] at h
  exact h

private theorem eraseMany_from {d : Dataset} (hd : d.Consistent) {qs : List Quad}
    (hqs : ∀ q ∈ qs, q.DistinguishedBy d.terms) (n : Nat) :
    (countSteps Dataset.erase qs (n, d)).2.Consistent ∧ (countSteps Dataset.erase qs (n, d)).2.terms = d.terms ∧
      (countSteps Dataset.erase qs (n, d)).2.quads = d.quads \ qs.toFinset ∧
      (countSteps Dataset.erase qs (n, d)).1 + (countSteps Dataset.erase qs (n, d)).2.quads.card =
        n + d.quads.card := by
  induction qs generalizing d n with
  | nil => exact ⟨hd, rfl, by simp [countSteps], rfl⟩
  | cons q qs ih =>
    obtain ⟨hconsistent, hquads, hthere⟩ := hd.erase (hqs q List.mem_cons_self)
    have hterms := d.terms_erase q
    have hstep : countSteps Dataset.erase (q :: qs) (n, d) =
        countSteps Dataset.erase qs (if q ∈ d.quads then n + 1 else n, (d.erase q).2) := by
      rw [countSteps, hthere]
      simp only [decide_eq_true_eq]
    have hqs' : ∀ q' ∈ qs, q'.DistinguishedBy (d.erase q).2.terms := by
      intro q' hq'
      rw [hterms]
      exact hqs q' (List.mem_cons_of_mem q hq')
    obtain ⟨hconsistent', hterms', hquads', hcount⟩ := ih hconsistent hqs' (if q ∈ d.quads then n + 1 else n)
    rw [hstep]
    refine ⟨hconsistent', hterms'.trans hterms, ?_, ?_⟩
    · rw [hquads', hquads, List.toFinset_cons, Finset.sdiff_insert, Finset.erase_sdiff_comm]
    · rw [hquads] at hcount
      by_cases hq : q ∈ d.quads
      · have hcard := Finset.card_erase_add_one hq
        rw [if_pos hq] at hcount ⊢
        omega
      · rw [if_neg hq, Finset.erase_eq_of_notMem hq] at hcount
        rwa [if_neg hq]

/-- Taking out quads that are not taken for others keeps the dataset consistent and all numbers in place, takes all of
them out, and counts those that were there. -/
theorem Consistent.eraseMany {d : Dataset} (hd : d.Consistent) {qs : List Quad}
    (hqs : ∀ q ∈ qs, q.DistinguishedBy d.terms) :
    (d.eraseMany qs).2.Consistent ∧ (d.eraseMany qs).2.terms = d.terms ∧
      (d.eraseMany qs).2.quads = d.quads \ qs.toFinset ∧ (d.eraseMany qs).1 = (d.quads ∩ qs.toFinset).card := by
  obtain ⟨hconsistent, hterms, hquads, hcount⟩ := eraseMany_from hd hqs 0
  rw [Dataset.eraseMany, ← countSteps_eq_foldl]
  refine ⟨hconsistent, hterms, hquads, ?_⟩
  have hsplit := Finset.card_sdiff_add_card_inter d.quads qs.toFinset
  rw [hquads] at hcount
  omega

/-- Taking out valid quads keeps the dataset valid and all numbers in place, takes all of them out, and counts those
that were there. -/
theorem Valid.eraseMany {d : Dataset} (hd : d.Valid) {qs : List Quad} (hqs : ∀ q ∈ qs, q.IsValid) :
    (d.eraseMany qs).2.Valid ∧ (d.eraseMany qs).2.terms = d.terms ∧
      (d.eraseMany qs).2.quads = d.quads \ qs.toFinset ∧ (d.eraseMany qs).1 = (d.quads ∩ qs.toFinset).card := by
  obtain ⟨hconsistent, hterms, hquads⟩ := hd.toConsistent.eraseMany fun q hq => hd.distinguishedBy (hqs q hq)
  exact ⟨hd.of_terms_eq hconsistent hterms, hterms, hquads⟩

/-- The quads of numbers that are taken out one after the other. -/
private theorem eraseIds_fold {d₀ : Dataset} {ids : List (Nat × Triple Nat)}
    (hids : ∀ x ∈ ids, ∃ q, d₀.resolveQuad? x.1 x.2 = some q) {d : Dataset} (hd : d.Consistent)
    (hterms : d.terms = d₀.terms) (n : Nat) :
    countSteps (fun d x => d.eraseIds x.1 x.2) ids (n, d) =
      countSteps Dataset.erase (ids.filterMap fun x => d₀.resolveQuad? x.1 x.2) (n, d) := by
  induction ids generalizing d n with
  | nil => rfl
  | cons x ids ih =>
    obtain ⟨q, hq⟩ := hids x List.mem_cons_self
    have herase : d.erase q = d.eraseIds x.1 x.2 := by
      have hq' : d.resolveQuad? x.1 x.2 = some q := by
        rw [resolveQuad?_eq_some] at hq ⊢
        rwa [hterms]
      unfold Dataset.erase
      rw [(hd.quadIds?_eq_some_iff (hd.distinguishedBy_of_resolveQuad? hq')).2 hq']
    have hterms' := (d.terms_eraseIds x.1 x.2).1
    have hfilter : (x :: ids).filterMap (fun x => d₀.resolveQuad? x.1 x.2) =
        q :: ids.filterMap fun x => d₀.resolveQuad? x.1 x.2 :=
      List.filterMap_cons_some hq
    rw [hfilter, countSteps, countSteps, herase]
    exact ih (fun y hy => hids y (List.mem_cons_of_mem x hy)) (hd.eraseIds x.1 x.2) (hterms'.trans hterms) _

/-- Taking out the quads of a pattern takes out the quads that a query for it finds. -/
theorem Consistent.eraseMatching_eq {d : Dataset} (hd : d.Consistent) (pattern : Pattern) :
    d.eraseMatching pattern = d.eraseMany (d.matching pattern) := by
  unfold Dataset.eraseMatching Dataset.matching
  cases d.lookUp pattern with
  | none => rfl
  | some ids =>
    have hnamed : ∀ x ∈ d.matchingIds ids, ∃ q, d.resolveQuad? x.1 x.2 = some q :=
      fun x hx => hd.named (hd.mem_matchingIds.1 hx).1
    have hfold := eraseIds_fold hnamed hd rfl 0
    rw [countSteps_eq_foldl, countSteps_eq_foldl] at hfold
    exact hfold

/-- Taking out the quads of a pattern keeps the dataset valid and all numbers in place, takes out the quads that agree
with the pattern, and counts them. -/
theorem Valid.eraseMatching {d : Dataset} (hd : d.Valid) {pattern : Pattern} (hpattern : pattern.IsValid) :
    (d.eraseMatching pattern).2.Valid ∧ (d.eraseMatching pattern).2.terms = d.terms ∧
      (d.eraseMatching pattern).2.quads = d.quads.filter (¬pattern.Matches ·) ∧
      (d.eraseMatching pattern).1 = (d.quads.filter (pattern.Matches ·)).card := by
  have hfound : (d.matching pattern).toFinset = d.quads.filter (pattern.Matches ·) := by
    ext q
    rw [List.mem_toFinset, hd.mem_matching hpattern, Finset.mem_filter]
  obtain ⟨hvalid, hterms, hquads, hcount⟩ :=
    hd.eraseMany fun q hq => hd.isValid_of_mem ((hd.mem_matching hpattern).1 hq).1
  rw [hd.toConsistent.eraseMatching_eq]
  refine ⟨hvalid, hterms, ?_, ?_⟩
  · rw [hquads, hfound, Finset.filter_not]
  · rw [hcount, hfound, Finset.inter_filter, Finset.inter_self]

/-! ### Documents -/

/-- A document that cannot be read changes nothing; otherwise all its quads are added. -/
theorem load_cases (d : Dataset) (format : Format) (text : String) (base : Option String) :
    (∃ e, format.read text base = .error e ∧ d.load format text base = (.error e, d)) ∨
      ∃ quads, format.read text base = .ok quads ∧
        d.load format text base = (.ok (d.insertMany quads).1, (d.insertMany quads).2) := by
  unfold Dataset.load
  cases format.read text base with
  | error e => exact .inl ⟨e, rfl, rfl⟩
  | ok quads => exact .inr ⟨quads, rfl, rfl⟩

/-- Without a format or a text a file changes nothing; otherwise it is loaded as a document. -/
theorem loadFile_cases (d : Dataset) (path : String) (text base : Option String) :
    (∃ e, (Format.ofPath? path = none ∨ text = none) ∧ d.loadFile path text base = (.error e, d)) ∨
      ∃ format document, Format.ofPath? path = some format ∧ text = some document ∧
        d.loadFile path text base = d.load format document base := by
  unfold Dataset.loadFile
  cases Format.ofPath? path with
  | none => exact .inl ⟨_, .inl rfl, rfl⟩
  | some format =>
    cases text with
    | none => exact .inl ⟨_, .inr rfl, rfl⟩
    | some document => exact .inr ⟨format, document, rfl, rfl, rfl⟩

/-! ### Blank nodes and sizes -/

/-- What a call for a new blank node does: the counter moves, and a node that is made gets a number. -/
theorem freshBlank_cases (d : Dataset) (suggestion : Option String) :
    ∃ next, (∃ e, d.freshBlank suggestion = (.error e, { d with nextBlank := next })) ∨
      ∃ label, checkBlank label = .ok () ∧ d.freshBlank suggestion =
        (.ok (.blank label), { d with terms := (d.terms.intern (.blank label)).2, nextBlank := next }) := by
  have hmint : ∀ next label, (∃ e, ({ d with nextBlank := next } : Dataset).mint label =
      (.error e, { d with nextBlank := next })) ∨ checkBlank label = .ok () ∧
        ({ d with nextBlank := next } : Dataset).mint label =
          (.ok (.blank label), { d with terms := (d.terms.intern (.blank label)).2, nextBlank := next }) := by
    intro next label
    unfold Dataset.mint Term.blank?
    cases checkBlank label with
    | error e => exact .inl ⟨e, rfl⟩
    | ok _ => exact .inr ⟨rfl, rfl⟩
  unfold Dataset.freshBlank
  dsimp only
  split
  · split
    · rename_i e _
      exact ⟨d.nextBlank, .inl ⟨e, rfl⟩⟩
    · exact ⟨d.nextBlank, (hmint d.nextBlank _).imp_right fun h => ⟨_, h⟩⟩
  · exact ⟨_, (hmint _ _).imp_right fun h => ⟨_, h⟩⟩

/-- A call for a new blank node keeps the dataset valid, all numbers in place and the quads as they are, whether it fails
or not. -/
theorem Valid.freshBlank {d : Dataset} (hd : d.Valid) (suggestion : Option String) :
    (d.freshBlank suggestion).2.Valid ∧ d.terms.Extends (d.freshBlank suggestion).2.terms ∧
      (d.freshBlank suggestion).2.quads = d.quads := by
  obtain ⟨next, ⟨e, h⟩ | ⟨label, hlabel, h⟩⟩ := d.freshBlank_cases suggestion
  · rw [h]
    have hvalid : Valid { d with nextBlank := next } := hd.extend hd.terms (.refl _) rfl
    exact ⟨hvalid, .refl _, hd.quads_extend hvalid.toConsistent (.refl _) rfl⟩
  · rw [h]
    have hnode : (Term.blank label).IsValid := Term.isValid_blank.2 hlabel
    have hkeeps := hd.terms.extends_intern hnode
    have hvalid : Valid { d with terms := (d.terms.intern (.blank label)).2, nextBlank := next } :=
      hd.extend (hd.terms.intern hnode) hkeeps rfl
    exact ⟨hvalid, hkeeps, hd.quads_extend hvalid.toConsistent hkeeps rfl⟩

/-- Counting blank nodes again changes nothing else. -/
theorem Valid.resetBlankCounter {d : Dataset} (hd : d.Valid) :
    d.resetBlankCounter.Valid ∧ d.resetBlankCounter.quads = d.quads := by
  have hvalid : d.resetBlankCounter.Valid := hd.extend hd.terms (.refl _) rfl
  exact ⟨hvalid, hd.quads_extend hvalid.toConsistent (.refl _) rfl⟩

/-- Asking for the size changes nothing but what is remembered of it. -/
theorem Valid.size {d : Dataset} (hd : d.Valid) : d.size.2.Valid ∧ d.size.2.quads = d.quads := by
  have hsame : d.size.2.terms = d.terms ∧ d.size.2.graphs = d.graphs := by
    unfold Dataset.size
    split <;> exact ⟨rfl, rfl⟩
  have hkeeps : d.terms.Extends d.size.2.terms := by
    rw [hsame.1]
    exact .refl _
  have hvalid : d.size.2.Valid := by
    refine hd.extend ?_ hkeeps hsame.2
    rw [hsame.1]
    exact hd.terms
  exact ⟨hvalid, hd.quads_extend hvalid.toConsistent hkeeps hsame.2⟩

end RdfDataset.Dataset
