import RdfDataset.Dataset.Collection
import RdfDataset.Proofs.Dataset.Change
import RdfDataset.Proofs.Reasoning.Engine
import RdfDataset.Proofs.Reasoning.Universe
import RdfDataset.Proofs.Rule.Constants
import RdfDataset.Reasoning.Basic

/-!
# Sound datasets

What holds of a dataset whatever is done with it, also with terms that are not valid: it is consistent, and the size
that is remembered is the number of its quads.

* `Dataset.quadNumbers`: the numbers of all quads; `Dataset.Sound` is the invariant.
* `Dataset.Evolves`: a dataset becomes another one, which is sound, has its settings and keeps all numbers.
* `Dataset.Sound.insert`, `Dataset.Sound.eraseIds`, `Dataset.Sound.reasonOver` and so on: one lemma for each operation.
* `Dataset.Sound.size_eq` and `Dataset.Sound.length_toList`: the size, the count and the list agree.
-/

namespace RdfDataset

variable [Arrangement]

/-- The index of a graph is coherent, and the graph and all numbers in the levels of the index name terms, also those
in levels that were emptied without pruning. -/
structure Interner.Carries (i : Interner) (graph : Nat) (g : GraphIndex) : Prop where
  coherent : g.Coherent
  graph_named : graph ∈ i.named
  keys : g.KeysIn i.named

namespace Interner.Carries

variable {i j : Interner} {graph : Nat} {g : GraphIndex}

theorem mono (hkeeps : i.Extends j) (h : i.Carries graph g) : j.Carries graph g :=
  ⟨h.coherent, hkeeps.named_subset h.graph_named, h.keys.mono hkeeps.named_subset⟩

theorem named (h : i.Carries graph g) : g.Over i.named :=
  fun _ ht => h.keys.mem_of_contains ht

theorem empty (hgraph : graph ∈ i.named) : i.Carries graph {} where
  coherent := GraphIndex.coherent_empty
  graph_named := hgraph
  keys := GraphIndex.keysIn_empty

theorem insert (h : i.Carries graph g) {t : Triple Nat} (ht : t.Over i.named) : i.Carries graph (g.insert t).2 where
  coherent := h.coherent.insert t
  graph_named := h.graph_named
  keys := h.keys.insert ht

theorem erase (h : i.Carries graph g) (prune : Bool) (t : Triple Nat) : i.Carries graph (g.erase prune t).2 where
  coherent := h.coherent.erase prune t
  graph_named := h.graph_named
  keys := h.keys.erase prune t

end Interner.Carries

namespace Dataset

/-- The numbers of all quads, with those of their graphs. -/
def quadNumbers (d : Dataset) : Finset (Nat × Triple Nat) :=
  (d.matchingIds ⟨⟨none, none, none⟩, none⟩).toFinset

/-- Numbers that are found or stored name terms, the trees of each graph agree, and the size that is remembered, if
any, is the number of quads. -/
structure Sound (d : Dataset) : Prop where
  terms : d.terms.Sound
  graphs : ∀ {graph : Nat} {index : GraphIndex}, d.graphs[graph]? = some index → d.terms.Carries graph index
  knownSize : ∀ n ∈ d.knownSize, n = d.quadNumbers.card

/-- A dataset becomes a sound one that has the same settings and keeps all numbers. -/
structure Evolves (d d' : Dataset) : Prop where
  sound : d'.Sound
  keeps : d.terms.Extends d'.terms
  settings : d'.settings = d.settings

theorem Evolves.trans {d d' d'' : Dataset} (h : d.Evolves d') (h' : d'.Evolves d'') : d.Evolves d'' :=
  ⟨h'.sound, h.keeps.trans h'.keeps, h'.settings.trans h.settings⟩

theorem Sound.refl {d : Dataset} (hd : d.Sound) : d.Evolves d :=
  ⟨hd, .refl _, rfl⟩

namespace Sound

variable {d d' : Dataset}

theorem empty (settings : Settings) : Sound { settings } where
  terms := Interner.sound_empty
  graphs := by simp
  knownSize := by
    rintro n ⟨⟩
    simp [quadNumbers, matchingIds, indices, entriesAt, Table.toList_empty]

theorem consistent (hd : d.Sound) : d.Consistent where
  sound := hd.terms
  coherent := by
    intro graph
    unfold Dataset.index
    cases hget : d.graphs[graph]? with
    | none => exact GraphIndex.coherent_empty
    | some index => exact (hd.graphs hget).coherent
  graph_named h := (hd.graphs h).graph_named
  named := by
    intro graph t ht
    obtain ⟨index, hget, ht⟩ := contains_index_iff.1 ht
    have hcarries := hd.graphs hget
    obtain ⟨g, hg⟩ := hcarries.graph_named
    obtain ⟨s, hs⟩ := hcarries.named t ht t.subject (by simp [Triple.toList])
    obtain ⟨p, hp⟩ := hcarries.named t ht t.predicate (by simp [Triple.toList])
    obtain ⟨o, ho⟩ := hcarries.named t ht t.object (by simp [Triple.toList])
    exact ⟨⟨s, p, o, g⟩, resolveQuad?_eq_some.2 ⟨hs, hp, ho, hg⟩⟩

/-! ### Counting -/

theorem mem_quadNumbers (hd : d.Sound) {graph : Nat} {t : Triple Nat} :
    (graph, t) ∈ d.quadNumbers ↔ (d.index graph).contains t = true := by
  rw [quadNumbers, List.mem_toFinset, mem_matchingIds_of_coherent fun _ _ h => (hd.graphs h).coherent]
  simp [Triple.Matches]

theorem card_quadNumbers (d : Dataset) :
    d.quadNumbers.card = (d.matchingIds ⟨⟨none, none, none⟩, none⟩).length :=
  List.toFinset_card_of_nodup (d.nodup_matchingIds _)

/-- Counting all graphs counts the quads. -/
theorem countQuads_eq (hd : d.Sound) : d.countQuads = d.quadNumbers.card := by
  have hsizes : d.graphs.toList.map (fun x => x.2.size) =
      d.graphs.toList.map fun x => x.2.count ⟨none, none, none⟩ := by
    refine List.map_congr_left fun x hx => ?_
    have hget : d.graphs[x.1]? = some x.2 := Table.mem_toList.1 hx
    rw [(hd.graphs hget).coherent.size_eq, GraphIndex.count_eq]
    rfl
  rw [card_quadNumbers, length_matchingIds]
  exact congrArg List.sum hsizes

/-- The size is the number of quads, whether or not it was known. -/
theorem size_eq (hd : d.Sound) : d.size.1 = d.quadNumbers.card := by
  unfold Dataset.size
  split
  · rename_i n hn
    exact hd.knownSize n hn
  · exact hd.countQuads_eq

theorem count_empty (d : Dataset) : d.count {} = d.quadNumbers.card := by
  rw [card_quadNumbers, length_matchingIds]
  rfl

/-- Each quad is listed, since its numbers name terms. -/
theorem length_toList (hd : d.Sound) : d.toList.length = d.quadNumbers.card := by
  have hall : ∀ x ∈ d.matchingIds ⟨⟨none, none, none⟩, none⟩, (d.resolveQuad? x.1 x.2).isSome = true := by
    rintro ⟨graph, t⟩ h
    obtain ⟨q, hq⟩ := hd.consistent.named (hd.mem_quadNumbers.1 (List.mem_toFinset.2 h))
    rw [hq, Option.isSome_some]
  rw [card_quadNumbers]
  exact List.filterMap_length_eq_length.2 hall

/-! ### One graph at a time -/

/-- A dataset evolves when terms get numbers and its graphs stay in order, if it forgets its size or keeps its
quads. -/
theorem evolve (hd : d.Sound) (hterms : d'.terms.Sound) (hkeeps : d.terms.Extends d'.terms)
    (hgraphs : ∀ {graph : Nat} {index : GraphIndex}, d'.graphs[graph]? = some index → d'.terms.Carries graph index)
    (hsize : d'.knownSize = none ∨
      d'.knownSize = d.knownSize ∧ ∀ graph t, (d'.index graph).contains t = (d.index graph).contains t)
    (hsettings : d'.settings = d.settings) : d.Evolves d' := by
  refine ⟨⟨hterms, hgraphs, fun n hn => ?_⟩, hkeeps, hsettings⟩
  rcases hsize with hnone | ⟨hsame, hcontains⟩
  · rw [hnone] at hn
    cases hn
  · have hnumbers : d'.quadNumbers = d.quadNumbers := by
      ext ⟨graph, t⟩
      rw [hd.mem_quadNumbers, ← hcontains, quadNumbers, List.mem_toFinset,
        mem_matchingIds_of_coherent fun _ _ h => (hgraphs h).coherent]
      simp [Triple.Matches]
    rw [hnumbers]
    exact hd.knownSize n (hsame ▸ hn)

/-- Terms get numbers and the graphs stay the same. -/
theorem extend (hd : d.Sound) (hterms : d'.terms.Sound) (hkeeps : d.terms.Extends d'.terms)
    (hgraphs : d'.graphs = d.graphs) (hsize : d'.knownSize = d.knownSize) (hsettings : d'.settings = d.settings) :
    d.Evolves d' := by
  refine hd.evolve hterms hkeeps (fun h => ?_) (.inr ⟨hsize, fun graph t => ?_⟩) hsettings
  · rw [hgraphs] at h
    exact (hd.graphs h).mono hkeeps
  · rw [index, hgraphs]
    rfl

theorem carries_index (hd : d.Sound) {terms : Interner} (hkeeps : d.terms.Extends terms) {graph : Nat}
    (hgraph : graph ∈ terms.named) : terms.Carries graph (d.index graph) := by
  unfold Dataset.index
  cases hget : d.graphs[graph]? with
  | none => exact .empty hgraph
  | some index => exact (hd.graphs hget).mono hkeeps

/-- The graphs stay in order when one of them gets a new index. -/
theorem carries_insert (hd : d.Sound) {terms : Interner} (hkeeps : d.terms.Extends terms) {graph : Nat}
    {index : GraphIndex} (hindex : terms.Carries graph index) {n : Nat} {other : GraphIndex}
    (h : (d.graphs.insert graph index)[n]? = some other) : terms.Carries n other := by
  rw [Table.getElem?_insert] at h
  split at h
  · rename_i heq
    subst heq
    rwa [← Option.some.inj h]
  · exact (hd.graphs h).mono hkeeps

/-! ### Changing quads -/

theorem insert (hd : d.Sound) (q : Quad) : d.Evolves (d.insert q).2 := by
  obtain ⟨v₁, k₁, n₁⟩ := hd.terms.intern q.graph
  obtain ⟨v₂, k₂, n₂⟩ := v₁.intern q.subject
  obtain ⟨v₃, k₃, n₃⟩ := v₂.intern q.predicate
  obtain ⟨v₄, k₄, n₄⟩ := v₃.intern q.object
  unfold Dataset.insert
  dsimp only
  generalize d.terms.intern q.graph = r₁ at *
  generalize r₁.2.intern q.subject = r₂ at *
  generalize r₂.2.intern q.predicate = r₃ at *
  generalize r₃.2.intern q.object = r₄ at *
  obtain ⟨graph, terms₁⟩ := r₁
  obtain ⟨s, terms₂⟩ := r₂
  obtain ⟨p, terms₃⟩ := r₃
  obtain ⟨o, terms₄⟩ := r₄
  dsimp only at *
  have hkeeps : d.terms.Extends terms₄ := ((k₁.trans k₂).trans k₃).trans k₄
  have hover : Triple.Over terms₄.named ⟨s, p, o⟩ := by
    simp only [Triple.Over, Triple.toList, List.forall_mem_cons]
    exact ⟨(k₃.trans k₄).named_subset n₂, k₄.named_subset n₃, n₄, by simp⟩
  have hgraph : graph ∈ terms₄.named := ((k₂.trans k₃).trans k₄).named_subset n₁
  have hcarries := (hd.carries_index hkeeps hgraph).insert hover
  refine hd.evolve v₄ hkeeps (hd.carries_insert hkeeps hcarries) ?_ rfl
  rw [GraphIndex.insert_fst]
  by_cases hnew : (d.index graph).contains ⟨s, p, o⟩ = true
  · refine .inr ⟨by simp [hnew], fun n t => ?_⟩
    rw [index_of_insert rfl, GraphIndex.insert_of_contains hnew]
    split
    · rename_i h
      rw [h]
    · rfl
  · exact .inl (by simp [hnew])

theorem eraseIds (hd : d.Sound) (graph : Nat) (t : Triple Nat) : d.Evolves (d.eraseIds graph t).2 := by
  by_cases h : (d.index graph).contains t = true
  · rw [eraseIds_of_contains h]
    refine hd.evolve hd.terms (.refl _) (fun {n other} hother => ?_) (.inl rfl) rfl
    dsimp only at hother
    split at hother
    · rw [Table.getElem?_erase] at hother
      split at hother
      · cases hother
      · exact hd.graphs hother
    · obtain ⟨index, hget, -⟩ := contains_index_iff.1 h
      have hcarries := hd.carries_index (.refl _) (hd.graphs hget).graph_named
      exact hd.carries_insert (.refl _) (hcarries.erase d.settings.pruneEmptyLevels t) hother
  · rw [eraseIds_of_not_contains (eq_false_of_ne_true h)]
    exact hd.refl

/-- What a dataset has evolved to evolves on when a quad is taken out. -/
private theorem evolves_eraseIds (d' : Dataset) (graph : Nat) (t : Triple Nat) (h : d.Evolves d') :
    d.Evolves (d'.eraseIds graph t).2 :=
  h.trans (h.sound.eraseIds graph t)

theorem erase (hd : d.Sound) (q : Quad) : d.Evolves (d.erase q).2 :=
  erase_induction hd.refl evolves_eraseIds q

theorem insertMany (hd : d.Sound) (quads : List Quad) : d.Evolves (d.insertMany quads).2 :=
  insertMany_induction hd.refl (fun _ q h => h.trans (h.sound.insert q)) quads

theorem eraseMany (hd : d.Sound) (quads : List Quad) : d.Evolves (d.eraseMany quads).2 :=
  eraseMany_induction hd.refl evolves_eraseIds quads

theorem eraseMatching (hd : d.Sound) (pattern : Pattern) : d.Evolves (d.eraseMatching pattern).2 :=
  eraseMatching_induction hd.refl evolves_eraseIds pattern

theorem extractLists (hd : d.Sound) (options : ExtractOptions) : d.Evolves (d.extractLists options).2 :=
  extractLists_induction hd.refl evolves_eraseIds options

/-! ### Blank nodes and sizes -/

theorem freshBlank (hd : d.Sound) (suggestion : Option String) : d.Evolves (d.freshBlank suggestion).2 := by
  obtain ⟨next, ⟨e, h⟩ | ⟨label, -, h⟩⟩ := d.freshBlank_cases suggestion
  · rw [h]
    exact hd.extend hd.terms (.refl _) rfl rfl rfl
  · rw [h]
    obtain ⟨hsound, hkeeps, -⟩ := hd.terms.intern (.blank label)
    exact hd.extend hsound hkeeps rfl rfl rfl

theorem resetBlankCounter (hd : d.Sound) : d.Evolves d.resetBlankCounter :=
  hd.extend hd.terms (.refl _) rfl rfl rfl

/-- Asking for the size may change what is remembered, to the number of quads. -/
theorem size (hd : d.Sound) : d.Evolves d.size.2 := by
  unfold Dataset.size
  split
  · exact hd.refl
  · refine ⟨⟨hd.terms, hd.graphs, ?_⟩, .refl _, rfl⟩
    rintro n ⟨⟩
    exact hd.countQuads_eq

/-! ### Reasoning -/

/-- What closing graphs of a dataset one after the other does: nothing else is changed, and as long as nothing is
derived neither are the graphs. -/
private structure Closes (d : Dataset) (r : ReasoningStats × Dataset) : Prop where
  terms : r.2.terms = d.terms
  settings : r.2.settings = d.settings
  knownSize : r.2.knownSize = d.knownSize
  graphs : ∀ {graph : Nat} {index : GraphIndex}, r.2.graphs[graph]? = some index → d.terms.Carries graph index
  unchanged : r.1.derived = 0 → ∀ graph t, (r.2.index graph).contains t = (d.index graph).contains t

variable {rules : List CompiledRule} (hrules : ∀ rule ∈ rules, rule.Over d.terms.named)
include hrules

private theorem Closes.closeGraph {r : ReasoningStats × Dataset} (h : Closes d r) (graph : Nat) :
    Closes d (r.2.closeGraph rules r.1 graph) := by
  cases hget : r.2.graphs[graph]? with
  | none =>
    rw [closeGraph_of_none rules r.1 hget]
    exact h
  | some index =>
    rw [closeGraph_of_some rules r.1 hget]
    have hcarries := h.graphs hget
    have hwithin := closeGraph_within hrules hcarries.coherent hcarries.named
    refine ⟨h.terms, h.settings, h.knownSize, fun {n other} hother => ?_, fun hderived n t => ?_⟩
    · rw [Table.getElem?_insert] at hother
      split at hother
      · rename_i heq
        subst heq
        rw [← Option.some.inj hother]
        exact ⟨hwithin.coherent, hcarries.graph_named, closeGraph_keysIn hrules hcarries.coherent hcarries.keys⟩
      · exact h.graphs hother
    · dsimp only at hderived
      have hindex : r.2.index graph = index := by rw [Dataset.index, hget, Option.getD_some]
      rw [index_of_insert rfl, ← h.unchanged (by omega), hwithin.unchanged (by omega)]
      split
      · rename_i heq
        rw [heq, hindex]
      · rfl

private theorem closes_foldl (graphs : List Nat) {r : ReasoningStats × Dataset} (h : Closes d r) :
    Closes d (graphs.foldl (fun (stats, d) graph => d.closeGraph rules stats graph) r) := by
  induction graphs generalizing r with
  | nil => exact h
  | cons graph graphs ih => exact ih (Closes.closeGraph hrules h graph)

theorem closeGraphs (hd : d.Sound) (graphs : List Nat) :
    d.Evolves (d.closeGraphs rules graphs).2 ∧ (d.closeGraphs rules graphs).2.terms = d.terms := by
  have hstart : Closes d ({ rules := rules.length }, d) :=
    ⟨rfl, rfl, rfl, hd.graphs, fun _ _ _ => rfl⟩
  have hcloses := closes_foldl hrules graphs hstart
  unfold Dataset.closeGraphs
  generalize graphs.foldl (fun (stats, d) graph => Dataset.closeGraph rules stats d graph)
    (({ rules := rules.length } : ReasoningStats), d) = r at hcloses
  obtain ⟨stats, d'⟩ := r
  obtain ⟨hterms, hsettings, hknown, hgraphs, hunchanged⟩ := hcloses
  dsimp only at *
  refine ⟨hd.evolve ?_ ?_ (fun h => ?_) ?_ hsettings, hterms⟩
  · rw [hterms]
    exact hd.terms
  · rw [hterms]
    exact .refl _
  · rw [hterms]
    exact hgraphs h
  · by_cases hderived : stats.derived > 0
    · exact .inl (if_pos hderived)
    · refine .inr ⟨(if_neg hderived).trans hknown, hunchanged (by omega)⟩

omit hrules in
/-- Reasoning lets a dataset evolve, whether the rules can be used or not, and gives numbers to the terms of the rules
only. -/
theorem reasonOver (hd : d.Sound) (rules : List Rule) (choose : Dataset → List Nat) :
    d.Evolves (d.reasonOver rules choose).2 ∧
      (d.reasonOver rules choose).2.terms = (compileRules rules d.terms).2 := by
  obtain ⟨hsound, hkeeps, hok⟩ := compileRules_over rules hd.terms
  have hterms : d.Evolves { d with terms := (compileRules rules d.terms).2 } := hd.extend hsound hkeeps rfl rfl rfl
  unfold Dataset.reasonOver
  dsimp only
  cases hcompiled : (compileRules rules d.terms).1 with
  | error e => exact ⟨hterms, rfl⟩
  | ok compiled =>
    obtain ⟨hcloses, hsame⟩ := closeGraphs (hok compiled hcompiled) hterms.sound
      (choose { d with terms := (compileRules rules d.terms).2 })
    exact ⟨hterms.trans hcloses, hsame⟩

end Sound

end Dataset

end RdfDataset
