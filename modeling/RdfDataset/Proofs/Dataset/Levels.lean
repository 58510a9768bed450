import RdfDataset.Proofs.Dataset.Call
import RdfDataset.Proofs.GraphIndex.Levels

/-!
# Pruned datasets

A dataset that prunes keeps no graph without triples and no empty level in the trees of a graph, however additions,
removals, extractions of lists and runs of a reasoner follow each other.  So what it keeps shows what its quads have.

* `Dataset.Pruned` is the invariant; `Dataset.Pruned.insert`, `Dataset.Pruned.eraseIds` and so on are one lemma for each
  operation, and `Call.pruned` says the same of any call.
* `Dataset.Pruned.mem_graphs_iff_exists_quad` and `Dataset.Pruned.card_graphs`: the graphs that are kept are those of the
  quads; `Dataset.graphs_reason`: a run of a reasoner counts them.
* `Dataset.pruned_calls`: after any calls no level is empty.
-/

namespace RdfDataset

variable [Arrangement]

namespace Dataset

/-- A dataset prunes, none of its graphs is empty, and no tree of a graph has an empty level. -/
structure Pruned (d : Dataset) : Prop where
  prunes : d.settings.pruneEmptyLevels = true
  graphs : ∀ (graph : Nat) (index : GraphIndex), d.graphs[graph]? = some index → index.isEmpty = false ∧ index.Pruned

namespace Pruned

variable {d d' : Dataset} (hd : d.Pruned)
include hd

theorem of_graphs (hsettings : d'.settings = d.settings) (hgraphs : d'.graphs = d.graphs) : d'.Pruned where
  prunes := hsettings ▸ hd.prunes
  graphs := hgraphs ▸ hd.graphs

/-- A graph gets an index without empty levels. -/
theorem insert_index (hsettings : d'.settings = d.settings) {graph : Nat} {index : GraphIndex}
    (hgraphs : d'.graphs = d.graphs.insert graph index) (hsome : index.isEmpty = false) (hindex : index.Pruned) :
    d'.Pruned where
  prunes := hsettings ▸ hd.prunes
  graphs := by
    rw [hgraphs]
    exact forall_getElem?_insert (P := fun _ (index : GraphIndex) => index.isEmpty = false ∧ index.Pruned) hd.graphs
      ⟨hsome, hindex⟩

theorem index (graph : Nat) : (d.index graph).Pruned := by
  unfold Dataset.index
  cases hget : d.graphs[graph]? with
  | none => exact GraphIndex.pruned_empty
  | some index => exact (hd.graphs graph index hget).2

/-! ### One quad -/

theorem insert (q : Quad) : (d.insert q).2.Pruned := by
  unfold Dataset.insert
  dsimp only
  exact hd.insert_index rfl rfl (GraphIndex.isEmpty_insert _ _) ((hd.index _).insert _)

theorem eraseIds (graph : Nat) (t : Triple Nat) : (d.eraseIds graph t).2.Pruned := by
  by_cases h : (d.index graph).contains t = true
  · have hrest := (hd.index graph).erase t
    rw [eraseIds_of_contains h, hd.prunes, Bool.true_and]
    dsimp only
    split
    · exact ⟨hd.prunes, forall_getElem?_erase
        (P := fun _ (index : GraphIndex) => index.isEmpty = false ∧ index.Pruned) hd.graphs graph⟩
    · rename_i hsome
      exact hd.insert_index rfl rfl (eq_false_of_ne_true hsome) hrest
  · rwa [eraseIds_of_not_contains (eq_false_of_ne_true h)]

theorem erase (q : Quad) : (d.erase q).2.Pruned :=
  erase_induction hd (fun _ graph t hd => hd.eraseIds graph t) q

/-! ### Many quads -/

theorem insertMany (quads : List Quad) : (d.insertMany quads).2.Pruned :=
  insertMany_induction hd (fun _ q hd => hd.insert q) quads

theorem eraseMany (quads : List Quad) : (d.eraseMany quads).2.Pruned :=
  eraseMany_induction hd (fun _ graph t hd => hd.eraseIds graph t) quads

theorem eraseMatching (pattern : Pattern) : (d.eraseMatching pattern).2.Pruned :=
  eraseMatching_induction hd (fun _ graph t hd => hd.eraseIds graph t) pattern

theorem extractLists (options : ExtractOptions) : (d.extractLists options).2.Pruned :=
  extractLists_induction hd (fun _ graph t hd => hd.eraseIds graph t) options

/-! ### Calls -/

theorem freshBlank (suggestion : Option String) : (d.freshBlank suggestion).2.Pruned := by
  obtain ⟨next, ⟨e, h⟩ | ⟨label, -, h⟩⟩ := d.freshBlank_cases suggestion
  · rw [h]
    exact hd.of_graphs rfl rfl
  · rw [h]
    exact hd.of_graphs rfl rfl

theorem size : d.size.2.Pruned := by
  unfold Dataset.size
  split
  · exact hd
  · exact hd.of_graphs rfl rfl

theorem update (u : Update) : (u.run d).2.Pruned := by
  cases u <;> dsimp only [Update.run]
  case insert q => exact hd.insert q
  case insertMany quads => exact hd.insertMany quads
  case extend quads => exact hd.insertMany quads
  case erase q => exact hd.erase q
  case eraseMany quads => exact hd.eraseMany quads
  case eraseMatching pattern => exact hd.eraseMatching pattern
  case eraseGraph graph => exact hd.eraseMatching _
  case freshBlank suggestion => exact hd.freshBlank suggestion
  case resetBlankCounter => exact hd.of_graphs rfl rfl

theorem load (format : Format) (text : String) (base : Option String) : (d.load format text base).2.Pruned := by
  obtain ⟨e, -, h⟩ | ⟨quads, -, h⟩ := d.load_cases format text base
  · rw [h]
    exact hd
  · rw [h]
    exact hd.insertMany quads

theorem loadFile (path : String) (text base : Option String) : (d.loadFile path text base).2.Pruned := by
  obtain ⟨e, -, h⟩ | ⟨format, document, -, -, h⟩ := d.loadFile_cases path text base
  · rw [h]
    exact hd
  · rw [h]
    exact hd.load format document base

/-! ### Reasoning -/

theorem closeGraph (rules : List CompiledRule) (stats : ReasoningStats) (graph : Nat) :
    (d.closeGraph rules stats graph).2.Pruned := by
  cases hget : d.graphs[graph]? with
  | none => rwa [closeGraph_of_none rules stats hget]
  | some index =>
    rw [closeGraph_of_some rules stats hget]
    have hclosed := closeGraph_induction (P := fun g => g.isEmpty = false ∧ g.Pruned)
      (fun g t hg => ⟨g.isEmpty_insert t, hg.2.insert t⟩) rules (hd.graphs graph index hget)
    exact hd.insert_index rfl rfl hclosed.1 hclosed.2

theorem closeGraphs (rules : List CompiledRule) (graphs : List Nat) : (d.closeGraphs rules graphs).2.Pruned := by
  have hclosed := List.foldlRecOn graphs (fun r graph => r.2.closeGraph rules r.1 graph)
    (motive := fun r => r.2.Pruned) (b := ({ rules := rules.length }, d)) hd
    fun r hr graph _ => hr.closeGraph rules r.1 graph
  exact hclosed.of_graphs rfl rfl

theorem reasonOver (rules : List Rule) (choose : Dataset → List Nat) : (d.reasonOver rules choose).2.Pruned := by
  have hterms : Pruned { d with terms := (compileRules rules d.terms).2 } := hd.of_graphs rfl rfl
  unfold Dataset.reasonOver
  dsimp only
  split
  · exact hterms
  · exact hterms.closeGraphs _ _

/-! ### Keys of the table of graphs -/

/-- The graphs that are kept are those that have triples. -/
theorem mem_graphs_iff {graph : Nat} : graph ∈ d.graphs ↔ ∃ t, (d.index graph).contains t = true := by
  simp only [contains_index_iff]
  rw [Table.mem_iff_exists]
  constructor
  · rintro ⟨index, hget⟩
    have hsome := (hd.graphs graph index hget).1
    rw [← Bool.not_eq_true, GraphIndex.isEmpty_iff] at hsome
    push Not at hsome
    obtain ⟨t, ht⟩ := hsome
    exact ⟨t, index, hget, by simpa using ht⟩
  · rintro ⟨t, index, hget, -⟩
    exact ⟨index, hget⟩

/-- They are the graphs of the quads. -/
theorem mem_graphs_iff_exists_quad (hconsistent : d.Consistent) {graph : Nat} :
    graph ∈ d.graphs ↔ ∃ q ∈ d.quads, d.terms.resolve? graph = some q.graph := by
  rw [hd.mem_graphs_iff]
  constructor
  · rintro ⟨t, ht⟩
    obtain ⟨q, hq⟩ := hconsistent.named ht
    exact ⟨q, hconsistent.mem_quads.2 ⟨graph, t, ht, hq⟩, (resolveQuad?_eq_some.1 hq).2.2.2⟩
  · rintro ⟨q, hq, hgraph⟩
    obtain ⟨graph', t, ht, hq⟩ := hconsistent.mem_quads.1 hq
    have hsame := hconsistent.sound.resolve?_inj hgraph (resolveQuad?_eq_some.1 hq).2.2.2
    exact ⟨t, hsame ▸ ht⟩

/-- There are as many of them as the quads have graphs. -/
theorem card_graphs (hconsistent : d.Consistent) : (d.quads.image Quad.graph).card = d.graphs.keys.length := by
  have hmem : ∀ graph, graph ∈ d.graphs.keys ↔ ∃ q ∈ d.quads, d.terms.resolve? graph = some q.graph := by
    intro graph
    rw [Table.mem_keys, hd.mem_graphs_iff_exists_quad hconsistent]
  have himage : d.quads.image Quad.graph = (d.graphs.keys.filterMap d.terms.resolve?).toFinset := by
    ext t
    simp only [Finset.mem_image, List.mem_toFinset, List.mem_filterMap, hmem]
    constructor
    · rintro ⟨q, hq, rfl⟩
      obtain ⟨graph, _, -, hresolve⟩ := hconsistent.mem_quads.1 hq
      have hgraph := (resolveQuad?_eq_some.1 hresolve).2.2.2
      exact ⟨graph, ⟨q, hq, hgraph⟩, hgraph⟩
    · rintro ⟨graph, ⟨q, hq, hgraph⟩, ht⟩
      exact ⟨q, hq, Option.some.inj (hgraph.symm.trans ht)⟩
  rw [himage, List.toFinset_card_of_nodup (hconsistent.nodup_filterMap_resolve? d.graphs.nodup_keys)]
  refine List.filterMap_length_eq_length.2 fun graph hgraph => ?_
  obtain ⟨q, -, hresolve⟩ := (hmem graph).1 hgraph
  rw [hresolve, Option.isSome_some]

end Pruned

end Dataset

/-- Every call keeps a dataset pruned. -/
theorem Call.pruned {d : Dataset} (hd : d.Pruned) (c : Call) : (c.run d).Pruned := by
  cases c with
  | update u => exact hd.update u
  | size => exact hd.size
  | isEmpty => exact hd.size
  | extractLists options => exact hd.extractLists options
  | load format text base => exact hd.load format text base
  | loadFile path text base => exact hd.loadFile path text base
  | reason rules => exact hd.reasonOver rules _
  | reasonIn rules graph => exact hd.reasonOver rules _
  | reasonRdfs rules => exact hd.reasonOver _ _

namespace Dataset

/-- So do any calls one after the other. -/
theorem Pruned.calls {d : Dataset} (hd : d.Pruned) (calls : List Call) : (calls.foldl Call.run d).Pruned := by
  induction calls generalizing d with
  | nil => exact hd
  | cons c calls ih => exact ih (c.pruned hd)

theorem pruned_empty {settings : Settings} (h : settings.pruneEmptyLevels = true) : Pruned { settings } where
  prunes := h
  graphs := by simp

/-! ### Counting graphs -/

/-- Closing a graph that a dataset has counts it, and the dataset has the same graphs after it. -/
theorem graphs_closeGraph (rules : List CompiledRule) {d : Dataset} (stats : ReasoningStats) {graph : Nat}
    (h : graph ∈ d.graphs) :
    (d.closeGraph rules stats graph).1.graphs = stats.graphs + 1 ∧
      ∀ n, n ∈ (d.closeGraph rules stats graph).2.graphs ↔ n ∈ d.graphs := by
  obtain ⟨index, hget⟩ := Table.mem_iff_exists.1 h
  rw [closeGraph_of_some rules stats hget]
  refine ⟨rfl, fun n => ?_⟩
  -- the graph that gets a new index was there before
  rw [Table.mem_insert]
  refine ⟨?_, .inr⟩
  rintro (rfl | hn)
  · exact h
  · exact hn

/-- So does closing several of them. -/
theorem graphs_closeGraphs (rules : List CompiledRule) {d : Dataset} {graphs : List Nat}
    (h : ∀ graph ∈ graphs, graph ∈ d.graphs) :
    (d.closeGraphs rules graphs).1.graphs = graphs.length ∧
      ∀ graph, graph ∈ (d.closeGraphs rules graphs).2.graphs ↔ graph ∈ d.graphs := by
  have hfold : ∀ (graphs : List Nat) (r : ReasoningStats × Dataset), (∀ graph ∈ graphs, graph ∈ r.2.graphs) →
      let r' := graphs.foldl (fun r graph => r.2.closeGraph rules r.1 graph) r
      r'.1.graphs = r.1.graphs + graphs.length ∧ ∀ graph, graph ∈ r'.2.graphs ↔ graph ∈ r.2.graphs := by
    intro graphs
    induction graphs with
    | nil => exact fun r _ => ⟨rfl, fun _ => Iff.rfl⟩
    | cons graph graphs ih =>
      intro r hr
      obtain ⟨hgraph, hgraphs⟩ := List.forall_mem_cons.1 hr
      obtain ⟨hone, hkept⟩ := graphs_closeGraph rules r.1 hgraph
      obtain ⟨hcount, hsame⟩ := ih _ fun n hn => (hkept n).2 (hgraphs n hn)
      refine ⟨?_, fun n => (hsame n).trans (hkept n)⟩
      rw [List.foldl_cons, List.length_cons]
      exact hcount.trans (by rw [hone]; omega)
  obtain ⟨hcount, hsame⟩ := hfold graphs ({ rules := rules.length }, d) h
  exact ⟨hcount.trans (Nat.zero_add _), hsame⟩

/-- A run of a reasoner counts the graphs that are kept, and keeps them. -/
theorem graphs_reason {d d' : Dataset} {rules : List Rule} {stats : ReasoningStats}
    (h : d.reason rules = (.ok stats, d')) :
    stats.graphs = d.graphs.keys.length ∧ d'.graphs.keys.length = d.graphs.keys.length := by
  unfold reason reasonOver at h
  dsimp only at h
  split at h
  · cases h
  · obtain ⟨hstats, rfl⟩ := Prod.mk.inj h
    obtain rfl := Except.ok.inj hstats
    obtain ⟨hcount, hsame⟩ := graphs_closeGraphs _ (d := { d with terms := (compileRules rules d.terms).2 })
      fun graph hgraph => Table.mem_keys.1 hgraph
    refine ⟨hcount, List.Perm.length_eq ?_⟩
    refine (List.perm_ext_iff_of_nodup (Table.nodup_keys _) (Table.nodup_keys _)).2 fun graph => ?_
    rw [Table.mem_keys, Table.mem_keys]
    exact hsame graph

/-- Let a dataset prune, and let any calls be made, whether they succeed or fail.  Then no graph that it keeps is empty,
nor is any branch or leaf of the trees of a graph.  The graphs that it keeps are those of its quads, the keys of a tree
are the numbers, and the pairs of numbers, that its quads have in these positions, and a run of a reasoner over all graphs
counts the graphs of the quads. -/
theorem pruned_calls (settings : Settings) (calls : List Call) :
    let d := calls.foldl Call.run { settings := { settings with pruneEmptyLevels := true } }
    (∀ (graph : Nat) (index : GraphIndex), d.graphs[graph]? = some index → index.isEmpty = false ∧
      ∀ order : IndexOrder,
        (∀ (a : Nat) (branch : Branch), (index.tree order)[a]? = some branch → branch.isEmpty = false ∧
          ∀ (b : Nat) (leaf : Leaf), branch[b]? = some leaf → leaf.isEmpty = false) ∧
        (∀ a, a ∈ index.tree order ↔ ∃ b c, (graph, order.triple a b c) ∈ d.quadNumbers) ∧
        ∀ a b, b ∈ (index.tree order).branch a ↔ ∃ c, (graph, order.triple a b c) ∈ d.quadNumbers) ∧
    (∀ graph, graph ∈ d.graphs ↔ ∃ q ∈ d.quads, d.terms.resolve? graph = some q.graph) ∧
    ∀ (rules : List Rule) (stats : ReasoningStats) (d' : Dataset), d.reason rules = (.ok stats, d') →
      stats.graphs = (d.quads.image Quad.graph).card ∧ stats.graphs = (d'.quads.image Quad.graph).card := by
  intro d
  have hsound : d.Sound := sound_calls _ calls
  have hpruned : d.Pruned := (pruned_empty rfl).calls calls
  refine ⟨fun graph index hget => ?_, fun graph => hpruned.mem_graphs_iff_exists_quad hsound.consistent,
    fun rules stats d' h => ?_⟩
  · obtain ⟨hsome, hindex⟩ := hpruned.graphs graph index hget
    have hcoherent := (hsound.graphs hget).coherent
    have hnumbers : ∀ t, (graph, t) ∈ d.quadNumbers ↔ index.contains t = true := by
      intro t
      rw [hsound.mem_quadNumbers, Dataset.index, hget, Option.getD_some]
    refine ⟨hsome, fun order => ⟨hindex order, fun a => ?_, fun a b => ?_⟩⟩
    · simp only [hindex.mem_tree_iff hcoherent, hnumbers]
    · simp only [hindex.mem_branch_iff hcoherent, hnumbers]
  · have hcall : d' = (Call.reason rules).run d := (congrArg Prod.snd h).symm
    have hsound' : d'.Sound := hcall ▸ ((Call.reason rules).evolves hsound).sound
    have hpruned' : d'.Pruned := hcall ▸ (Call.reason rules).pruned hpruned
    obtain ⟨hcount, hsame⟩ := graphs_reason h
    rw [hpruned.card_graphs hsound.consistent, hpruned'.card_graphs hsound'.consistent, hsame]
    exact ⟨hcount, hcount⟩

end Dataset

end RdfDataset
