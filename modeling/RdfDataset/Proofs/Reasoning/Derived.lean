import RdfDataset.Proofs.Dataset.Lockstep

/-!
# What is derived

A run of a reasoner counts what it derives: the quads by which the dataset has grown.

* `Dataset.Sound.card_quadNumbers_eq_sum`: quads are counted graph by graph.
* `Dataset.Sound.card_quads_reasonOver`: what is derived in a run over some graphs.
-/

namespace RdfDataset

namespace Dataset

variable [Arrangement] {d : Dataset}

/-- All quads together are as many as the triples of the graphs. -/
theorem Sound.card_quadNumbers_eq_sum (hd : d.Sound) {graphs : Finset Nat} (h : ∀ x ∈ d.quadNumbers, x.1 ∈ graphs) :
    d.quadNumbers.card = ∑ graph ∈ graphs, (d.index graph).triples.card := by
  rw [Finset.card_eq_sum_card_fiberwise h]
  refine Finset.sum_congr rfl fun graph _ => ?_
  have hfiber : d.quadNumbers.filter (·.1 = graph) = (d.index graph).triples.image (graph, ·) := by
    ext ⟨n, t⟩
    rw [Finset.mem_filter, Finset.mem_image, hd.mem_quadNumbers]
    constructor
    · rintro ⟨ht, rfl⟩
      exact ⟨t, (hd.consistent.coherent n).mem_triples.2 ht, rfl⟩
    · rintro ⟨u, hu, heq⟩
      obtain ⟨rfl, rfl⟩ := Prod.mk.inj heq
      exact ⟨(hd.consistent.coherent graph).mem_triples.1 hu, rfl⟩
  rw [hfiber, Finset.card_image_of_injective _ (Prod.mk_right_injective graph)]

/-- Numbers of quads stand for different quads. -/
theorem Sound.card_quads (hd : d.Sound) : d.quads.card = d.quadNumbers.card := by
  have hnodup : d.toList.Nodup := hd.consistent.nodup_matching {}
  rw [quads, List.toFinset_card_of_nodup hnodup, hd.length_toList]

/-- A dataset grows by what each of some graphs grows by. -/
theorem Sound.card_quadNumbers_of_grown {d' : Dataset} (hd : d.Sound) (hd' : d'.Sound) {graphs : List Nat}
    (hgraphs : graphs.Nodup) {grown : Nat → Nat}
    (h : ∀ n, (d'.index n).triples.card = (d.index n).triples.card + if n ∈ graphs then grown n else 0) :
    d'.quadNumbers.card = d.quadNumbers.card + (graphs.map grown).sum := by
  -- all graphs that matter: those that have quads, before or after, and those that may have grown
  let all : Finset Nat := (d.quadNumbers ∪ d'.quadNumbers).image Prod.fst ∪ graphs.toFinset
  have hbefore : ∀ x ∈ d.quadNumbers, x.1 ∈ all := fun x hx =>
    Finset.mem_union_left _ (Finset.mem_image_of_mem _ (Finset.mem_union_left _ hx))
  have hafter : ∀ x ∈ d'.quadNumbers, x.1 ∈ all := fun x hx =>
    Finset.mem_union_left _ (Finset.mem_image_of_mem _ (Finset.mem_union_right _ hx))
  have hgrown : (∑ n ∈ all, if n ∈ graphs then grown n else 0) = (graphs.map grown).sum := by
    have hfilter : all.filter (· ∈ graphs) = graphs.toFinset := by
      ext n
      rw [Finset.mem_filter, List.mem_toFinset]
      exact ⟨And.right, fun hn => ⟨Finset.mem_union_right _ (List.mem_toFinset.2 hn), hn⟩⟩
    rw [← Finset.sum_filter, hfilter, List.sum_toFinset _ hgraphs]
  rw [hd'.card_quadNumbers_eq_sum hafter, hd.card_quadNumbers_eq_sum hbefore, ← hgrown, ← Finset.sum_add_distrib]
  exact Finset.sum_congr rfl fun n _ => h n

/-- Reasoning derives the quads by which the dataset grows. -/
theorem Sound.card_quads_reasonOver (hd : d.Sound) {rules : List Rule} {choose : Dataset → List Nat}
    (hchoose : ∀ d, (choose d).Nodup) {stats : ReasoningStats} (h : (d.reasonOver rules choose).1 = .ok stats) :
    (d.reasonOver rules choose).2.quads.card = d.quads.card + stats.derived := by
  have hd' := (hd.reasonOver rules choose).1.sound
  have hrun := d.reasonOver_eq rules choose
  cases hcompiled : (compileRules rules d.terms).1 with
  | error e =>
    rw [hrun, hcompiled] at h
    cases h
  | ok compiled =>
    let numbered : Dataset := { d with terms := (compileRules rules d.terms).2 }
    have hgraphs := hchoose numbered
    obtain ⟨-, hderived, hindex⟩ :=
      closeGraphs_spec (premise_ne_nil_of_compileRules hd.terms hcompiled) numbered hgraphs
    have hresult : d.reasonOver rules choose = (.ok (numbered.closeGraphs compiled (choose numbered)).1,
        (numbered.closeGraphs compiled (choose numbered)).2) := by
      rw [hrun, hcompiled]
    rw [hresult] at h hd' ⊢
    obtain rfl := Except.ok.inj h
    have hclosed : ∀ n, ((numbered.closeGraphs compiled (choose numbered)).2.index n).triples.card =
        (d.index n).triples.card +
          if n ∈ choose numbered then (RdfDataset.closeGraph compiled (d.index n)).derived else 0 := by
      intro n
      rw [hindex]
      split
      · exact closeGraph_derived hcompiled (hd.consistent.coherent n)
      · rfl
    rw [hd'.card_quads, hd.card_quads, hd.card_quadNumbers_of_grown hd' hgraphs hclosed, hderived]
    rfl

end Dataset

end RdfDataset
