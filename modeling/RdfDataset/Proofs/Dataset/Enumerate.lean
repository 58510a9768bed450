import RdfDataset.Proofs.Dataset.Quads
import RdfDataset.Proofs.GraphIndex.Enumerate

/-!
# What stands in one position of the quads

The subjects, predicates, objects and graphs of the quads of a pattern are listed without listing the quads.  They are
those of the quads that a query finds, each once, also when they occur in more than one graph.

* `Dataset.Consistent.enumerates`: what an enumeration of each index gives for the whole dataset.
* `Dataset.Consistent.enumerates_subjects`, `Dataset.Consistent.enumerates_graphNames` and so on: the enumerations of a
  dataset are the projections of its queries, which together is `Dataset.EnumeratesPositions`.
* `Dataset.Consistent.mem_subjects`: without a pattern, the subjects are those of all quads.
-/

namespace RdfDataset.Dataset

theorem nodup_eraseDups {α : Type} [BEq α] [LawfulBEq α] : ∀ xs : List α, xs.eraseDups.Nodup
  | [] => by simp
  | x :: xs => by
    rw [List.eraseDups_cons, List.nodup_cons]
    constructor
    · simp
    · exact nodup_eraseDups (xs.filter fun y => !y == x)
termination_by xs => xs.length
decreasing_by
  exact Nat.lt_succ_of_le (List.length_filter_le _ _)

variable [Arrangement]

/-- The names of graphs depend on their numbers alone. -/
theorem filterMap_resolve?_fst (d : Dataset) (graphs : List (Nat × GraphIndex)) :
    graphs.filterMap (fun (graph, _) => d.terms.resolve? graph) = (graphs.map (·.1)).filterMap d.terms.resolve? := by
  rw [List.filterMap_map]
  rfl

variable {d : Dataset} (hd : d.Consistent)
include hd

/-- A term is listed once for its number. -/
theorem Consistent.nodup_filterMap_resolve? {ids : List Nat} (h : ids.Nodup) :
    (ids.filterMap d.terms.resolve?).Nodup :=
  h.filterMap fun _ _ _ hm hn => hd.sound.resolve?_inj hm hn

/-- What stands in a position of the quads of a pattern, if each index gives the numbers in this position of the triples
of the pattern. -/
theorem Consistent.enumerates {pattern : Pattern} {pick : GraphIndex → Triple (Option Nat) → List Nat}
    {position : Triple Nat → Nat} {part : Quad → Term}
    (hpick : ∀ ids, d.lookUp pattern = some ids → ∀ index : GraphIndex, index.Coherent → ∀ n,
      n ∈ pick index ids.triple ↔ n ∈ (index.matching ids.triple).map position)
    (hpart : ∀ graph t q, d.resolveQuad? graph t = some q → d.terms.resolve? (position t) = some (part q)) :
    Enumerates (d.enumerate pattern pick) ((d.matching pattern).map part) := by
  unfold Dataset.enumerate Dataset.matching
  cases hids : d.lookUp pattern with
  | none => exact ⟨List.nodup_nil, fun t => by simp⟩
  | some ids =>
    refine ⟨hd.nodup_filterMap_resolve? (nodup_eraseDups _), fun t => ?_⟩
    simp only [mem_distinctTerms, matchingIds, List.mem_flatMap, List.mem_map, List.mem_filterMap, Prod.exists,
      Prod.mk.injEq]
    constructor
    · rintro ⟨n, ⟨graph, index, hindex, hn⟩, ht⟩
      have hget := (mem_entriesAt.1 hindex).1
      have hcoherent := hd.coherent_of_getElem? hget
      obtain ⟨triple, htriple, rfl⟩ := List.mem_map.1 ((hpick ids hids index hcoherent n).1 hn)
      -- the triple is one of a quad, since its numbers name terms
      have hcontains := contains_index_iff.2 ⟨index, hget, (hcoherent.mem_matching.1 htriple).1⟩
      obtain ⟨q, hq⟩ := hd.named hcontains
      have hpart := (hpart graph triple q hq).symm.trans ht
      exact ⟨q, ⟨graph, triple, ⟨graph, index, hindex, triple, htriple, rfl, rfl⟩, hq⟩, Option.some.inj hpart⟩
    · rintro ⟨q, ⟨graph, triple, ⟨_, index, hindex, _, htriple, rfl, rfl⟩, hq⟩, rfl⟩
      have hcoherent := hd.coherent_of_getElem? (mem_entriesAt.1 hindex).1
      have hn := (hpick ids hids index hcoherent _).2 (List.mem_map_of_mem htriple)
      exact ⟨_, ⟨_, index, hindex, hn⟩, hpart _ _ _ hq⟩

/-- The subjects of the quads of a pattern are listed. -/
theorem Consistent.enumerates_subjects (pattern : Pattern) :
    Enumerates (d.subjects pattern) ((d.matching { pattern with subject := none }).map Quad.subject) := by
  refine hd.enumerates (fun ids hids index hindex => ?_) fun _ _ _ hq => (resolveQuad?_eq_some.1 hq).1
  obtain ⟨⟨s, p, o⟩, g⟩ := ids
  obtain rfl : none = s := Option.some.inj (lookUp_eq_some.1 hids).1
  exact (hindex.enumerates_subjects p o).mem_iff

/-- The predicates of the quads of a pattern are listed. -/
theorem Consistent.enumerates_predicates (pattern : Pattern) :
    Enumerates (d.predicates pattern) ((d.matching { pattern with predicate := none }).map Quad.predicate) := by
  refine hd.enumerates (fun ids hids index hindex => ?_) fun _ _ _ hq => (resolveQuad?_eq_some.1 hq).2.1
  obtain ⟨⟨s, p, o⟩, g⟩ := ids
  obtain rfl : none = p := Option.some.inj (lookUp_eq_some.1 hids).2.1
  exact (hindex.enumerates_predicates s o).mem_iff

/-- The objects of the quads of a pattern are listed. -/
theorem Consistent.enumerates_objects (pattern : Pattern) :
    Enumerates (d.objects pattern) ((d.matching { pattern with object := none }).map Quad.object) := by
  refine hd.enumerates (fun ids hids index hindex => ?_) fun _ _ _ hq => (resolveQuad?_eq_some.1 hq).2.2.1
  obtain ⟨⟨s, p, o⟩, g⟩ := ids
  obtain rfl : none = o := Option.some.inj (lookUp_eq_some.1 hids).2.2.1
  exact (hindex.enumerates_objects s p).mem_iff

/-- The graphs of the quads of a pattern are listed: those whose index finds a triple. -/
theorem Consistent.enumerates_graphNames (pattern : Pattern) :
    Enumerates (d.graphNames pattern) ((d.matching { pattern with graph := none }).map Quad.graph) := by
  unfold Dataset.graphNames Dataset.matching
  cases hids : d.lookUp { pattern with graph := none } with
  | none => exact ⟨List.nodup_nil, fun t => by simp⟩
  | some ids =>
    have hopen : none = ids.graph := Option.some.inj (lookUp_eq_some.1 hids).2.2.2
    have hkeys : ((d.graphs.toList.filter fun x => !(x.2.matching ids.triple).isEmpty).map (·.1)).Nodup :=
      nodup_keys_filter _ _
    dsimp only
    rw [filterMap_resolve?_fst]
    refine ⟨hd.nodup_filterMap_resolve? hkeys, fun t => ?_⟩
    simp only [List.mem_filterMap, mem_keys_filter]
    simp only [List.mem_map, List.mem_filterMap, Prod.exists, hd.mem_matchingIds]
    constructor
    · rintro ⟨graph, ⟨index, hget, hsome⟩, ht⟩
      obtain ⟨triple, htriple⟩ := List.exists_mem_of_ne_nil _ (by simpa using hsome)
      obtain ⟨hcontains, hmatches⟩ := (hd.coherent_of_getElem? hget).mem_matching.1 htriple
      have hcontains := contains_index_iff.2 ⟨index, hget, hcontains⟩
      obtain ⟨q, hq⟩ := hd.named hcontains
      have hgraph := (resolveQuad?_eq_some.1 hq).2.2.2.symm.trans ht
      exact ⟨q, ⟨graph, triple, ⟨hcontains, hopen ▸ agrees_none graph, hmatches⟩, hq⟩, Option.some.inj hgraph⟩
    · rintro ⟨q, ⟨graph, triple, ⟨hcontains, -, hmatches⟩, hq⟩, rfl⟩
      obtain ⟨index, hget, hcontains⟩ := contains_index_iff.1 hcontains
      have htriple := (hd.coherent_of_getElem? hget).mem_matching.2 ⟨hcontains, hmatches⟩
      exact ⟨graph, ⟨index, hget, by simpa using List.ne_nil_of_mem htriple⟩, (resolveQuad?_eq_some.1 hq).2.2.2⟩

omit hd in
/-- Whatever pattern is given, a dataset lists what the quads of the pattern have in a position that it leaves open,
each term once. -/
structure EnumeratesPositions (d : Dataset) : Prop where
  subjects : ∀ pattern : Pattern,
    Enumerates (d.subjects pattern) ((d.matching { pattern with subject := none }).map Quad.subject)
  predicates : ∀ pattern : Pattern,
    Enumerates (d.predicates pattern) ((d.matching { pattern with predicate := none }).map Quad.predicate)
  objects : ∀ pattern : Pattern,
    Enumerates (d.objects pattern) ((d.matching { pattern with object := none }).map Quad.object)
  graphNames : ∀ pattern : Pattern,
    Enumerates (d.graphNames pattern) ((d.matching { pattern with graph := none }).map Quad.graph)

theorem Consistent.enumeratesPositions : d.EnumeratesPositions where
  subjects := hd.enumerates_subjects
  predicates := hd.enumerates_predicates
  objects := hd.enumerates_objects
  graphNames := hd.enumerates_graphNames

/-- The subjects of a dataset are those of its quads. -/
theorem Consistent.mem_subjects {t : Term} : t ∈ d.subjects {} ↔ ∃ q ∈ d.quads, q.subject = t := by
  rw [(hd.enumerates_subjects {}).mem_iff, List.mem_map]
  simp only [quads, List.mem_toFinset]
  rfl

end RdfDataset.Dataset
