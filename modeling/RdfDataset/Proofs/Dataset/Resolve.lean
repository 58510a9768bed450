import RdfDataset.Proofs.Dataset.Numbers

/-!
# Every stored number names a term

A dataset looks for quads and counts them by their numbers, and turns numbers into terms at the end.  A number without
a term would be dropped there without a word.  There is none: whatever is done with a dataset, its graphs and all levels
of their trees, empty ones included, hold numbers of terms only.

* `Dataset.KeysIn`: all numbers that a dataset stores are among some given ones; `Dataset.Sound.keysIn` gives those that
  name terms.
* `Dataset.pickedNumbers` and `Dataset.graphNumbers`: the numbers behind an enumeration; `Dataset.enumerate_eq` and
  `Dataset.graphNames_eq` turn them into terms.
* `Dataset.ResolvesAll`: all numbers that are found are turned into terms, one by one.
* `Dataset.resolvesAll_calls`: this holds at any time, and so counting by numbers counts what is listed.
-/

namespace RdfDataset

/-- Nothing is dropped from a list that has a value everywhere. -/
theorem map_some_filterMap {α β : Type} {f : α → Option β} {as : List α} (h : ∀ a ∈ as, ∃ b, f a = some b) :
    (as.filterMap f).map some = as.map f := by
  induction as with
  | nil => rfl
  | cons a as ih =>
    obtain ⟨⟨b, hb⟩, has⟩ := List.forall_mem_cons.1 h
    rw [List.filterMap_cons_some hb, List.map_cons, List.map_cons, ih has, hb]

namespace Dataset

variable [Arrangement]

/-- All numbers that a dataset stores are among some given ones: those of its graphs, and those in all levels of the
trees of each graph. -/
def KeysIn (U : Set Nat) (d : Dataset) : Prop :=
  ∀ (graph : Nat) (index : GraphIndex), d.graphs[graph]? = some index → graph ∈ U ∧ index.KeysIn U

/-- The numbers that are picked from the indices of a pattern, each once. -/
def pickedNumbers (d : Dataset) (ids : IdPattern) (pick : GraphIndex → Triple (Option Nat) → List Nat) : List Nat :=
  ((d.indices ids.graph).flatMap fun (_, index) => pick index ids.triple).eraseDups

/-- The numbers of the graphs that have triples of a pattern. -/
def graphNumbers (d : Dataset) (ids : IdPattern) : List Nat :=
  (d.graphs.toList.filter fun (_, index) => !(index.matching ids.triple).isEmpty).map (·.1)

variable {d : Dataset} {pattern : Pattern} {ids : IdPattern}

theorem matching_eq (h : d.lookUp pattern = some ids) :
    d.matching pattern = (d.matchingIds ids).filterMap fun (graph, t) => d.resolveQuad? graph t := by
  rw [Dataset.matching, h]

theorem enumerate_eq (h : d.lookUp pattern = some ids) (pick : GraphIndex → Triple (Option Nat) → List Nat) :
    d.enumerate pattern pick = (d.pickedNumbers ids pick).filterMap d.terms.resolve? := by
  rw [enumerate, h]
  rfl

theorem graphNames_eq (h : d.lookUp { pattern with graph := none } = some ids) :
    d.graphNames pattern = (d.graphNumbers ids).filterMap d.terms.resolve? := by
  rw [graphNames, h]
  exact d.filterMap_resolve?_fst _

theorem mem_pickedNumbers {pick : GraphIndex → Triple (Option Nat) → List Nat} {n : Nat} :
    n ∈ d.pickedNumbers ids pick ↔ ∃ x ∈ d.indices ids.graph, n ∈ pick x.2 ids.triple := by
  rw [pickedNumbers, List.mem_eraseDups, List.mem_flatMap]

/-- On the way from the numbers that are found to their terms none is dropped: what is listed are the terms of all of
them, in the same order. -/
structure ResolvesAll (d : Dataset) : Prop where
  matching : ∀ pattern ids, d.lookUp pattern = some ids →
    (d.matching pattern).map some = (d.matchingIds ids).map fun (graph, t) => d.resolveQuad? graph t
  subjects : ∀ pattern ids, d.lookUp { pattern with subject := none } = some ids →
    (d.subjects pattern).map some =
      (d.pickedNumbers ids fun index t => index.subjects t.predicate t.object).map d.terms.resolve?
  predicates : ∀ pattern ids, d.lookUp { pattern with predicate := none } = some ids →
    (d.predicates pattern).map some =
      (d.pickedNumbers ids fun index t => index.predicates t.subject t.object).map d.terms.resolve?
  objects : ∀ pattern ids, d.lookUp { pattern with object := none } = some ids →
    (d.objects pattern).map some =
      (d.pickedNumbers ids fun index t => index.objects t.subject t.predicate).map d.terms.resolve?
  graphNames : ∀ pattern ids, d.lookUp { pattern with graph := none } = some ids →
    (d.graphNames pattern).map some = (d.graphNumbers ids).map d.terms.resolve?

namespace Sound

variable (hd : d.Sound)
include hd

/-- The graphs, and all levels of their trees, hold numbers of terms only. -/
theorem keysIn : d.KeysIn d.terms.named :=
  fun _ _ hget => ⟨(hd.graphs hget).graph_named, (hd.graphs hget).keys⟩

/-- An enumeration that picks numbers out of the trees drops none of them. -/
theorem map_some_enumerate (h : d.lookUp pattern = some ids) {pick : GraphIndex → Triple (Option Nat) → List Nat}
    (hpick : ∀ index : GraphIndex, index.KeysIn d.terms.named → ∀ n ∈ pick index ids.triple, n ∈ d.terms.named) :
    (d.enumerate pattern pick).map some = (d.pickedNumbers ids pick).map d.terms.resolve? := by
  rw [enumerate_eq h]
  refine map_some_filterMap fun n hn => ?_
  obtain ⟨⟨graph, index⟩, hindex, hn⟩ := mem_pickedNumbers.1 hn
  exact hpick index (hd.keysIn graph index (mem_entriesAt.1 hindex).1).2 n hn

theorem resolvesAll : d.ResolvesAll where
  matching pattern ids h := by
    rw [matching_eq h]
    exact map_some_filterMap fun x hx => hd.consistent.named (hd.consistent.mem_matchingIds.1 hx).1
  subjects _ _ h := hd.map_some_enumerate h fun _ hindex _ hn => hindex.of_mem_subjects hn
  predicates _ _ h := hd.map_some_enumerate h fun _ hindex _ hn => hindex.of_mem_predicates hn
  objects _ _ h := hd.map_some_enumerate h fun _ hindex _ hn => hindex.of_mem_objects hn
  graphNames pattern ids h := by
    rw [graphNames_eq h]
    refine map_some_filterMap fun graph hgraph => ?_
    obtain ⟨index, hget, -⟩ := mem_keys_filter.1 hgraph
    exact (hd.keysIn graph index hget).1

end Sound

/-- Whatever calls are made, whether they succeed or fail, every number that a dataset stores, as a graph or in any
level of the three trees of a graph, is one of those from one to the number of its terms, and these are the numbers that
name terms.  So no quad, graph or term in a position of the quads is dropped when numbers are turned into terms, and
counting numbers counts the quads that are listed. -/
theorem resolvesAll_calls (settings : Settings) (calls : List Call) :
    let d := calls.foldl Call.run { settings }
    d.KeysIn (Set.Icc 1 d.terms.size) ∧ (∀ n, n ∈ Set.Icc 1 d.terms.size ↔ ∃ t, d.terms.resolve? n = some t) ∧
      d.ResolvesAll ∧
      (∀ pattern ids, d.lookUp pattern = some ids →
        d.count pattern = (d.matchingIds ids).length ∧ d.count pattern = (d.matching pattern).length) ∧
      (∀ pattern, d.lookUp pattern = none → d.count pattern = 0 ∧ d.matching pattern = []) ∧
      d.countQuads = d.toList.length ∧ d.size.1 = d.toList.length := by
  intro d
  have hd : d.Sound := sound_calls settings calls
  have hnamed : d.terms.named = Set.Icc 1 d.terms.size := Set.ext fun _ => Interner.resolve?_isSome_iff
  refine ⟨hnamed ▸ hd.keysIn, fun n => Interner.resolve?_isSome_iff.symm, hd.resolvesAll, fun pattern ids h => ?_,
    fun pattern h => ?_, ?_, ?_⟩
  · have hlength := congrArg List.length (hd.resolvesAll.matching pattern ids h)
    rw [List.length_map, List.length_map] at hlength
    rw [hd.consistent.count_eq, hlength]
    exact ⟨rfl, rfl⟩
  · rw [count, matching, h]
    exact ⟨rfl, rfl⟩
  · rw [hd.countQuads_eq, hd.length_toList]
  · rw [hd.size_eq, hd.length_toList]

end Dataset

end RdfDataset
