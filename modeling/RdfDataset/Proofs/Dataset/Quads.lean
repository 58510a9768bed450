import Mathlib
import RdfDataset.Dataset.Query
import RdfDataset.Proofs.GraphIndex
import RdfDataset.Proofs.Interner

/-!
# The quads of a dataset

A dataset is a set of quads: every number in its graphs names a term, and everything that is asked of it is answered
from this set.  A query is answered from it as long as its terms are not taken for others; valid terms never are when
only valid ones were added.

* `Dataset.Consistent` holds of a dataset whatever terms it has, `Dataset.Valid` when they are all valid;
  `Dataset.quads` is the set of its quads.
* `Dataset.Consistent.mem_matching` and `Dataset.Consistent.nodup_matching`: a query lists each matching quad once.
* `Dataset.Consistent.count_eq` and `Dataset.Valid.contains_iff`: counting and testing agree with listing.
-/

namespace RdfDataset

/-- The term of a pattern agrees with every quad that has it in its place. -/
def Pattern.Matches (pattern : Pattern) (q : Quad) : Prop :=
  Agrees pattern.subject q.subject ∧ Agrees pattern.predicate q.predicate ∧ Agrees pattern.object q.object ∧
    Agrees pattern.graph q.graph

instance (pattern : Pattern) (q : Quad) : Decidable (pattern.Matches q) :=
  inferInstanceAs (Decidable (_ ∧ _ ∧ _ ∧ _))

/-- The patterns of valid terms. -/
structure Pattern.IsValid (pattern : Pattern) : Prop where
  subject : ∀ t ∈ pattern.subject, t.IsValid
  predicate : ∀ t ∈ pattern.predicate, t.IsValid
  object : ∀ t ∈ pattern.object, t.IsValid
  graph : ∀ t ∈ pattern.graph, t.IsValid

/-- The terms of a pattern are not taken for others. -/
structure Pattern.DistinguishedBy (pattern : Pattern) (terms : Interner) : Prop where
  subject : ∀ t ∈ pattern.subject, terms.Distinguishes t
  predicate : ∀ t ∈ pattern.predicate, terms.Distinguishes t
  object : ∀ t ∈ pattern.object, terms.Distinguishes t
  graph : ∀ t ∈ pattern.graph, terms.Distinguishes t

theorem Pattern.distinguishedBy_empty (terms : Interner) : Pattern.DistinguishedBy {} terms := by
  constructor <;> simp

theorem Pattern.IsValid.distinguishedBy {pattern : Pattern} (h : pattern.IsValid) {terms : Interner}
    (hterms : terms.Valid) : pattern.DistinguishedBy terms where
  subject t ht := hterms.distinguishes (h.subject t ht)
  predicate t ht := hterms.distinguishes (h.predicate t ht)
  object t ht := hterms.distinguishes (h.object t ht)
  graph t ht := hterms.distinguishes (h.graph t ht)

/-- The terms of a quad are not taken for others. -/
structure Quad.DistinguishedBy (q : Quad) (terms : Interner) : Prop where
  subject : terms.Distinguishes q.subject
  predicate : terms.Distinguishes q.predicate
  object : terms.Distinguishes q.object
  graph : terms.Distinguishes q.graph

variable [Arrangement]

namespace Dataset

/-- Numbers in the graphs name terms, and the trees of each graph agree. -/
structure Consistent (d : Dataset) : Prop where
  sound : d.terms.Sound
  coherent : ∀ graph, (d.index graph).Coherent
  graph_named : ∀ {graph : Nat} {index : GraphIndex}, d.graphs[graph]? = some index →
    ∃ t, d.terms.resolve? graph = some t
  named : ∀ {graph : Nat} {t : Triple Nat}, (d.index graph).contains t = true →
    ∃ q, d.resolveQuad? graph t = some q

/-- A dataset is consistent and all its terms are valid. -/
structure Valid (d : Dataset) : Prop extends Consistent d where
  terms : d.terms.Valid

/-- The quads of a dataset. -/
def quads (d : Dataset) : Finset Quad :=
  d.toList.toFinset

/-! ### Numbers of quads -/

theorem resolveQuad?_eq_some {d : Dataset} {graph : Nat} {t : Triple Nat} {q : Quad} :
    d.resolveQuad? graph t = some q ↔
      d.terms.resolve? t.subject = some q.subject ∧ d.terms.resolve? t.predicate = some q.predicate ∧
        d.terms.resolve? t.object = some q.object ∧ d.terms.resolve? graph = some q.graph := by
  obtain ⟨s, p, o, g⟩ := q
  simp only [resolveQuad?, Option.bind_eq_bind, Option.bind_eq_some_iff, pure, Option.some.injEq, Quad.mk.injEq]
  constructor
  · rintro ⟨s, hs, p, hp, o, ho, g, hg, rfl, rfl, rfl, rfl⟩
    exact ⟨hs, hp, ho, hg⟩
  · rintro ⟨hs, hp, ho, hg⟩
    exact ⟨s, hs, p, hp, o, ho, g, hg, rfl, rfl, rfl, rfl⟩

theorem quadIds?_eq_some {d : Dataset} {graph : Nat} {t : Triple Nat} {q : Quad} :
    d.quadIds? q = some (graph, t) ↔
      d.terms.find? q.subject = some t.subject ∧ d.terms.find? q.predicate = some t.predicate ∧
        d.terms.find? q.object = some t.object ∧ d.terms.find? q.graph = some graph := by
  obtain ⟨s, p, o⟩ := t
  simp only [quadIds?, Option.bind_eq_bind, Option.bind_eq_some_iff, pure, Option.some.injEq, Prod.mk.injEq,
    Triple.mk.injEq]
  constructor
  · rintro ⟨g, hg, s, hs, p, hp, o, ho, rfl, rfl, rfl, rfl⟩
    exact ⟨hs, hp, ho, hg⟩
  · rintro ⟨hs, hp, ho, hg⟩
    exact ⟨graph, hg, s, hs, p, hp, o, ho, rfl, rfl, rfl, rfl⟩

/-- A quad keeps its numbers when terms get new ones. -/
theorem resolveQuad?_of_extends {d d' : Dataset} (hext : d.terms.Extends d'.terms) {graph : Nat} {t : Triple Nat}
    {q : Quad} (h : d.resolveQuad? graph t = some q) : d'.resolveQuad? graph t = some q := by
  rw [resolveQuad?_eq_some] at h ⊢
  exact ⟨hext _ _ h.1, hext _ _ h.2.1, hext _ _ h.2.2.1, hext _ _ h.2.2.2⟩

namespace Consistent

variable {d : Dataset} (hd : d.Consistent)
include hd

theorem distinguishedBy_of_resolveQuad? {graph : Nat} {t : Triple Nat} {q : Quad}
    (h : d.resolveQuad? graph t = some q) : q.DistinguishedBy d.terms := by
  rw [resolveQuad?_eq_some] at h
  exact ⟨hd.sound.distinguishes h.1, hd.sound.distinguishes h.2.1, hd.sound.distinguishes h.2.2.1,
    hd.sound.distinguishes h.2.2.2⟩

theorem quadIds?_eq_some_iff {q : Quad} (hq : q.DistinguishedBy d.terms) {graph : Nat} {t : Triple Nat} :
    d.quadIds? q = some (graph, t) ↔ d.resolveQuad? graph t = some q := by
  rw [quadIds?_eq_some, resolveQuad?_eq_some, hd.sound.find?_eq_some_iff hq.subject,
    hd.sound.find?_eq_some_iff hq.predicate, hd.sound.find?_eq_some_iff hq.object, hd.sound.find?_eq_some_iff hq.graph]

/-- A quad has its numbers for itself. -/
theorem resolveQuad?_inj {graph graph' : Nat} {t t' : Triple Nat} {q : Quad} (h : d.resolveQuad? graph t = some q)
    (h' : d.resolveQuad? graph' t' = some q) : (graph, t) = (graph', t') := by
  have hq := hd.distinguishedBy_of_resolveQuad? h
  rw [← hd.quadIds?_eq_some_iff hq] at h h'
  exact Option.some.inj (h.symm.trans h')

end Consistent

namespace Valid

variable {d : Dataset} (hd : d.Valid)
include hd

theorem isValid_of_resolveQuad? {graph : Nat} {t : Triple Nat} {q : Quad} (h : d.resolveQuad? graph t = some q) :
    q.IsValid := by
  rw [resolveQuad?_eq_some] at h
  rw [Quad.isValid_iff]
  exact ⟨hd.terms.isValid h.1, hd.terms.isValid h.2.1, hd.terms.isValid h.2.2.1, hd.terms.isValid h.2.2.2⟩

theorem distinguishedBy {q : Quad} (hq : q.IsValid) : q.DistinguishedBy d.terms := by
  obtain ⟨hs, hp, ho, hg⟩ := Quad.isValid_iff.1 hq
  exact ⟨hd.terms.distinguishes hs, hd.terms.distinguishes hp, hd.terms.distinguishes ho, hd.terms.distinguishes hg⟩

theorem quadIds?_eq_some_iff {q : Quad} (hq : q.IsValid) {graph : Nat} {t : Triple Nat} :
    d.quadIds? q = some (graph, t) ↔ d.resolveQuad? graph t = some q :=
  hd.toConsistent.quadIds?_eq_some_iff (hd.distinguishedBy hq)

end Valid

/-! ### Queries -/

theorem contains_index_iff {d : Dataset} {graph : Nat} {t : Triple Nat} :
    (d.index graph).contains t = true ↔ ∃ index, d.graphs[graph]? = some index ∧ index.contains t = true := by
  unfold index
  cases d.graphs[graph]? with
  | none => simp [GraphIndex.contains_empty]
  | some index => simp

/-- A quad is looked for in the index of its graph. -/
theorem contains_eq_true_iff {d : Dataset} {q : Quad} :
    d.contains q = true ↔ ∃ graph t, d.quadIds? q = some (graph, t) ∧ (d.index graph).contains t = true := by
  unfold contains index
  cases d.quadIds? q with
  | none => simp
  | some ids =>
    obtain ⟨graph, t⟩ := ids
    cases hget : d.graphs[graph]? with
    | none => simp +contextual [hget, GraphIndex.contains_empty]
    | some index => simp +contextual [hget]

/-- The numbers of a pattern are those of the triples that agree with it, in the graphs that do. -/
theorem mem_matchingIds_of_coherent {d : Dataset}
    (hcoherent : ∀ (graph : Nat) (index : GraphIndex), d.graphs[graph]? = some index → index.Coherent)
    {ids : IdPattern} {graph : Nat} {t : Triple Nat} :
    (graph, t) ∈ d.matchingIds ids ↔
      (d.index graph).contains t = true ∧ Agrees ids.graph graph ∧ ids.triple.Matches t := by
  simp only [matchingIds, indices, List.mem_flatMap, List.mem_map, Prod.exists, Prod.mk.injEq, mem_entriesAt]
  rw [contains_index_iff]
  constructor
  · rintro ⟨graph, index, ⟨hget, hgraph⟩, t, ht, rfl, rfl⟩
    rw [(hcoherent graph index hget).mem_matching] at ht
    exact ⟨⟨index, hget, ht.1⟩, hgraph, ht.2⟩
  · rintro ⟨⟨index, hget, ht⟩, hgraph, hmatches⟩
    exact ⟨graph, index, ⟨hget, hgraph⟩, t, (hcoherent graph index hget).mem_matching.2 ⟨ht, hmatches⟩, rfl, rfl⟩

namespace Consistent

variable {d : Dataset} (hd : d.Consistent)
include hd

/-- The graphs that a dataset keeps are coherent. -/
theorem coherent_of_getElem? {graph : Nat} {index : GraphIndex} (h : d.graphs[graph]? = some index) :
    index.Coherent := by
  have := hd.coherent graph
  rwa [Dataset.index, h] at this

theorem mem_matchingIds {ids : IdPattern} {graph : Nat} {t : Triple Nat} :
    (graph, t) ∈ d.matchingIds ids ↔
      (d.index graph).contains t = true ∧ Agrees ids.graph graph ∧ ids.triple.Matches t :=
  mem_matchingIds_of_coherent fun _ _ h => hd.coherent_of_getElem? h

end Consistent

/-- The numbers of a pattern are those of its terms. -/
theorem lookUp_eq_some {d : Dataset} {pattern : Pattern} {ids : IdPattern} :
    d.lookUp pattern = some ids ↔ d.lookUpTerm pattern.subject = some ids.triple.subject ∧
      d.lookUpTerm pattern.predicate = some ids.triple.predicate ∧
      d.lookUpTerm pattern.object = some ids.triple.object ∧ d.lookUpTerm pattern.graph = some ids.graph := by
  obtain ⟨⟨s, p, o⟩, g⟩ := ids
  simp only [lookUp, Option.bind_eq_bind, Option.bind_eq_some_iff, pure, Option.some.injEq, IdPattern.mk.injEq,
    Triple.mk.injEq]
  constructor
  · rintro ⟨s, hs, p, hp, o, ho, g, hg, ⟨rfl, rfl, rfl⟩, rfl⟩
    exact ⟨hs, hp, ho, hg⟩
  · rintro ⟨hs, hp, ho, hg⟩
    exact ⟨s, hs, p, hp, o, ho, g, hg, ⟨rfl, rfl, rfl⟩, rfl⟩

theorem nodup_matchingIds (d : Dataset) (ids : IdPattern) : (d.matchingIds ids).Nodup := by
  unfold matchingIds
  rw [List.nodup_flatMap]
  constructor
  · rintro ⟨graph, index⟩ -
    exact (index.nodup_matching ids.triple).map fun t u h => (Prod.mk.inj h).2
  · refine (nodup_keys_entriesAt d.graphs ids.graph).imp fun {x y} hne => ?_
    rw [Function.onFun, List.disjoint_left]
    simp only [List.mem_map, not_exists, not_and]
    rintro _ ⟨t, -, rfl⟩ u - h
    exact hne (Prod.mk.inj h).1.symm

theorem length_matchingIds (d : Dataset) (ids : IdPattern) :
    (d.matchingIds ids).length = ((d.indices ids.graph).map fun (_, index) => index.count ids.triple).sum := by
  simp [matchingIds, List.length_flatMap, GraphIndex.count_eq]

namespace Consistent

variable {d : Dataset} (hd : d.Consistent)
include hd

/-- A term of a pattern is looked up as a number that stands for the same terms. -/
private theorem agrees_iff {known : Option Term} (hknown : ∀ t ∈ known, d.terms.Distinguishes t) {id : Option Nat}
    (h : d.lookUpTerm known = some id) {n : Nat} {t : Term} (ht : d.terms.resolve? n = some t) :
    Agrees known t ↔ Agrees id n := by
  cases known with
  | none =>
    obtain rfl := Option.some.inj h
    simp
  | some k =>
    obtain ⟨m, hm, rfl⟩ := Option.map_eq_some_iff.1 h
    rw [hd.sound.find?_eq_some_iff (hknown k rfl)] at hm
    rw [agrees_some, agrees_some]
    constructor
    · rintro rfl
      exact hd.sound.resolve?_inj ht hm
    · rintro rfl
      rw [hm] at ht
      exact (Option.some.inj ht).symm

/-- No term of the dataset agrees with one that has no number. -/
private theorem not_agrees {known : Option Term} (hknown : ∀ t ∈ known, d.terms.Distinguishes t)
    (h : d.lookUpTerm known = none) {n : Nat} {t : Term} (ht : d.terms.resolve? n = some t) : ¬Agrees known t := by
  cases known with
  | none => cases h
  | some k =>
    rw [lookUpTerm, Option.map_eq_none_iff, hd.sound.find?_eq_none_iff (hknown k rfl)] at h
    rw [agrees_some]
    rintro rfl
    exact h n ht

private theorem matches_iff {pattern : Pattern} (hpattern : pattern.DistinguishedBy d.terms) {ids : IdPattern}
    (h : d.lookUp pattern = some ids) {graph : Nat} {t : Triple Nat} {q : Quad}
    (hq : d.resolveQuad? graph t = some q) :
    pattern.Matches q ↔ Agrees ids.graph graph ∧ ids.triple.Matches t := by
  obtain ⟨hs, hp, ho, hg⟩ := lookUp_eq_some.1 h
  rw [resolveQuad?_eq_some] at hq
  rw [Pattern.Matches, hd.agrees_iff hpattern.subject hs hq.1, hd.agrees_iff hpattern.predicate hp hq.2.1,
    hd.agrees_iff hpattern.object ho hq.2.2.1, hd.agrees_iff hpattern.graph hg hq.2.2.2, Triple.Matches]
  tauto

private theorem not_matches {pattern : Pattern} (hpattern : pattern.DistinguishedBy d.terms)
    (h : d.lookUp pattern = none) {graph : Nat} {t : Triple Nat} {q : Quad} (hq : d.resolveQuad? graph t = some q) : ¬pattern.Matches q := by
  rw [resolveQuad?_eq_some] at hq
  rintro ⟨hs, hp, ho, hg⟩
  cases hs' : d.lookUpTerm pattern.subject with
  | none => exact hd.not_agrees hpattern.subject hs' hq.1 hs
  | some s =>
    cases hp' : d.lookUpTerm pattern.predicate with
    | none => exact hd.not_agrees hpattern.predicate hp' hq.2.1 hp
    | some p =>
      cases ho' : d.lookUpTerm pattern.object with
      | none => exact hd.not_agrees hpattern.object ho' hq.2.2.1 ho
      | some o =>
        cases hg' : d.lookUpTerm pattern.graph with
        | none => exact hd.not_agrees hpattern.graph hg' hq.2.2.2 hg
        | some g => simp [lookUp, hs', hp', ho', hg'] at h

private theorem mem_matching_of_lookUp {pattern : Pattern} (hpattern : pattern.DistinguishedBy d.terms) {q : Quad} :
    q ∈ d.matching pattern ↔ (∃ graph t, (d.index graph).contains t = true ∧ d.resolveQuad? graph t = some q) ∧
      pattern.Matches q := by
  unfold matching
  cases h : d.lookUp pattern with
  | none =>
    simp only [List.not_mem_nil, false_iff, not_and]
    rintro ⟨graph, t, -, hq⟩
    exact hd.not_matches hpattern h hq
  | some ids =>
    simp only [List.mem_filterMap, Prod.exists, hd.mem_matchingIds]
    constructor
    · rintro ⟨graph, t, ⟨ht, hids⟩, hq⟩
      exact ⟨⟨graph, t, ht, hq⟩, (hd.matches_iff hpattern h hq).2 hids⟩
    · rintro ⟨⟨graph, t, ht, hq⟩, hmatches⟩
      exact ⟨graph, t, ⟨ht, (hd.matches_iff hpattern h hq).1 hmatches⟩, hq⟩

/-- The quads are those that have their numbers in the index of their graph. -/
theorem mem_quads {q : Quad} :
    q ∈ d.quads ↔ ∃ graph t, (d.index graph).contains t = true ∧ d.resolveQuad? graph t = some q := by
  rw [quads, List.mem_toFinset, toList, hd.mem_matching_of_lookUp (Pattern.distinguishedBy_empty _)]
  simp [Pattern.Matches]

/-- A query finds the quads that agree with the pattern. -/
theorem mem_matching {pattern : Pattern} (hpattern : pattern.DistinguishedBy d.terms) {q : Quad} :
    q ∈ d.matching pattern ↔ q ∈ d.quads ∧ pattern.Matches q := by
  rw [hd.mem_matching_of_lookUp hpattern, hd.mem_quads]

/-- A query finds quads of the dataset only, whatever the pattern is. -/
theorem mem_quads_of_mem_matching {pattern : Pattern} {q : Quad} (hq : q ∈ d.matching pattern) : q ∈ d.quads := by
  unfold matching at hq
  split at hq
  · cases hq
  · obtain ⟨⟨graph, t⟩, ht, hresolve⟩ := List.mem_filterMap.1 hq
    exact hd.mem_quads.2 ⟨graph, t, (hd.mem_matchingIds.1 ht).1, hresolve⟩

/-- The quads of a dataset are not taken for others. -/
theorem distinguishedBy_of_mem {q : Quad} (hq : q ∈ d.quads) : q.DistinguishedBy d.terms := by
  obtain ⟨graph, t, -, h⟩ := hd.mem_quads.1 hq
  exact hd.distinguishedBy_of_resolveQuad? h

/-- The subject of a quad has a number. -/
theorem exists_number {q : Quad} (hq : q ∈ d.quads) : ∃ n, d.terms.resolve? n = some q.subject := by
  obtain ⟨graph, t, -, h⟩ := hd.mem_quads.1 hq
  exact ⟨t.subject, (resolveQuad?_eq_some.1 h).1⟩

/-- A query finds no quad twice. -/
theorem nodup_matching (pattern : Pattern) : (d.matching pattern).Nodup := by
  unfold matching
  cases d.lookUp pattern with
  | none => exact List.nodup_nil
  | some ids =>
    refine (d.nodup_matchingIds ids).filterMap fun x y q hx hy => ?_
    exact hd.resolveQuad?_inj hx hy

theorem matching_eq_singleton {pattern : Pattern} {q : Quad} (h : ∀ q', q' ∈ d.matching pattern ↔ q' = q) :
    d.matching pattern = [q] := by
  have hmem : ∀ q', q' ∈ d.matching pattern ↔ q' ∈ [q] := fun q' => by rw [h, List.mem_singleton]
  have hperm := (List.perm_ext_iff_of_nodup (hd.nodup_matching pattern) (List.nodup_singleton q)).2 hmem
  exact List.perm_singleton.1 hperm

/-- Counting the quads of a pattern gives the length of their list. -/
theorem count_eq (pattern : Pattern) : d.count pattern = (d.matching pattern).length := by
  unfold count matching
  cases d.lookUp pattern with
  | none => rfl
  | some ids =>
    -- nothing is dropped on the way from numbers to terms
    have hall : ∀ x ∈ d.matchingIds ids, (d.resolveQuad? x.1 x.2).isSome = true := by
      rintro ⟨graph, t⟩ h
      obtain ⟨q, hq⟩ := hd.named (hd.mem_matchingIds.1 h).1
      rw [hq, Option.isSome_some]
    dsimp only
    rw [total_eq_sum, ← length_matchingIds]
    exact (List.filterMap_length_eq_length.2 hall).symm

end Consistent

namespace Valid

variable {d : Dataset} (hd : d.Valid)
include hd

/-- All quads of a dataset are valid. -/
theorem isValid_of_mem {q : Quad} (hq : q ∈ d.quads) : q.IsValid := by
  obtain ⟨graph, t, -, h⟩ := hd.mem_quads.1 hq
  exact hd.isValid_of_resolveQuad? h

/-- A query for valid terms finds the quads that agree with the pattern. -/
theorem mem_matching {pattern : Pattern} (hpattern : pattern.IsValid) {q : Quad} :
    q ∈ d.matching pattern ↔ q ∈ d.quads ∧ pattern.Matches q :=
  hd.toConsistent.mem_matching (hpattern.distinguishedBy hd.terms)

/-- A quad is found in a dataset when it is one of its quads. -/
theorem contains_iff {q : Quad} (hq : q.IsValid) : d.contains q = true ↔ q ∈ d.quads := by
  rw [hd.mem_quads, contains_eq_true_iff]
  simp only [hd.quadIds?_eq_some_iff hq, and_comm]

end Valid

theorem mem_distinctTerms {d : Dataset} {ids : List Nat} {t : Term} :
    t ∈ d.distinctTerms ids ↔ ∃ n ∈ ids, d.terms.resolve? n = some t := by
  simp [distinctTerms, List.mem_eraseDups]

end Dataset

end RdfDataset
