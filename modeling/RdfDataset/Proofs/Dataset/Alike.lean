import RdfDataset.Proofs.Dataset.Call
import RdfDataset.Proofs.Reasoning.Alike

/-!
# Datasets with the same quads

Two datasets can have numbered the same terms and hold the same quads, and differ in what removals have left behind:
empty levels of an index, whole graphs without quads, and the order in which the tables list what is there.  What is
asked of them has the same answers, in one order or another.

* `Dataset.Alike`: sound datasets that differ in nothing else.
* `Dataset.Alike.matching`, `Dataset.Alike.subjects`, `Dataset.Alike.graphNames` and so on: one lemma for each query.
* `Dataset.Alike.of_quads`: datasets that number the same terms are alike when they have the same quads.
-/

namespace RdfDataset.Dataset

variable [Arrangement]

/-- Two sound datasets have the same numbers for the same terms, label blank nodes alike, and have the same triples in
each graph. -/
structure Alike (d e : Dataset) : Prop where
  left : d.Sound
  right : e.Sound
  terms : e.terms = d.terms
  nextBlank : e.nextBlank = d.nextBlank
  blankNodePrefix : e.settings.blankNodePrefix = d.settings.blankNodePrefix
  contains : ∀ graph t, (e.index graph).contains t = (d.index graph).contains t

variable {d e : Dataset}

namespace Alike

section

variable (h : d.Alike e)
include h

theorem index (graph : Nat) : (d.index graph).Alike (e.index graph) :=
  ⟨h.left.consistent.coherent graph, h.right.consistent.coherent graph, h.contains graph⟩

/-! ### Numbers -/

theorem lookUp (pattern : Pattern) : e.lookUp pattern = d.lookUp pattern := by
  have hterm : e.lookUpTerm = d.lookUpTerm := by
    funext t
    cases t with
    | none => rfl
    | some t => rw [lookUpTerm, lookUpTerm, h.terms]
  rw [Dataset.lookUp, Dataset.lookUp, hterm]

theorem quadIds? (q : Quad) : e.quadIds? q = d.quadIds? q := by
  rw [Dataset.quadIds?, Dataset.quadIds?, h.terms]

theorem resolveQuad? (graph : Nat) (t : Triple Nat) : e.resolveQuad? graph t = d.resolveQuad? graph t := by
  rw [Dataset.resolveQuad?, Dataset.resolveQuad?, h.terms]

/-- Both find the same numbers, each once, in whatever order their tables list them. -/
theorem matchingIds (ids : IdPattern) : (e.matchingIds ids).Perm (d.matchingIds ids) := by
  refine (List.perm_ext_iff_of_nodup (e.nodup_matchingIds ids) (d.nodup_matchingIds ids)).2 fun x => ?_
  rw [h.right.consistent.mem_matchingIds, h.left.consistent.mem_matchingIds, h.contains]

theorem quadNumbers : e.quadNumbers = d.quadNumbers :=
  List.toFinset_eq_of_perm _ _ (h.matchingIds _)

/-! ### Queries -/

theorem matching (pattern : Pattern) : (e.matching pattern).Perm (d.matching pattern) := by
  unfold Dataset.matching
  rw [h.lookUp]
  cases d.lookUp pattern with
  | none => exact .nil
  | some ids =>
    have hresolve : (fun x : Nat × Triple Nat => e.resolveQuad? x.1 x.2) = fun x => d.resolveQuad? x.1 x.2 :=
      funext fun x => h.resolveQuad? x.1 x.2
    dsimp only
    rw [hresolve]
    exact (h.matchingIds ids).filterMap _

theorem quads : e.quads = d.quads :=
  List.toFinset_eq_of_perm _ _ (h.matching {})

theorem contains_quad (q : Quad) : e.contains q = d.contains q := by
  rw [Bool.eq_iff_iff, contains_eq_true_iff, contains_eq_true_iff, h.quadIds?]
  simp only [h.contains]

theorem count (pattern : Pattern) : e.count pattern = d.count pattern := by
  rw [h.right.consistent.count_eq, h.left.consistent.count_eq, (h.matching pattern).length_eq]

theorem any (pattern : Pattern) (test : Quad → Bool) : e.any pattern test = d.any pattern test :=
  (h.matching pattern).any_eq

theorem every (pattern : Pattern) (test : Quad → Bool) : e.every pattern test = d.every pattern test := by
  unfold Dataset.every
  dsimp only
  rw [(h.matching pattern).all_eq, (h.matching pattern).isEmpty_eq]

theorem size : e.size.1 = d.size.1 := by
  rw [h.left.size_eq, h.right.size_eq, h.quadNumbers]

/-! ### Terms in one position -/

theorem subjects (pattern : Pattern) : (e.subjects pattern).Perm (d.subjects pattern) :=
  (h.right.consistent.enumerates_subjects pattern).perm (h.left.consistent.enumerates_subjects pattern)
    ((h.matching _).map _)

theorem predicates (pattern : Pattern) : (e.predicates pattern).Perm (d.predicates pattern) :=
  (h.right.consistent.enumerates_predicates pattern).perm (h.left.consistent.enumerates_predicates pattern)
    ((h.matching _).map _)

theorem objects (pattern : Pattern) : (e.objects pattern).Perm (d.objects pattern) :=
  (h.right.consistent.enumerates_objects pattern).perm (h.left.consistent.enumerates_objects pattern)
    ((h.matching _).map _)

theorem graphNames (pattern : Pattern) : (e.graphNames pattern).Perm (d.graphNames pattern) :=
  (h.right.consistent.enumerates_graphNames pattern).perm (h.left.consistent.enumerates_graphNames pattern)
    ((h.matching _).map _)

end

/-! ### From quads to numbers -/

/-- The triples of a dataset are those of another one that has its quads, by the same numbers. -/
private theorem contains_of_subset (hd : d.Consistent) (he : e.Consistent) (hterms : e.terms = d.terms)
    (hquads : d.quads ⊆ e.quads) {graph : Nat} {t : Triple Nat} (h : (d.index graph).contains t = true) :
    (e.index graph).contains t = true := by
  obtain ⟨q, hq⟩ := hd.named h
  have hmem := hquads ((hd.mem_quads_iff hq).2 h)
  rw [resolveQuad?_eq_some, ← hterms, ← resolveQuad?_eq_some] at hq
  exact (he.mem_quads_iff hq).1 hmem

/-- Datasets that number the same terms have the same triples when they have the same quads. -/
theorem of_quads (hd : d.Sound) (he : e.Sound) (hterms : e.terms = d.terms) (hnext : e.nextBlank = d.nextBlank)
    (hlabel : e.settings.blankNodePrefix = d.settings.blankNodePrefix) (hquads : e.quads = d.quads) : d.Alike e := by
  refine ⟨hd, he, hterms, hnext, hlabel, fun graph t => ?_⟩
  rw [Bool.eq_iff_iff]
  exact ⟨contains_of_subset he.consistent hd.consistent hterms.symm hquads.le,
    contains_of_subset hd.consistent he.consistent hterms hquads.ge⟩

end Alike

end RdfDataset.Dataset
