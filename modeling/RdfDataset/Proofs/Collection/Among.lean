import RdfDataset.Proofs.Collection.Extract

/-!
# Collections among other quads

What makes a collection well formed is in the quads that mention its cells, so other quads do no harm.

* `Dataset.SameArcs`: a node is mentioned by the same quads of two datasets.
* `Dataset.IsCollection.among`: a collection remains one among other quads that do not mention its cells.
* `Dataset.IsCollection.exists_mem_lists`: all collections are extracted.
-/

namespace RdfDataset

variable [Arrangement]

namespace Dataset

/-- A node is the subject of the same quads of two datasets and the object of the same. -/
structure SameArcs (d d' : Dataset) (node : Term) : Prop where
  arcsFrom : d.arcsFrom node = d'.arcsFrom node
  arcsTo : d.arcsTo node = d'.arcsTo node

variable {d d' : Dataset} {graph node item next previous : Term} {cells : List (Term × Term)}

/-- More quads leave the arcs of a node as they are if they do not mention it. -/
theorem sameArcs_of_subset (hsubset : d.quads ⊆ d'.quads)
    (hother : ∀ q ∈ d'.quads, q ∉ d.quads → q.subject ≠ node ∧ q.object ≠ node) : SameArcs d d' node where
  arcsFrom := by
    ext q
    rw [mem_arcsFrom, mem_arcsFrom]
    refine ⟨fun h => ⟨hsubset h.1, h.2⟩, fun h => ⟨?_, h.2⟩⟩
    by_contra hnot
    exact (hother q h.1 hnot).1 h.2
  arcsTo := by
    ext q
    rw [mem_arcsTo, mem_arcsTo]
    refine ⟨fun h => ⟨hsubset h.1, h.2⟩, fun h => ⟨?_, h.2⟩⟩
    by_contra hnot
    exact (hother q h.1 hnot).2 h.2

namespace SameArcs

theorem isCell (h : SameArcs d d' node) (hcell : d.IsCell graph node item next) : d'.IsCell graph node item next := by
  obtain ⟨hfirst, hrest, hconfined⟩ := hcell
  rw [h.arcsFrom] at hfirst hrest hconfined
  exact ⟨hfirst, hrest, hconfined⟩

theorem isInner (h : SameArcs d d' node) (hinner : d.IsInner graph previous node) : d'.IsInner graph previous node := by
  obtain ⟨hfrom, hto⟩ := hinner
  rw [h.arcsFrom] at hfrom
  rw [h.arcsTo] at hto
  exact ⟨hfrom, hto⟩

theorem isHead (h : SameArcs d d' node) (hhead : d.IsHead node) : d'.IsHead node := by
  obtain ⟨hrest, hcard⟩ := hhead
  rw [h.arcsTo] at hrest hcard
  rw [h.arcsFrom] at hcard
  exact ⟨hrest, hcard⟩

end SameArcs

theorem Chained.sameArcs (h : d.Chained graph cells) (hsame : ∀ cell ∈ cells.map Prod.fst, SameArcs d d' cell) :
    d'.Chained graph cells := by
  induction cells with
  | nil => trivial
  | cons cell cells ih =>
    obtain ⟨cell, item⟩ := cell
    rw [List.map_cons, List.forall_mem_cons] at hsame
    obtain ⟨hcell, hinner, hchained⟩ := h
    refine ⟨hsame.1.isCell hcell, fun next hnext => ?_, ih hchained hsame.2⟩
    have hmem : next.1 ∈ cells.map Prod.fst := List.mem_map_of_mem (List.mem_of_mem_head? hnext)
    exact (hsame.2 next.1 hmem).isInner (hinner next hnext)

/-- A collection remains one among other quads that do not mention its cells. -/
theorem IsCollection.among (h : d.IsCollection graph cells) (hsubset : d.quads ⊆ d'.quads)
    (hother : ∀ q ∈ d'.quads, q ∉ d.quads → q.subject ∉ cells.map Prod.fst ∧ q.object ∉ cells.map Prod.fst) :
    d'.IsCollection graph cells := by
  have hsame : ∀ cell ∈ cells.map Prod.fst, SameArcs d d' cell := by
    refine fun cell hcell => sameArcs_of_subset hsubset fun q hq hnot => ?_
    obtain ⟨hsubject, hobject⟩ := hother q hq hnot
    exact ⟨fun heq => hsubject (heq ▸ hcell), fun heq => hobject (heq ▸ hcell)⟩
  have hstart : start cells ∈ cells.map Prod.fst := by
    obtain ⟨cell, cells, rfl⟩ := List.exists_cons_of_ne_nil h.ne_nil
    exact List.mem_cons_self
  exact ⟨h.ne_nil, (hsame _ hstart).isHead h.head, h.chained.sameArcs hsame⟩

/-- All collections are extracted, whatever else is wrong with a dataset. -/
theorem IsCollection.exists_mem_lists (h : d.IsCollection graph cells) (hd : d.Consistent) (hnil : d.NilEnds)
    (remove : Bool) : ∃ extraction, (d.extractLists { remove, ignoreErrors := true }).1 = .ok extraction ∧
      (start cells, cells.map Prod.snd) ∈ extraction.lists := by
  obtain ⟨extraction, hextract, hextraction, -⟩ := hd.exists_isExtraction hnil remove
  exact ⟨extraction, hextract, (hextraction.mem_lists _ _).2 ⟨graph, cells, h, rfl, rfl⟩⟩

end Dataset

end RdfDataset
