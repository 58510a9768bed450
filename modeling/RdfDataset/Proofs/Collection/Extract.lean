import RdfDataset.Proofs.Collection.Walk
import RdfDataset.Proofs.Dataset.Change

/-!
# Extracting collections

Every arc to `rdf:nil` is the end of one chain, which is a collection or has one fault.

* `Dataset.EndsCollection`: a quad is the last arc of a collection.
* `Dataset.Consistent.chainOf_eq_list_iff` and `Dataset.Consistent.exists_chainOf_eq_malformed_iff`: what the chain of
  a last arc shows.
* `Dataset.gatherLists_ignoring` and `Dataset.gatherLists_strict`: all chains together.
* `Dataset.Valid.extractLists`: extraction keeps a dataset valid, also when it takes quads out.
-/

namespace RdfDataset

open Vocabulary.Rdf

/-- The collection that a chain is, by its head. -/
def Chain.list? : Chain → Option (Term × List Term)
  | .list head items _ => some (head, items)
  | .malformed _ => none
  | .circular _ => none

/-- The arcs of the cells of a collection that a chain is. -/
def Chain.arcs : Chain → List Quad
  | .list _ _ arcs => arcs
  | .malformed _ => []
  | .circular _ => []

/-- What is wrong with a chain. -/
def Chain.fault? : Chain → Option ListFault
  | .list _ _ _ => none
  | .malformed fault => some fault
  | .circular _ => none

namespace Dataset

variable [Arrangement] {d : Dataset}

/-! ### The chain of a last arc -/

/-- A quad is the last arc of a collection. -/
def EndsCollection (d : Dataset) (last : Quad) : Prop :=
  ∃ before item, d.IsCollection last.graph (before ++ [(last.subject, item)])

theorem Chained.length_le {graph : Term} {cells : List (Term × Term)} (h : d.Chained graph cells) (hd : d.Consistent)
    (hnil : d.NilEnds) : cells.length ≤ (d.subjects {}).length := by
  have hle := length_le_subjects hd (h.nodup hnil) fun t ht => h.exists_subject ht
  rwa [List.length_map] at hle

/-- Every collection has a last arc, from its last cell. -/
theorem IsCollection.exists_last {graph : Term} {cells : List (Term × Term)} (h : d.IsCollection graph cells) :
    ∃ before node item, cells = before ++ [(node, item)] ∧ d.IsLastArc ⟨node, restTerm, nilTerm, graph⟩ := by
  obtain ⟨before, ⟨node, item⟩, rfl⟩ := (List.eq_nil_or_concat' cells).resolve_left h.ne_nil
  exact ⟨before, node, item, rfl, h.chained.of_append.1.rest_mem, rfl, rfl⟩

namespace Consistent

variable (hd : d.Consistent)
include hd

/-- A chain that leads to a head has been followed along the cells of a collection, and has gathered their arcs. -/
theorem exists_of_chainOf_eq_list {last : Quad} (h : d.IsLastArc last) {head : Term} {items : List Term}
    {arcs : List Quad} (hchain : d.chainOf last = .list head items arcs) :
    ∃ before item, d.IsCollection last.graph (before ++ [(last.subject, item)]) ∧
      head = start (before ++ [(last.subject, item)]) ∧ items = (before ++ [(last.subject, item)]).map Prod.snd ∧
      ∀ q, q ∈ arcs ↔ d.IsListArcOf (before ++ [(last.subject, item)]) q := by
  obtain ⟨before, item, hcollection, hstart, hitems, harcs⟩ := h.approaches.isCollection_of_followChain hd hchain
  rw [List.append_nil] at hitems
  refine ⟨before, item, hcollection, hstart, hitems, fun q => ?_⟩
  rw [harcs]
  simp

variable (hnil : d.NilEnds)
include hnil

theorem chainOf_ne_circular {last : Quad} (h : d.IsLastArc last) (cell : Term) : d.chainOf last ≠ .circular cell := by
  obtain ⟨visited, hwalk, -, hle⟩ := hd.exists_walk h hnil
  exact followChain_ne_circular hwalk (Nat.le_succ_of_le hle) [] [] cell

/-- The chain of a last arc is the collection that it ends. -/
theorem chainOf_eq_list_iff {last : Quad} (h : d.IsLastArc last) {head : Term} {items : List Term} :
    (d.chainOf last).list? = some (head, items) ↔
      ∃ before item, d.IsCollection last.graph (before ++ [(last.subject, item)]) ∧
        head = start (before ++ [(last.subject, item)]) ∧ items = (before ++ [(last.subject, item)]).map Prod.snd := by
  constructor
  · intro hchain
    cases hfollow : d.chainOf last with
    | malformed fault => simp [hfollow, Chain.list?] at hchain
    | circular cell => simp [hfollow, Chain.list?] at hchain
    | list head' items' arcs =>
      rw [hfollow] at hchain
      obtain ⟨rfl, rfl⟩ := Prod.mk.inj (Option.some.inj hchain)
      obtain ⟨before, item, hcollection, hstart, hitems, -⟩ := hd.exists_of_chainOf_eq_list h hfollow
      exact ⟨before, item, hcollection, hstart, hitems⟩
  · rintro ⟨before, item, hcollection, rfl, rfl⟩
    have hle := hcollection.chained.length_le hd hnil
    rw [List.length_append, List.length_singleton] at hle
    obtain ⟨arcs, hfollow⟩ := followChain_of_isCollection hd hcollection (Nat.lt_succ_of_lt hle) [] []
    rw [chainOf, hfollow, Chain.list?, List.append_nil]

/-- The chain of a last arc is at fault when no collection ends with this arc. -/
theorem exists_chainOf_eq_malformed_iff {last : Quad} (h : d.IsLastArc last) :
    (d.chainOf last).fault?.isSome = true ↔ ¬d.EndsCollection last := by
  cases hchain : d.chainOf last with
  | list head items arcs =>
    obtain ⟨before, item, hcollection, -⟩ := (hd.chainOf_eq_list_iff hnil h).1 (congrArg Chain.list? hchain)
    exact iff_of_false (by simp [Chain.fault?]) fun hnot => hnot ⟨before, item, hcollection⟩
  | malformed fault =>
    refine iff_of_true rfl ?_
    rintro ⟨before, item, hcollection⟩
    have hlist := (hd.chainOf_eq_list_iff hnil h).2 ⟨before, item, hcollection, rfl, rfl⟩
    rw [hchain] at hlist
    cases hlist
  | circular cell => exact absurd hchain (hd.chainOf_ne_circular hnil h cell)

end Consistent

/-! ### All chains together -/

/-- The chains of some last arcs, when faults are left aside. -/
theorem gatherLists_ignoring {lasts : List Quad} (h : ∀ last ∈ lasts, ∀ cell, d.chainOf last ≠ .circular cell)
    (extraction : Extraction) (arcs : List Quad) :
    d.gatherLists true lasts (extraction, arcs) =
      .ok (⟨extraction.lists ++ lasts.filterMap fun last => (d.chainOf last).list?,
        extraction.faults ++ lasts.filterMap fun last => (d.chainOf last).fault?⟩,
        arcs ++ lasts.flatMap fun last => (d.chainOf last).arcs) := by
  induction lasts generalizing extraction arcs with
  | nil => simp [gatherLists]
  | cons last lasts ih =>
    have hothers := ih fun other hother => h other (List.mem_cons_of_mem last hother)
    rw [gatherLists]
    cases hchain : d.chainOf last with
    | list head items chainArcs =>
      refine (hothers { extraction with lists := extraction.lists ++ [(head, items)] } (arcs ++ chainArcs)).trans ?_
      simp [hchain, Chain.list?, Chain.fault?, Chain.arcs]
    | malformed fault =>
      refine (hothers { extraction with faults := extraction.faults ++ [fault] } arcs).trans ?_
      simp [hchain, Chain.list?, Chain.fault?, Chain.arcs]
    | circular cell => exact absurd hchain (h last List.mem_cons_self cell)

/-- The chains of some last arcs, up to the first fault. -/
theorem gatherLists_strict {lasts : List Quad} (h : ∀ last ∈ lasts, ∀ cell, d.chainOf last ≠ .circular cell)
    (extraction : Extraction) (arcs : List Quad) :
    match lasts.filterMap fun last => (d.chainOf last).fault? with
    | [] => d.gatherLists false lasts (extraction, arcs) = d.gatherLists true lasts (extraction, arcs)
    | fault :: _ => d.gatherLists false lasts (extraction, arcs) = .error (.malformed fault) := by
  induction lasts generalizing extraction arcs with
  | nil => rfl
  | cons last lasts ih =>
    have hothers := ih fun other hother => h other (List.mem_cons_of_mem last hother)
    rw [gatherLists, gatherLists, List.filterMap_cons]
    cases hchain : d.chainOf last with
    | list head items chainArcs =>
      exact hothers { extraction with lists := extraction.lists ++ [(head, items)] } (arcs ++ chainArcs)
    | malformed fault => rfl
    | circular cell => exact absurd hchain (h last List.mem_cons_self cell)

/-- The arcs of all chains are quads of the dataset. -/
theorem arcs_subset_of_gatherLists (hd : d.Consistent) {ignoreErrors : Bool} {lasts : List Quad}
    {extraction extraction' : Extraction} {arcs arcs' : List Quad} (harcs : ∀ q ∈ arcs, q ∈ d.quads)
    (h : d.gatherLists ignoreErrors lasts (extraction, arcs) = .ok (extraction', arcs')) :
    ∀ q ∈ arcs', q ∈ d.quads := by
  induction lasts generalizing extraction arcs with
  | nil =>
    cases h
    exact harcs
  | cons last lasts ih =>
    rw [gatherLists] at h
    cases hchain : d.chainOf last with
    | list head items chainArcs =>
      rw [hchain] at h
      refine ih (fun q hq => ?_) h
      rcases List.mem_append.1 hq with hq | hq
      · exact harcs q hq
      · exact arcs_subset_of_followChain hd (by simp) hchain q hq
    | malformed fault =>
      rw [hchain] at h
      cases ignoreErrors with
      | true => exact ih harcs h
      | false => cases h
    | circular cell =>
      rw [hchain] at h
      cases h

/-- Extraction keeps a dataset valid and its numbers in place, and adds nothing. -/
theorem Valid.extractLists (hd : d.Valid) (options : ExtractOptions) :
    (d.extractLists options).2.Valid ∧ (d.extractLists options).2.terms = d.terms ∧
      (d.extractLists options).2.quads ⊆ d.quads := by
  unfold Dataset.extractLists
  dsimp only
  split
  · exact ⟨hd, rfl, subset_rfl⟩
  · exact ⟨hd, rfl, subset_rfl⟩
  · rename_i extraction arcs hgather
    split
    · have harcs := arcs_subset_of_gatherLists hd.toConsistent (by simp) hgather
      obtain ⟨hvalid, hterms, hquads, -⟩ := hd.eraseMany fun q hq => hd.isValid_of_mem (harcs q hq)
      rw [hquads]
      exact ⟨hvalid, hterms, Finset.sdiff_subset⟩
    · exact ⟨hd, rfl, subset_rfl⟩

/-! ### What extraction finds -/

/-- The collections of a dataset are listed by the ids of their heads, and every last arc that ends no collection is
recorded as one fault. -/
structure IsExtraction (d : Dataset) (extraction : Extraction) : Prop where
  mem_lists : ∀ head items, (head, items) ∈ extraction.lists ↔
    ∃ graph cells, d.IsCollection graph cells ∧ head = start cells ∧ items = cells.map Prod.snd
  nodup_ids : (extraction.lists.map fun list => list.1.id).Nodup
  faults : ∃ lasts : List Quad, lasts.Nodup ∧ (∀ last, last ∈ lasts ↔ d.IsLastArc last ∧ ¬d.EndsCollection last) ∧
    lasts.map d.chainOf = extraction.faults.map .malformed

private theorem map_chainOf_eq (d : Dataset) (lasts : List Quad) :
    (lasts.filter fun last => (d.chainOf last).fault?.isSome).map d.chainOf =
      (lasts.filterMap fun last => (d.chainOf last).fault?).map .malformed := by
  induction lasts with
  | nil => rfl
  | cons last lasts ih =>
    rw [List.filter_cons, List.filterMap_cons]
    cases hchain : d.chainOf last with
    | malformed fault =>
      have hhead : d.chainOf last :: (lasts.filter fun last => (d.chainOf last).fault?.isSome).map d.chainOf =
          .malformed fault :: (lasts.filterMap fun last => (d.chainOf last).fault?).map .malformed := by
        rw [hchain, ih]
      exact hhead
    | list head items arcs => exact ih
    | circular cell => exact ih

namespace Consistent

variable (hd : d.Consistent)
include hd

/-- The arcs to the empty list are looked at. -/
theorem mem_lastArcs {last : Quad} :
    last ∈ d.matching { predicate := some restTerm, object := some nilTerm } ↔ d.IsLastArc last := by
  have hrest : d.terms.Distinguishes restTerm := Interner.distinguishes_iri _ rfl (by decide)
  have hnil : d.terms.Distinguishes nilTerm := Interner.distinguishes_iri _ rfl (by decide)
  have hpattern : ({ predicate := some restTerm, object := some nilTerm } : Pattern).DistinguishedBy d.terms := by
    constructor <;> simp [hrest, hnil]
  rw [hd.mem_matching hpattern]
  simp [Pattern.Matches, IsLastArc]

variable (hnil : d.NilEnds)
include hnil

/-- Two last arcs do not end collections with the same head. -/
private theorem eq_of_id_eq {last last' : Quad} (h : d.IsLastArc last) (h' : d.IsLastArc last')
    {head head' : Term} {items items' : List Term} (hlist : (d.chainOf last).list? = some (head, items))
    (hlist' : (d.chainOf last').list? = some (head', items')) (hid : head.id = head'.id) : last = last' := by
  obtain ⟨before, item, hcollection, rfl, -⟩ := (hd.chainOf_eq_list_iff hnil h).1 hlist
  obtain ⟨before', item', hcollection', rfl, -⟩ := (hd.chainOf_eq_list_iff hnil h').1 hlist'
  -- the head has a number, and from it the cells follow one after the other
  have hstart : start (before ++ [(last.subject, item)]) = start (before' ++ [(last'.subject, item')]) := by
    obtain ⟨cell, cells, hcells⟩ := List.exists_cons_of_ne_nil hcollection.ne_nil
    obtain ⟨cell', cells', hcells'⟩ := List.exists_cons_of_ne_nil hcollection'.ne_nil
    have hchained := hcollection.chained
    have hchained' := hcollection'.chained
    rw [hcells] at hchained hid ⊢
    rw [hcells'] at hchained' hid ⊢
    have htold := (hd.distinguishedBy_of_mem hchained'.1.rest_mem).subject
    obtain ⟨n, hn⟩ := hd.exists_number hchained.1.rest_mem
    exact htold n _ hn hid
  have hcells := hcollection.chained.unique hnil hcollection'.chained hstart
  obtain ⟨rfl, hcell⟩ := List.append_inj' hcells rfl
  obtain ⟨hsubject, rfl⟩ := Prod.mk.inj (List.singleton_inj.1 hcell)
  have hlast := hcollection.chained.of_append.1
  exact (hlast.eq_of_rest h.1 rfl h.2.1).trans (hlast.eq_of_rest h'.1 hsubject.symm h'.2.1).symm

/-- Extraction finds the collections, whether the faults are left aside or the first one is reported. -/
theorem exists_isExtraction (remove : Bool) :
    ∃ extraction, (d.extractLists { remove, ignoreErrors := true }).1 = .ok extraction ∧ d.IsExtraction extraction ∧
      (d.extractLists { remove, ignoreErrors := false }).1 =
        match extraction.faults with
        | [] => .ok extraction
        | fault :: _ => .error (.malformed fault) := by
  have hnodup := hd.nodup_matching { predicate := some restTerm, object := some nilTerm }
  have hmem : ∀ last, last ∈ d.matching { predicate := some restTerm, object := some nilTerm } ↔ d.IsLastArc last :=
    fun last => hd.mem_lastArcs
  unfold Dataset.extractLists
  dsimp only
  generalize d.matching { predicate := some restTerm, object := some nilTerm } = lasts at hnodup hmem
  have hnocircle : ∀ last ∈ lasts, ∀ cell, d.chainOf last ≠ .circular cell :=
    fun last hlast => hd.chainOf_ne_circular hnil ((hmem last).1 hlast)
  have hignoring := gatherLists_ignoring hnocircle {} []
  have hstrict := gatherLists_strict hnocircle {} []
  rw [hignoring]
  refine ⟨_, rfl, ⟨?_, ?_, ?_⟩, ?_⟩
  · intro head items
    simp only [List.nil_append, List.mem_filterMap]
    constructor
    · rintro ⟨last, hlast, hlist⟩
      obtain ⟨before, item, hcollection, hhead, hitems⟩ := (hd.chainOf_eq_list_iff hnil ((hmem last).1 hlast)).1 hlist
      exact ⟨last.graph, _, hcollection, hhead, hitems⟩
    · rintro ⟨graph, cells, hcollection, hhead, hitems⟩
      obtain ⟨before, node, item, rfl, hlast⟩ := hcollection.exists_last
      exact ⟨_, (hmem _).2 hlast, (hd.chainOf_eq_list_iff hnil hlast).2 ⟨before, item, hcollection, hhead, hitems⟩⟩
  · simp only [List.nil_append, List.nodup_iff_pairwise_ne, List.pairwise_map, List.pairwise_filterMap]
    refine (List.nodup_iff_pairwise_ne.1 hnodup).imp_of_mem fun hlast hlast' hne list hlist list' hlist' hid => hne ?_
    exact hd.eq_of_id_eq hnil ((hmem _).1 hlast) ((hmem _).1 hlast') hlist hlist' hid
  · refine ⟨lasts.filter fun last => (d.chainOf last).fault?.isSome, hnodup.filter _, fun last => ?_, ?_⟩
    · rw [List.mem_filter, hmem]
      constructor
      · rintro ⟨hlast, hfault⟩
        exact ⟨hlast, (hd.exists_chainOf_eq_malformed_iff hnil hlast).1 hfault⟩
      · rintro ⟨hlast, hnot⟩
        exact ⟨hlast, (hd.exists_chainOf_eq_malformed_iff hnil hlast).2 hnot⟩
    · rw [map_chainOf_eq]
      rfl
  · simp only [List.nil_append]
    cases hfaults : lasts.filterMap fun last => (d.chainOf last).fault? with
    | nil =>
      rw [hfaults] at hstrict
      rw [hstrict, hignoring, hfaults]
      rfl
    | cons fault faults =>
      rw [hfaults] at hstrict
      rw [hstrict]

end Consistent

end Dataset

end RdfDataset
